import Prosepect.Resumption.Interleave
import Prosepect.Limits.RateLimit
import Prosepect.Limits.Concurrency
import Prosepect.Content.StorageQuotaEnds
import Prosepect.Calendar.Sync
import Prosepect.Store.Conflicts
import Prosepect.Store.Tasks
import Prosepect.Store.Valid
import Prosepect.Calendar.StatementFacts
import Prosepect.Calendar.Delivery
import Prosepect.Calendar.Outcomes
import Prosepect.Calendar.Redelivery
import Prosepect.Calendar.Google
import Prosepect.Calendar.Creation
import Prosepect.Calendar.Pull
import Prosepect.Calendar.Convergence
import Prosepect.Store.Edits
import Prosepect.Calendar.Passes
import Prosepect.Calendar.Constraints
import Prosepect.Calendar.Flags
import Prosepect.Calendar.Footprint
import Prosepect.Calendar.Tombstones
import Prosepect.Calendar.Undecided
import Prosepect.Store.Projects
import Prosepect.Store.CalendarList
import Prosepect.Store.Moves
import Prosepect.Store.Actions
import Prosepect.Data.Forest
import Prosepect.Store.TaskFacts
import Prosepect.Store.TaskGraph
import Prosepect.Store.TaskChecks
import Prosepect.Store.TaskValid
import Prosepect.Store.EventFacts
import Prosepect.Store.Stays
import Prosepect.Store.WorkspaceStays
import Prosepect.Store.TaskRuns
import Prosepect.Queue.Jobs
import Prosepect.Queue.Workers
import Prosepect.Queue.JobRuns
import Prosepect.Store.Aging
import Prosepect.Store.MoveRuns
import Prosepect.Store.MoveUndo
import Prosepect.Store.Declared
import Prosepect.Store.Revisions
import Prosepect.Store.Receipts
import Prosepect.Store.SnapshotText
import Prosepect.Store.ReceiptLimits
import Prosepect.Store.UndoGuards
import Prosepect.Store.UndoInverse
import Prosepect.GoogleTasks.Fields
import Prosepect.GoogleTasks.Links
import Prosepect.GoogleTasks.Merging
import Prosepect.GoogleTasks.LinkRuns
import Prosepect.Content.Quota
import Prosepect.GoogleTasks.ChangeRuns
import Prosepect.GoogleTasks.Settle
import Prosepect.GoogleTasks.SettleRuns
import Prosepect.Store.Completion
import Prosepect.Data.Months
import Prosepect.Store.Series
import Prosepect.Store.Exceptions
import Prosepect.Data.Pages
import Prosepect.Store.Listing
import Prosepect.Content.Export
import Prosepect.Store.Writes
import Prosepect.Store.Mirror
import Prosepect.Store.MirrorWrites
import Prosepect.Store.MirrorRuns
import Prosepect.Data.Json
import Prosepect.Calendar.Echo
import Prosepect.Store.Latest
import Prosepect.Store.Reviews
import Prosepect.Content.AttachmentRuns
import Prosepect.Store.ReviewFocus
import Prosepect.Data.Zone
import Prosepect.GoogleTasks.Deadline
import Prosepect.Data.Rfc3339
import Prosepect.GoogleTasks.Wire
import Prosepect.Content.TasksCsv
import Prosepect.Data.Csv
import Prosepect.Calendar.Occurrences
import Prosepect.Calendar.Window
import Prosepect.Data.Regex
import Prosepect.Data.Outline
import Prosepect.Data.Script
import Prosepect.Web.QuickCapture
import Prosepect.Web.TodoistImport
import Prosepect.Web.TodoistRows
import Prosepect.Web.CaptureTitle
import Prosepect.Web.CaptureTokens
import Prosepect.Web.NothingLost
import Prosepect.Data.ScriptDate
import Prosepect.Web.AllDayEvents
import Prosepect.Content.CalendarsIcs
import Prosepect.Data.Ical
import Prosepect.Web.DayView
import Prosepect.Web.BulkTasks
import Prosepect.Resumption.Records
import Prosepect.Resumption.Locks
import Prosepect.Access.Headers
import Prosepect.Access.IdToken
import Prosepect.Access.Accounts
import Prosepect.Access.SignIn
import Prosepect.Access.SignInRuns
import Prosepect.Access.SignInHolds
import Prosepect.Access.SignInEnds
import Prosepect.Access.Capacity
import Prosepect.Access.Credentials
import Prosepect.Access.Revocation
import Prosepect.GoogleTasks.Batch
import Prosepect.Store.TaskVersions

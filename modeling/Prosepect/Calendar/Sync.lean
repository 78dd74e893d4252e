/-
`sync_service.rs`: the pull of the changes of a Google calendar, the settling of resolved
deletions and the push of local changes, as programs over statements and requests.

The loop over the pages of a pull is bounded by a `fuel`, the number of requests it may make.
-/
import Prosepect.Calendar.Statements

namespace Prosepect

open Resumption

/-- Code of the synchronization. -/
abbrev Sync (α : Type) := Prog calendarSig SyncError α

namespace SyncService

/-! ## Statements and requests -/

def sql (s : Stmt) : Sync s.Val :=
  .op (.sql s) fun (r : Except SqlError s.Val) => match r with
    | .ok v => .ret v
    | .error e => .fail (.database e)

def request (r : Request) : Sync (Response r.Body) :=
  .op (.http r) fun (x : Except Unit (Response r.Body)) => match x with
    | .ok v => .ret v
    | .error _ => .fail .transport

/-- The statuses `send` tries again on. -/
def retryable (status : Nat) : Bool := status == 429 || (500 ≤ status && status < 600)

/-- A request and up to `attempts` repetitions of it. -/
def sendFrom (r : Request) : (attempts : Nat) → Sync (Response r.Body)
  | 0 => request r
  | n + 1 => do
    let response ← request r
    if retryable response.status then sendFrom r n else return response

def send (r : Request) : Sync (Response r.Body) := sendFrom r 3

/-- `error_for_status`, with its context. -/
def errorForStatus {β : Type} (context : String) (response : Response β) : Sync (Response β) :=
  if 400 ≤ response.status ∧ response.status < 600 then .fail (.status response.status context)
  else .ret response

def json {β : Type} (context : String) (response : Response β) : Sync β :=
  match response.body with
  | some value => .ret value
  | none => .fail (.decode context)

def sendJson (r : Request) : Sync r.Body := do
  let response ← send r
  let response ← errorForStatus "Google Calendar request failed" response
  json "Google Calendar returned invalid JSON" response

def accessToken : Sync Unit := do
  let response ← request .accessToken
  let _ ← errorForStatus "" response

def recordActivity (kind message : String) : Sync Unit := sql (.recordActivity kind message)

/-! ## One remote event -/

def createConflict (mapping : MappingState) (title : String) : Sync Unit := do
  sql (.insertConflict mapping.id mapping.canonicalEventId title)
  sql (.setUnresolved mapping.id)
  recordActivity "synchronization_conflict" "A calendar event needs a conflict decision"

/-- The policy in force: a pending resolution, or the setting of the user. -/
def policyOf (mapping : MappingState) : Sync SyncConflictPolicy :=
  match mapping.pendingResolution with
  | some resolution => return resolution.policy
  | none => do return (← sql .selectPolicy).getD .ask

def keepLocal (policy : SyncConflictPolicy) (event : GoogleEvent) (mapping : MappingState) : Bool :=
  policy == .prosepect ||
    (policy == .latest && match event.updated, mapping.localUpdatedAt with
      | some remoteUpdated, some localUpdated => decide (localUpdated ≥ remoteUpdated)
      | _, _ => false)

/-- The mapping of a reversibly deleted task. -/
def applyToTombstone (mapping : MappingState) (event : GoogleEvent) : Sync Unit :=
  if event.cancelled then sql (.dropTombstone mapping.id)
  else if event.etag.isNone || mapping.externalEtag != event.etag then do
    createConflict mapping (event.summary.getD "Deleted task event")
    sql (.deleteUndos mapping.id)
  else return ()

def applyCancelled (mapping : MappingState) (event : GoogleEvent) : Sync Unit := do
  let remove : Sync Unit := do
    match mapping.canonicalEventId with
    | some eventId => sql (.deleteCanonicalEvent eventId)
    | none => pure ()
    sql (.deleteMapping mapping.id)
    recordActivity "remote_event_deleted" "Applied a Google event deletion"
  if mapping.localDirty then
    let policy ← policyOf mapping
    if policy = .ask then createConflict mapping (event.summary.getD "Deleted event")
    else if keepLocal policy event mapping then sql (.deleteMapping mapping.id)
    else remove
  else remove

/-- Write a remote version over the local one. -/
def applyContent (calendar : SyncCalendar) (mapping : MappingState) (event : GoogleEvent)
    (normalized : NormalizedEvent) : Sync Unit := do
  match mapping.canonicalEventId with
  | some eventId => sql (.updateCanonicalEvent eventId calendar.id normalized)
  | none =>
    let eventId ← sql (.insertCanonicalEvent calendar.id normalized)
    sql (.linkMapping mapping.id eventId)
  sql (.updateMappingBaseline mapping.id event.etag (eventFingerprint normalized))
  recordActivity "remote_event_applied" "Applied a Google event change"

def applyChanged (calendar : SyncCalendar) (mapping : MappingState) (event : GoogleEvent)
    (normalized : NormalizedEvent) : Sync Unit :=
  if mapping.externalEtag = event.etag then return ()
  else if mapping.localDirty || mapping.localDeleted then do
    let policy ← policyOf mapping
    if policy = .ask then createConflict mapping normalized.title
    else if keepLocal policy event mapping then sql (.clearPendingResolution mapping.id)
    else applyContent calendar mapping event normalized
  else applyContent calendar mapping event normalized

def importEvent (calendar : SyncCalendar) (externalId : String) (event : GoogleEvent)
    (normalized : NormalizedEvent) : Sync Unit := do
  let eventId ← sql (.insertCanonicalEvent calendar.id normalized)
  sql (.insertMapping calendar.id eventId calendar.externalId externalId event.etag (eventFingerprint normalized))
  recordActivity "remote_event_imported" "Imported an event from Google"

def applyRemoteEvent (calendar : SyncCalendar) (event : GoogleEvent) : Sync Unit :=
  match event.id with
  | none => return ()
  | some externalId => do
    let mapping ← sql (.selectMapping calendar.externalId externalId)
    match mapping with
    | some mapping =>
      if mapping.reversibleTombstone then applyToTombstone mapping event
      else if event.cancelled then applyCancelled mapping event
      else do
        let normalized ← Prog.ofExcept ((normalizeEvent event).mapError .integration)
        applyChanged calendar mapping event normalized
    | none =>
      if event.cancelled then return ()
      else do
        let normalized ← Prog.ofExcept ((normalizeEvent event).mapError .integration)
        importEvent calendar externalId event normalized

/-! ## Pull -/

/-- After the last page: the token of the next pull, unless a conflict still needs the old one. -/
def finishPull (calendar : SyncCalendar) (nextSyncToken : Option String) : Sync Unit := do
  let hasUnresolvedConflicts : Bool ← sql (.existsUnresolved calendar.id)
  if hasUnresolvedConflicts then return ()
  else match nextSyncToken with
    | some token => sql (.setSyncToken calendar.id token)
    | none => return ()

def pullPages (calendar : SyncCalendar) :
    (fuel : Nat) → (syncToken pageToken : Option String) → (retriedFull : Bool) → Sync Unit
  | 0, _, _, _ => .fail .unfinished
  | fuel + 1, syncToken, pageToken, retriedFull => do
    let response ← send (.listEvents calendar.externalId syncToken pageToken)
    if response.status = 410 ∧ retriedFull = false then pullPages calendar fuel none none true
    else do
      let response ← errorForStatus "Google event pull failed" response
      let page ← json "invalid Google event list" response
      Prog.forEach (applyRemoteEvent calendar) page.items
      match page.nextPageToken with
      | some token => pullPages calendar fuel syncToken (some token) retriedFull
      | none => finishPull calendar page.nextSyncToken

def pullCalendar (fuel : Nat) (calendar : SyncCalendar) : Sync Unit :=
  pullPages calendar fuel calendar.syncToken none false

/-! ## Resolved deletions -/

def reconcileOne (calendar : SyncCalendar) (pending : Uuid × String) : Sync Unit := do
  let response ← send (.getEvent calendar.externalId pending.2)
  if response.status = 404 ∨ response.status = 410 then sql (.deletePendingMapping pending.1)
  else do
    let response ← errorForStatus "" response
    let event ← json "" response
    if event.id ≠ some pending.2 then .fail (.integration "Google resolution returned a different identity")
    else applyRemoteEvent calendar event

def reconcileDeletedTaskResolution (calendar : SyncCalendar) : Sync Unit := do
  let pending ← sql (.selectResolutionPending calendar.id)
  Prog.forEach (reconcileOne calendar) pending

/-! ## Push -/

/-- Create an event, or adopt what Google has under its id. -/
def createRemote (calendar : SyncCalendar) (event : LocalEvent) : Sync GoogleEvent := do
  let externalId := googleEventId event.id
  let response ← send (.postEvent calendar.externalId { GoogleEventWrite.fromLocal event with id := some externalId })
  if response.status = 409 then sendJson (.getEvent calendar.externalId externalId)
  else do
    let response ← errorForStatus "Google event creation failed" response
    json "Google event creation returned invalid JSON" response

def pushUnmapped (calendar : SyncCalendar) (event : LocalEvent) : Sync Unit := do
  let remote ← createRemote calendar event
  let externalId := remote.id.getD (googleEventId event.id)
  sql (.insertMapping calendar.id event.id calendar.externalId externalId remote.etag (localFingerprint event))
  recordActivity "local_event_created" "Created a Google event from Prosepect"

def pushDeleted (calendar : SyncCalendar) (mapping : DirtyMapping) : Sync Unit := do
  let response ← send (.deleteEvent calendar.externalId mapping.externalEventId mapping.externalEtag)
  if response.status = 404 then pure ()
  else do
    let _ ← errorForStatus "Google event deletion failed" response
  sql (.deleteMapping mapping.mappingId)
  recordActivity "local_event_deleted" "Deleted a Google event from Prosepect"

def pushChanged (calendar : SyncCalendar) (mapping : DirtyMapping) (event : LocalEvent) : Sync Unit := do
  let remote ← sendJson
    (.putEvent calendar.externalId mapping.externalEventId (GoogleEventWrite.fromLocal event) mapping.externalEtag)
  sql (.recordPushed mapping.mappingId remote.etag (localFingerprint event))
  recordActivity "local_event_updated" "Updated a Google event from Prosepect"

def pushDirty (calendar : SyncCalendar) (mapping : DirtyMapping) : Sync Unit :=
  match mapping.localDeleted, mapping.event with
  | false, some event => pushChanged calendar mapping event
  | _, _ => pushDeleted calendar mapping

def pushCalendar (calendar : SyncCalendar) : Sync Unit := do
  let unmapped ← sql (.selectUnmapped calendar.id)
  Prog.forEach (pushUnmapped calendar) unmapped
  let dirty ← sql (.selectDirty calendar.id)
  Prog.forEach (pushDirty calendar) dirty

/-! ## A pass -/

def syncCalendar (fuel : Nat) (calendar : SyncCalendar) : Sync Unit := do
  match ← (pullCalendar fuel calendar).attempt with
  | .error e =>
    sql (.setSyncError calendar.id e)
    .fail e
  | .ok _ =>
    reconcileDeletedTaskResolution calendar
    pushCalendar calendar
    sql (.setSynced calendar.id)

def syncCalendars (fuel : Nat) (only : Option Uuid) : Sync Unit := do
  let calendars ← sql (.selectCalendars only)
  accessToken
  Prog.forEach (syncCalendar fuel) calendars

end SyncService

end Prosepect

/-
`encode` of `task_delete_store.rs`: the snapshot of a deleted task as `jsonb`, and by how much its text
grows when the deletion writes it a second time.
-/
import Prosepect.Data.Jsonb
import Prosepect.Store.Undo

namespace Prosepect

open Time Store

/-- `to_jsonb` of the rows, and the digests of fingerprints. -/
structure RowText where
  task : TaskRow → Jsonb
  event : CalendarEvent → Jsonb
  note : Note → Jsonb
  file : FileRecord → Jsonb
  focus : FocusTask → Jsonb
  project : Project → Jsonb
  calendar : CalendarGuard → Jsonb
  account : GoogleAccount → Jsonb
  /-- The columns of a mapping but `base_fingerprint`; they are printed of a row without one. -/
  mapping : Mapping → List (String × Jsonb)
  /-- `Sha256::digest`, as hexadecimal digits. -/
  digest : Fingerprint → Fin 64 → Fin 16

/-- `task_delete_guard_revisions.scope`. -/
def GuardScope.text : GuardScope → String
  | .calendars => "calendars"
  | .reviewSelection => "review-selection"
  | .focus date => "focus:" ++ String.ofList (formatDate date)

/-- `format!("\x7b:x\x7d")`. -/
def hexText (digits : Fin 64 → Fin 16) : String := String.ofList (List.ofFn fun i => Json.hexDigit (digits i))

namespace RowText

variable (rows : RowText)

def fingerprintJson (fingerprint : Option Fingerprint) : Jsonb :=
  Jsonb.optional (fun f => .str (hexText (rows.digest f))) fingerprint

def mappingJson (m : Mapping) : Jsonb :=
  .obj (("base_fingerprint", rows.fingerprintJson m.baseFingerprint) :: rows.mapping { m with baseFingerprint := none })

def revisionJson (r : GuardScope × Nat) : Jsonb := .arr [.str r.1.text, .int r.2]

def encode (s : Snapshot) : Jsonb :=
  .obj [
    ("task", rows.task s.task),
    ("event", Jsonb.optional rows.event s.event),
    ("notes", .arr (s.notes.map rows.note)),
    ("files", .arr (s.files.map rows.file)),
    ("focus", .arr (s.focus.map rows.focus)),
    ("successors", .arr (s.successors.map rows.task)),
    ("projects", .arr (s.projects.map rows.project)),
    ("task_dependencies", .arr (s.taskDependencies.map rows.task)),
    ("calendar", Jsonb.optional rows.calendar s.calendar),
    ("mapping", Jsonb.optional rows.mappingJson s.mapping),
    ("google_account", Jsonb.optional rows.account s.googleAccount),
    ("revisions", .arr (s.revisions.map revisionJson))]

/-- `octet_length(snapshot::text)`. -/
def octets (s : Snapshot) : Nat := (rows.encode s).octets

/-! ## The second write -/

theorem hexDigit_plain (d : Fin 16) : (Json.hexDigit d).toNat ∉ Json.escaped ∧ (Json.hexDigit d).utf8Size = 1 := by
  revert d
  decide

/-- All fingerprints take 64 digits. -/
theorem octets_fingerprint (f : Fingerprint) : (rows.fingerprintJson (some f)).octets = 66 := by
  have hplain : ∀ c ∈ (hexText (rows.digest f)).toList, c.toNat ∉ Json.escaped ∧ c.utf8Size = 1 := by
    intro c hc
    rw [hexText, String.toList_ofList, List.mem_ofFn] at hc
    obtain ⟨i, rfl⟩ := hc
    exact hexDigit_plain _
  have hlength : (hexText (rows.digest f)).length = 64 := by
    rw [hexText, String.length_ofList, List.length_ofFn]
  show (Jsonb.str (hexText (rows.digest f))).octets = 66
  rw [Jsonb.octets_str hplain, hlength]

/-- Where there was no fingerprint, one takes the place of `null`. -/
theorem octets_fingerprint_le (a : Option Fingerprint) (f : Fingerprint) :
    (rows.fingerprintJson (some f)).octets ≤ (rows.fingerprintJson a).octets + 62 := by
  rw [octets_fingerprint]
  cases a with
  | none =>
    have hnull : (rows.fingerprintJson none).octets = 4 := rfl
    omega
  | some g =>
    rw [octets_fingerprint]
    omega

theorem octets_mapping_le (m : Mapping) (f : Fingerprint) :
    (rows.mappingJson { m with baseFingerprint := some f }).octets ≤ (rows.mappingJson m).octets + 62 := by
  have hgrown := rows.octets_fingerprint_le m.baseFingerprint f
  unfold mappingJson
  rw [Jsonb.octets_obj, Jsonb.octets_obj]
  simp only [List.map_cons, List.sum_cons, List.length_cons]
  omega

theorem octets_heldMapping_le (held : Option (Mapping × Fingerprint)) :
    (Jsonb.optional rows.mappingJson (held.map fun (m, f) => { m with baseFingerprint := some f })).octets ≤
      (Jsonb.optional rows.mappingJson (held.map (·.1))).octets + 62 := by
  cases held with
  | none => exact Nat.le_add_right _ _
  | some p => exact rows.octets_mapping_le p.1 p.2

/-- A counter that is bumped less than a hundred times gets at most two digits longer. -/
theorem octets_revision_le {scope : GuardScope} {n m : Nat} (h : m ≤ n + 99) :
    (revisionJson (scope, m)).octets ≤ (revisionJson (scope, n)).octets + 2 := by
  have hgrown := Jsonb.octets_int_le h
  have htwo : (Nat.toDigits 10 99).length = 2 := by decide
  unfold revisionJson
  rw [Jsonb.octets_arr, Jsonb.octets_arr]
  simp only [List.map_cons, List.map_nil, List.sum_cons, List.sum_nil, List.length_cons]
  omega

/-- The snapshot with the fingerprint of the mapping and the revisions replaced. -/
theorem octets_rewritten (s : Snapshot) (scopes : List GuardScope) {mapping mapping' : Option Mapping}
    {before after : GuardScope → Nat}
    (hmapping : (Jsonb.optional rows.mappingJson mapping').octets ≤ (Jsonb.optional rows.mappingJson mapping).octets + 62)
    (hafter : ∀ scope ∈ scopes, after scope ≤ before scope + 99) :
    rows.octets { s with mapping := mapping', revisions := scopes.map fun scope => (scope, after scope) } ≤
      rows.octets { s with mapping := mapping, revisions := scopes.map fun scope => (scope, before scope) } + 62 +
        2 * scopes.length := by
  have hrevisions := Jsonb.octets_arr_le (l := scopes) (f := fun scope => revisionJson (scope, before scope))
    (g := fun scope => revisionJson (scope, after scope)) fun scope hscope => octets_revision_le (hafter scope hscope)
  unfold octets encode
  rw [Jsonb.octets_obj, Jsonb.octets_obj]
  simp only [List.map_cons, List.map_nil, List.sum_cons, List.sum_nil, List.length_cons, List.map_map, Function.comp_def]
  omega

end RowText

end Prosepect

/-
Attachments under any interleaving of uploads, deletions of files and deletions of the account,
each of which may fail or be cut off after any operation.

As long as bytes are stored for rows that nothing else is deleting, every object has a row; where
an absent key cannot be deleted, a row without bytes must be owed by something under way.
-/
import Prosepect.Content.AttachmentSteps

namespace Prosepect

open Resumption

namespace Attachments

variable {user : Uuid} {absent : Except AppError Unit} {w w' : World}

/-! ## Runs -/

/-- The invariant of a pool. -/
structure Inv (user : Uuid) (strict : Prop) (c : FilePool) : Prop where
  sound : Sound user c.world
  doing : ∀ i t, c.threads i = some t → Doing user c.world t.request t.rest
  /-- The key an upload is about to insert is no other operation's. -/
  apart : ∀ i j t u key, i ≠ j → c.threads i = some t → c.threads j = some u → creates? t.rest = some key →
    names? u.request u.rest ≠ some key
  owed : strict → ∀ f ∈ c.world.rows, f.objectKey ∉ c.world.objects →
    ∃ i t, c.threads i = some t ∧ Owes t.request t.rest f
  gone : ∀ confirmation, (.deleteAccount confirmation, .ok ()) ∈ c.answers → c.world.workspace = none

section Inv

variable {strict : Prop} {c d : FilePool}

theorem inv_initial (ws : Workspace) (h : ws.files = []) : Inv user strict (initial ws) := by
  have hrows : (initial ws).world.rows = [] := h
  refine ⟨⟨?_, ?_, ?_, fun _ h => (nomatch h), ?_⟩, fun _ _ h => (nomatch h), fun _ _ _ _ _ _ h => (nomatch h), fun _ => ?_,
    fun _ h => (nomatch h)⟩ <;> rw [hrows]
  · exact fun _ h => nomatch h
  · exact List.nodup_nil
  · exact List.nodup_nil
  · exact fun _ h => nomatch h
  · exact fun _ h => nomatch h

/-- What names a key has drawn its identifier. -/
theorem Doing.names_drawn {q : Request} {p : FileProg Unit} (h : Doing user w q p) {key : String}
    (hn : names? q p = some key) : ∃ id ∈ w.drawn, key = objectKey user id := by
  cases h with
  | creating hid => exact ⟨_, hid, (Option.some.inj hn).symm⟩
  | storing hid => exact ⟨_, hid, (Option.some.inj hn).symm⟩
  | removing hid => exact ⟨_, hid, (Option.some.inj hn).symm⟩
  | @asking confirmation =>
    by_cases hc : confirmation = "DELETE"
    · subst hc
      rw [deleteAccount_eq] at hn
      cases hn
    · unfold deleteAccount at hn
      rw [if_pos hc] at hn
      cases hn
  | @clearing confirmation keys => cases keys <;> cases hn
  | done => exact absurd hn (names_ret _ _)
  | failed => exact absurd hn (names_fail _ _ _)
  | releasing => cases hn
  | reading => cases hn
  | forgetting => cases hn
  | revoking => cases hn
  | listing => cases hn

theorem Doing.creates_new {q : Request} {p : FileProg Unit} (h : Doing user w q p) {key : String}
    (hc : creates? p = some key) : names? q p = some key ∧ ∀ f ∈ w.rows, f.objectKey ≠ key := by
  cases h with
  | @creating r id hid hrows => exact ⟨hc, Option.some.inj hc ▸ hrows⟩
  | @asking confirmation =>
    by_cases h : confirmation = "DELETE"
    · subst h
      rw [deleteAccount_eq] at hc
      cases hc
    · unfold deleteAccount at hc
      rw [if_pos h] at hc
      cases hc
  | @clearing confirmation keys => cases keys <;> cases hc
  | storing => cases hc
  | releasing => cases hc
  | reading => cases hc
  | removing => cases hc
  | forgetting => cases hc
  | revoking => cases hc
  | listing => cases hc
  | done => cases hc
  | failed => cases hc

/-- With a deletion of the account that has returned, the user is gone. -/
theorem Doing.done_gone {confirmation : String} {p : FileProg Unit} (h : Doing user w (.deleteAccount confirmation) p)
    (hp : p = .ret ()) : w.workspace = none := by
  cases h with
  | asking =>
    by_cases hc : confirmation = "DELETE"
    · subst hc
      rw [deleteAccount_eq] at hp
      cases hp
    · unfold deleteAccount at hp
      rw [if_pos hc] at hp
      cases hp
  | revoking => cases hp
  | listing => cases hp
  | @clearing _ keys => cases keys <;> cases hp
  | done h => exact h confirmation rfl
  | failed => cases hp

/-- A place is vacated: what it alone owed is not left. -/
theorem Inv.vacate (h : Inv user strict c) {i : Nat} {t : Thread FileSig AppError Request} (ht : c.threads i = some t)
    (hleft : strict → ∀ f ∈ c.world.rows, f.objectKey ∉ c.world.objects → Owes t.request t.rest f → OwedElsewhere c i f) :
    Inv user strict (c.put i none c.world) where
  sound := h.sound
  doing j u hu := by
    rcases Pool.put_eq_some hu with ⟨-, hn⟩ | ⟨-, hu⟩
    · cases hn
    · exact h.doing j u hu
  apart j k u v key hne hu hv := by
    rcases Pool.put_eq_some hu with ⟨-, hn⟩ | ⟨-, hu⟩
    · cases hn
    · rcases Pool.put_eq_some hv with ⟨-, hn⟩ | ⟨-, hv⟩
      · cases hn
      · exact h.apart j k u v key hne hu hv
  owed hstrict f hf hno := by
    obtain ⟨j, u, hu, howes⟩ := h.owed hstrict f hf hno
    have helse : OwedElsewhere c i f := by
      by_cases hj : j = i
      · subst hj
        cases hu.symm.trans ht
        exact hleft hstrict f hf hno howes
      · exact ⟨j, u, hj, hu, howes⟩
    obtain ⟨k, v, hk, hv, howes⟩ := helse
    exact ⟨k, v, by rw [Pool.put_other c none c.world hk]; exact hv, howes⟩
  gone := h.gone

/-- What has returned or failed owes nothing. -/
theorem owes_done {q : Request} {f : FileRecord} : ¬ Owes q (.ret ()) f := by
  cases q <;> exact id

theorem owes_failed {q : Request} {e : AppError} {f : FileRecord} : ¬ Owes q (.fail e) f := by
  cases q <;> exact id

theorem Inv.start (h : Inv user strict c) {i : Nat} {q : Request} {p : FileProg Unit} {w' : World}
    (hi : c.threads i = none) (hstart : Start user q c.world p w') : Inv user strict (c.put i (some ⟨q, p⟩) w') := by
  -- what is there stays as it is, and a drawn identifier is nobody's
  have hworld : w'.workspace = c.world.workspace ∧ w'.objects = c.world.objects ∧ ∀ id ∈ c.world.drawn, id ∈ w'.drawn := by
    cases hstart with
    | uploadFile h => exact ⟨rfl, rfl, fun _ h => List.mem_cons_of_mem _ h⟩
    | deleteFile => exact ⟨rfl, rfl, fun _ h => h⟩
    | deleteAccount => exact ⟨rfl, rfl, fun _ h => h⟩
  obtain ⟨hws, hobjects, hdrawn⟩ := hworld
  have hrows : w'.rows = c.world.rows := by
    unfold World.rows
    rw [hws]
  have hknown : ∀ f, c.world.Known f → w'.Known f := fun f h ws hw => h ws (hws ▸ hw)
  have hnew : Doing user w' q p ∧ ∀ key, (creates? p = some key ∨ names? q p = some key) →
      ∃ id ∉ c.world.drawn, key = objectKey user id := by
    cases hstart with
    | @uploadFile r w id hid =>
      refine ⟨.creating List.mem_cons_self (fun f hf hk => ?_) fun hk => ?_, fun key hk => ⟨id, hid, ?_⟩⟩
      · obtain ⟨id', hid', hk'⟩ := h.sound.drawn f hf
        exact hid (objectKey_inj (hk.symm.trans hk') ▸ hid')
      · obtain ⟨f, hf, hk'⟩ := h.sound.backed _ hk
        obtain ⟨id', hid', hk''⟩ := h.sound.drawn f hf
        exact hid (objectKey_inj (hk'.symm.trans hk'') ▸ hid')
      · exact hk.elim (fun h => (Option.some.inj h).symm) fun h => (Option.some.inj h).symm
    | deleteFile => exact ⟨.reading, fun key hk => hk.elim (fun h => nomatch h) fun h => nomatch h⟩
    | @deleteAccount confirmation w =>
      have hasking : Doing user c.world (.deleteAccount confirmation) (deleteAccount confirmation) := .asking
      refine ⟨.asking, fun key hk => ?_⟩
      by_cases hc : confirmation = "DELETE"
      · subst hc
        rw [deleteAccount_eq] at hk
        exact hk.elim (fun h => nomatch h) fun h => nomatch h
      · unfold deleteAccount at hk
        rw [if_pos hc] at hk
        exact hk.elim (fun h => nomatch h) fun h => nomatch h
  have hbeside : ∀ u s, Beside c.world w' u s := fun u s =>
    ⟨fun h => hws.trans h, hdrawn, hknown, fun f hf => .inl (hrows ▸ hf), fun key hk => .inl (hobjects ▸ hk)⟩
  constructor
  · refine ⟨?_, hrows ▸ h.sound.ids, hrows ▸ h.sound.keys, ?_, ?_⟩
    · show ∀ f ∈ w'.rows, w'.Known f.id
      rw [hrows]
      exact fun f hf => hknown _ (h.sound.known f hf)
    · show ∀ key ∈ w'.objects, ∃ f ∈ w'.rows, f.objectKey = key
      rw [hrows, hobjects]
      exact h.sound.backed
    · show ∀ f ∈ w'.rows, ∃ id ∈ w'.drawn, f.objectKey = objectKey user id
      rw [hrows]
      intro f hf
      obtain ⟨id, hid, hk⟩ := h.sound.drawn f hf
      exact ⟨id, hdrawn id hid, hk⟩
  · intro j u hu
    rcases Pool.put_eq_some hu with ⟨-, hn⟩ | ⟨-, hu⟩
    · cases hn
      exact hnew.1
    · exact (h.doing j u hu).beside (hbeside _ _)
  · intro j k u v key hne hu hv hc hn
    rcases Pool.put_eq_some hu with ⟨rfl, hsome⟩ | ⟨-, hu⟩
    · cases hsome
      rcases Pool.put_eq_some hv with ⟨rfl, -⟩ | ⟨-, hv⟩
      · exact hne rfl
      · obtain ⟨id, hid, hk⟩ := hnew.2 key (.inl hc)
        obtain ⟨id', hid', hk'⟩ := (h.doing k v hv).names_drawn hn
        exact hid (objectKey_inj (hk.symm.trans hk') ▸ hid')
    · have hj := h.doing j u hu
      rcases Pool.put_eq_some hv with ⟨-, hsome⟩ | ⟨-, hv⟩
      · cases hsome
        obtain ⟨id, hid, hk⟩ := hnew.2 key (.inr hn)
        obtain ⟨id', hid', hk'⟩ := hj.names_drawn (hj.creates_new hc).1
        exact hid (objectKey_inj (hk.symm.trans hk') ▸ hid')
      · exact h.apart j k u v key hne hu hv hc hn
  · show strict → ∀ f ∈ w'.rows, f.objectKey ∉ w'.objects → _
    rw [hrows, hobjects]
    intro hstrict f hf hno
    obtain ⟨j, u, hu, howes⟩ := h.owed hstrict f hf hno
    have hj : j ≠ i := by
      rintro rfl
      rw [hi] at hu
      cases hu
    exact ⟨j, u, by rw [Pool.put_other c _ _ hj]; exact hu, howes⟩
  · exact fun confirmation hmem => hws.trans (h.gone confirmation hmem)

theorem Inv.act (h : Inv user strict c) {i : Nat} {q : Request} {o : Op} {k : FileSig.Res o → FileProg Unit}
    {a : FileSig.Res o} {w' : World} (hi : c.threads i = some ⟨q, .op o k⟩) (hstep : Step absent o c.world a w')
    (htimely : Timely (.act i o a) c) (hsettled : strict → Settled (.act i o a) c) :
    Inv user strict (c.put i (some ⟨q, k a⟩) w') := by
  have hacted : Acted user strict (OwedElsewhere c i) c.world w' q (.op o k) (k a) := by
    refine acted h.sound (h.doing i _ hi) rfl hstep ?_ ?_
    · rintro key rfl ⟨x, rfl⟩
      exact htimely i key rfl
    · rintro hstrict x y rfl hfail
      exact hsettled hstrict i _ (.inr ⟨q, o, k, x, y, rfl, hi, hfail⟩) hi
  have hbeside : ∀ j u, j ≠ i → c.threads j = some u → Beside c.world w' u.request u.rest := by
    intro j u hj hu
    exact hacted.beside _ _ (fun f _ ho => ⟨j, u, hj, hu, ho⟩) fun key hc => h.apart i j _ u key hj.symm hi hu hc
  constructor
  · exact hacted.sound
  · intro j u hu
    rcases Pool.put_eq_some hu with ⟨-, hn⟩ | ⟨hj, hu⟩
    · cases hn
      exact hacted.doing
    · exact (h.doing j u hu).beside (hbeside j u hj hu)
  · intro j l u v key hne hu hv hc hn
    rcases Pool.put_eq_some hu with ⟨-, hsome⟩ | ⟨hj, hu⟩
    · cases hsome
      rw [hacted.creates] at hc
      cases hc
    · rcases Pool.put_eq_some hv with ⟨-, hsome⟩ | ⟨-, hv⟩
      · cases hsome
        rcases hacted.names key hn with hn | ⟨f, hf, hk⟩
        · exact h.apart j i u _ key hj hu hi hc hn
        · exact ((h.doing j u hu).creates_new hc).2 f hf hk
      · exact h.apart j l u v key hne hu hv hc hn
  · intro hstrict f hf hno
    rcases hacted.owed hstrict f hf hno with howes | ⟨hf, hno, helse⟩
    · exact ⟨i, _, Pool.put_same c i _ w', howes⟩
    · obtain ⟨j, u, hu, howes⟩ := h.owed hstrict f hf hno
      have hother : OwedElsewhere c i f := by
        by_cases hj : j = i
        · subst hj
          cases hu.symm.trans hi
          exact helse howes
        · exact ⟨j, u, hj, hu, howes⟩
      obtain ⟨l, v, hl, hv, howes⟩ := hother
      exact ⟨l, v, by rw [Pool.put_other c _ w' hl]; exact hv, howes⟩
  · exact fun confirmation hmem => step_gone hstep (h.gone confirmation hmem)

theorem Inv.next (h : Inv user strict c) {a : Pool.Event FileSig} (hn : Pool.Next (server user absent) c a d)
    (htimely : Timely a c) (hsettled : strict → Settled a c) : Inv user strict d := by
  cases hn with
  | start hi hstart => exact h.start hi hstart
  | act hi hstep => exact h.act hi hstep htimely hsettled
  | @done i q hi =>
    obtain ⟨hs, hdoing, hapart, howed, hgone⟩ := h.vacate hi fun _ f _ _ ho => absurd ho owes_done
    refine ⟨hs, hdoing, hapart, howed, fun confirmation hmem => ?_⟩
    rcases List.mem_cons.1 hmem with heq | hmem
    · cases heq
      exact (h.doing i _ hi).done_gone rfl
    · exact hgone confirmation hmem
  | @failed i q e hi =>
    obtain ⟨hs, hdoing, hapart, howed, hgone⟩ := h.vacate hi fun _ f _ _ ho => absurd ho owes_failed
    refine ⟨hs, hdoing, hapart, howed, fun confirmation hmem => ?_⟩
    rcases List.mem_cons.1 hmem with heq | hmem
    · cases heq
    · exact hgone confirmation hmem
  | @cut i t hi => exact h.vacate hi fun hstrict f hf hno ho => hsettled hstrict i t (.inl rfl) hi f hf hno ho

end Inv

/-! ## Once the services work again -/

section Again

variable {others : Int}

theorem delete_works (others : Int) {key : String} (h : key ∈ w.objects ∨ absent = .ok ()) : ∃ w', exec absent others (.delete key) w = (.ok (), w') ∧
    w'.workspace = w.workspace ∧ ∀ k ∈ w.objects, k ≠ key → k ∈ w'.objects := by
  obtain ⟨a, w', hexec⟩ : ∃ a w', exec absent others (.delete key) w = (a, w') := ⟨_, _, rfl⟩
  rcases delete_object hexec with ⟨-, rfl, rfl⟩ | ⟨hno, ha, rfl⟩
  · exact ⟨_, hexec, rfl, fun k hk hne => List.mem_filter.2 ⟨hk, by simpa using hne⟩⟩
  · rw [ha.trans (h.resolve_left hno)] at hexec
    exact ⟨_, hexec, rfl, fun k hk _ => hk⟩

theorem fileDownload_works (hs : Sound user w) {f : FileRecord} (hf : f ∈ w.rows) : fileDownload f.id w = .ok (f, f.objectKey) := by
  have hfound : w.rows.find? (·.id == f.id) = some f := by
    cases h : w.rows.find? (·.id == f.id) with
    | none => simpa using List.find?_eq_none.1 h f hf
    | some g =>
      have hid : g.id = f.id := by simpa using List.find?_some h
      rw [unique_row hs (List.mem_of_find?_eq_some h) hf hid]
  unfold fileDownload
  rw [hfound]

theorem forget_works {f : FileRecord} (hf : f ∈ w.rows) : ((forget f.id).run (exec absent others) w).1 = .ok () := by
  cases hw : w.workspace with
  | none =>
    unfold World.rows at hf
    rw [hw] at hf
    cases hf
  | some ws =>
    have hmem : f ∈ ws.files := by
      unfold World.rows at hf
      rw [hw] at hf
      exact hf
    rw [forget_eq, Prog.run_op]
    obtain ⟨a, w', hexec⟩ : ∃ a w', exec absent others (.deleteFileMetadata f.id) w = (a, w') := ⟨_, _, rfl⟩
    rw [hexec]
    cases a with
    | ok key => rfl
    | error e => exact absurd rfl (deleteFileMetadata_error ((onWorkspace_error hexec).2 ws hw) f hmem)

theorem deleteFile_works (hs : Sound user w) {f : FileRecord} (hf : f ∈ w.rows) (hobject : f.objectKey ∈ w.objects ∨ absent = .ok ()) :
    ((deleteFile f.id).run (exec absent others) w).1 = .ok () := by
  have hread : exec absent others (.fileDownload f.id) w = (.ok (f, f.objectKey), w) :=
    congrArg (fun x => (x, w)) (fileDownload_works hs hf)
  obtain ⟨w', hdelete, hws, -⟩ := delete_works others hobject
  have hf' : f ∈ w'.rows := by
    unfold World.rows at hf ⊢
    rw [hws]
    exact hf
  rw [deleteFile_eq, Prog.run_op, hread]
  show ((remove f.objectKey f.id).run (exec absent others) w).1 = .ok ()
  rw [remove_eq, Prog.run_op, hdelete]
  exact forget_works hf'

theorem clear_works : ∀ {keys : List String} {w : World}, keys.Nodup → w.workspace.isSome →
    (∀ key ∈ keys, key ∈ w.objects ∨ absent = .ok ()) → ((clear keys).run (exec absent others) w).1 = .ok ()
  | [], w, _, hws, _ => by
    rw [clear_nil_eq, Prog.run_op]
    obtain ⟨ws, hw⟩ := Option.isSome_iff_exists.1 hws
    have hexec : exec absent others .deleteAccount w = (.ok (), { w with workspace := none }) := by simp only [exec, hw]
    rw [hexec]
    rfl
  | key :: keys, w, hkeys, hws, hobjects => by
    obtain ⟨hnot, hkeys⟩ := List.nodup_cons.1 hkeys
    obtain ⟨w', hdelete, hsame, hleft⟩ := delete_works others (hobjects key List.mem_cons_self)
    rw [clear_cons_eq, Prog.run_op, hdelete]
    refine clear_works hkeys (by rw [hsame]; exact hws) fun k hk => ?_
    have hne : k ≠ key := fun h => hnot (h ▸ hk)
    exact (hobjects k (List.mem_cons_of_mem _ hk)).imp (fun h => hleft k h hne) id

theorem deleteAccount_works (hs : Sound user w) (hws : w.workspace.isSome)
    (hobjects : ∀ f ∈ w.rows, f.objectKey ∈ w.objects ∨ absent = .ok ()) :
    ((deleteAccount "DELETE").run (exec absent others) w).1 = .ok () := by
  have hclear : (clearAll.run (exec absent others) w).1 = .ok () := by
    rw [clearAll_eq, Prog.run_op]
    refine clear_works hs.keys hws fun key hk => ?_
    obtain ⟨f, hf, rfl⟩ := List.mem_map.1 hk
    exact hobjects f hf
  rw [deleteAccount_eq, Prog.run_op]
  by_cases hgoogle : (w.workspace.bind (·.account)).isSome
  · have hexec : exec absent others .googleCredentials w = (.ok (), w) := congrArg (fun x => (x, w)) (if_pos hgoogle)
    rw [hexec]
    show (revokeFirst.run (exec absent others) w).1 = .ok ()
    rw [revokeFirst_eq]
    exact hclear
  · have hexec : exec absent others .googleCredentials w = (.error (.notConfigured "Google Calendar integration"), w) :=
      congrArg (fun x => (x, w)) (if_neg hgoogle)
    rw [hexec]
    exact hclear

end Again

/-- The two stores are consistent after every run in which bytes are stored for rows that nothing
else is deleting, and in which, where an absent key cannot be deleted, no operation ends between
its writes to the two stores. -/
theorem consistent {ws : Workspace} (hfiles : ws.files = []) {c : FilePool}
    (hrun : Pool.Reach (server user absent) (fun a c => Timely a c ∧ (absent ≠ .ok () → Settled a c)) (initial ws) c) :
    Consistent absent c := by
  have h : Inv user (absent ≠ .ok ()) c :=
    hrun.inv (fun c a d h hg hn => h.next hn hg.1 hg.2) (inv_initial ws hfiles)
  have hobject : ∀ f ∈ c.world.rows, (∀ i t, c.threads i = some t → ¬ Owes t.request t.rest f) →
      f.objectKey ∈ c.world.objects ∨ absent = .ok () := by
    intro f hf hfree
    by_contra hn
    obtain ⟨hno, hstrict⟩ := not_or.1 hn
    obtain ⟨i, t, ht, howes⟩ := h.owed hstrict f hf hno
    exact hfree i t ht howes
  refine ⟨fun confirmation hmem => ?_, fun others f hf hfree => ?_, fun others hws hfree => ?_⟩
  · refine List.eq_nil_iff_forall_not_mem.2 fun key hk => ?_
    obtain ⟨f, hf, -⟩ := h.sound.backed key hk
    unfold World.rows at hf
    rw [h.gone confirmation hmem] at hf
    cases hf
  · exact deleteFile_works h.sound hf (hobject f hf hfree)
  · exact deleteAccount_works h.sound hws fun f hf => hobject f hf (hfree f hf)

/-! ## An upload that is overtaken, and one that is cut off -/

def emptyWorkspace : Workspace where
  db := ⟨0, 0, none, "UTC", [], [], [], [], [], [], [], [], [], []⟩
  projects := []
  labels := []
  notes := []
  files := []
  focus := []
  reviews := []
  automaticDailyReview := false
  moves := []
  snapshots := []
  revisions := fun _ => 0
  account := none

def plan : Store.FileRequest := ⟨none, none, none, none, "", "plan.txt", "text/plain", 1, 10, 10⟩

/-- The upload of a file at place 0, its row inserted. -/
def planUploading (absent : Except AppError Unit) : FilePool :=
  ((initial emptyWorkspace).put 0 (some ⟨.uploadFile plan, uploadFile 1 7 plan⟩) ⟨some emptyWorkspace, [], [7]⟩).play (exec absent 0) 0

theorem step_exec (absent : Except AppError Unit) (o : Op) (w : World) :
    Step absent o w (exec absent 0 o w).1 (exec absent 0 o w).2 := .inl ⟨0, rfl⟩

theorem reach_planUploading (absent : Except AppError Unit) :
    Pool.Reach (server 1 absent) (fun _ _ => True) (initial emptyWorkspace) (planUploading absent) := by
  have hupload : Start 1 (.uploadFile plan) (initial emptyWorkspace).world (uploadFile 1 7 plan) ⟨some emptyWorkspace, [], [7]⟩ :=
    .uploadFile List.not_mem_nil
  have hstart : Pool.Reach (server 1 absent) (fun _ _ => True) (initial emptyWorkspace) _ :=
    .tail .refl trivial (.start (i := 0) rfl hupload)
  exact hstart.play (step_exec absent) 0

def notFound : Except AppError Unit := .error (.notFound "object")

/-- Where an absent key may be deleted, an upload stores its bytes after the account is gone; where
it may not, a file whose upload was cut off cannot be deleted. -/
theorem not_consistent :
    (¬ ∀ ws c, ws.files = [] → Pool.Reach (server 1 (.ok ())) (fun _ _ => True) (initial ws) c → Consistent (.ok ()) c) ∧
      ¬ ∀ ws c, ws.files = [] → Pool.Reach (server 1 notFound) (fun _ _ => True) (initial ws) c → Consistent notFound c := by
  constructor
  · intro h
    have hdelete : Start 1 (.deleteAccount "DELETE") (planUploading (.ok ())).world (deleteAccount "DELETE")
        (planUploading (.ok ())).world := .deleteAccount
    have hstart : Pool.Reach (server 1 (.ok ())) (fun _ _ => True) (initial emptyWorkspace) _ :=
      .tail (reach_planUploading (.ok ())) trivial (.start (i := 1) rfl hdelete)
    -- the deletion runs to its end, and then the upload goes on
    have hovertaken := hstart.plays (step_exec (.ok ())) [1, 1, 1, 1, 1, 0]
    have hgone := (h _ _ rfl hovertaken).gone "DELETE" List.mem_cons_self
    exact absurd hgone (by decide +kernel)
  · intro h
    have hcut : Pool.Reach (server 1 notFound) (fun _ _ => True) (initial emptyWorkspace) _ :=
      .tail (reach_planUploading notFound) trivial (.cut (i := 0) rfl)
    have hfile := (h _ _ rfl hcut).file 0 _ List.mem_cons_self fun i t ht => ?_
    · cases hfile
    · rcases Pool.put_eq_some ht with ⟨-, hn⟩ | ⟨hi, ht⟩
      · cases hn
      · have hnone : (planUploading notFound).threads i = none :=
          (Pool.put_other _ _ _ hi).trans (Pool.put_other _ _ _ hi)
        rw [hnone] at ht
        cases ht

theorem timely_of_not_put {a : Pool.Event FileSig} {c : FilePool} (h : ∀ i key, a ≠ .act i (.put key) (.ok ())) : Timely a c :=
  fun i key ha => absurd ha (h i key)

theorem settled_of_ok {i : Nat} {o : Op} {r : FileSig.Res o} {c : FilePool} (h : r.isOk = true) : Settled (.act i o r) c := by
  intro j t hends
  rcases hends with hcut | ⟨q, o', k, x, y, hact, -⟩
  · cases hcut
  · cases hact
    cases h

/-- The upload starts. -/
def planStarted : FilePool :=
  (initial emptyWorkspace).put 0 (some ⟨.uploadFile plan, uploadFile 1 7 plan⟩) ⟨some emptyWorkspace, [], [7]⟩

def planStored : FilePool := (planUploading notFound).play (exec notFound 0) 0

/-- An upload that nothing disturbs. -/
theorem consistent_plan : planStored.world.objects = ["1-7"] ∧ Consistent notFound planStored := by
  have hstart : Pool.Next (server 1 notFound) (initial emptyWorkspace) (.start 0) planStarted :=
    .start rfl (Start.uploadFile List.not_mem_nil)
  have hthread : planStarted.threads 0 = some ⟨.uploadFile plan, uploadFile 1 7 plan⟩ := rfl
  rw [uploadFile_eq] at hthread
  have hcreate : Pool.Next (server 1 notFound) planStarted _ (planUploading notFound) :=
    Pool.next_play (step_exec notFound) hthread
  have hrest : (planUploading notFound).threads 0 = some ⟨.uploadFile plan, storeBytes (objectKey 1 7) 0⟩ := rfl
  rw [storeBytes_eq] at hrest
  have hput : Pool.Next (server 1 notFound) (planUploading notFound) _ planStored := Pool.next_play (step_exec notFound) hrest
  refine ⟨by decide +kernel, consistent rfl (.tail (.tail (.tail .refl ?_ hstart) ?_ hcreate) ?_ hput)⟩
  · refine ⟨timely_of_not_put fun i key h => (nomatch h), fun _ i t hends => ?_⟩
    rcases hends with h | ⟨q, o, k, x, y, h, -⟩
    · cases h
    · cases h
  · refine ⟨timely_of_not_put fun i key h => ?_, fun _ => settled_of_ok (by decide +kernel)⟩
    cases h
  · refine ⟨fun i key h => ?_, fun _ => settled_of_ok rfl⟩
    cases h
    refine ⟨_, List.mem_cons_self, by decide +kernel, ?_⟩
    rintro ⟨j, t, hj, ht, -⟩
    have hnone : (planUploading notFound).threads j = none := (Pool.put_other _ _ _ hj).trans (Pool.put_other _ _ _ hj)
    rw [hnone] at ht
    cases ht

end Attachments

end Prosepect

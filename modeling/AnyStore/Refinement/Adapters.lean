import AnyStore.Lib.Agreement
import AnyStore.Refinement.Solo
import AnyStore.Spec.Metadata
import AnyStore.Spec.Walks
import AnyStore.Spec.Writes

/-!
# The two adapters, side by side

The bodies of the object mutations in both adapters, run alone on the same rows.
`SameBody` compares them statement by statement. What differs is taken care of
once: the payload and the rows that one of the adapters has to convert, the check
of the expected revision, the reads that render the answer, the records that are
appended at once or one by one, and the first round of the walk of a recursive
delete.
-/

namespace AnyStore

open ReadCommitted
open Locked (Agree)

variable {rank : Row → Nat} {env : Env} {l l' : Rows} {a a' : Adapter} {α β : Type}

/-! ## Rules -/

/-- Run alone, the two bodies end alike; `Q` holds where they succeed. -/
abbrev SameBody (rank : Row → Nat) (env : Env) (p q : Store α) (Q : α → Rows → Prop) (l : Rows) :
    Prop :=
  Agree (solo liveNameUq rank env p) (solo liveNameUq rank env q) Q l

section Rules

variable {p q : Store α} {Q : α → Rows → Prop}

/-- One program after the other. -/
theorem SameBody.bind {f g : α → Store β} {R : β → Rows → Prop} (h : SameBody rank env p q Q l)
    (hf : ∀ a l', Q a l' → SameBody rank env (f a) (g a) R l') :
    SameBody rank env (p >>= f) (q >>= g) R l := by
  unfold SameBody
  rw [solo_bind, solo_bind]
  exact Agree.bind h hf

/-- A program that is done, -/
theorem same_return {a : α} (h : Q a l) : SameBody rank env (pure a) (pure a) Q l :=
  Locked.agree_ret h

/-- that checks, -/
theorem same_require {c : Prop} [Decidable c] {e : DomainError} {Q : Unit → Rows → Prop}
    (h : c → Q () l) :
    SameBody rank env (ReadCommitted.require c e) (ReadCommitted.require c e) Q l := by
  unfold SameBody
  rw [solo_require]
  exact Locked.agree_check e h

/-- that needs a value, -/
theorem same_orFail {e : DomainError} {x : Option α} (h : ∀ a, x = some a → Q a l) :
    SameBody rank env (Prog.orFail e x) (Prog.orFail e x) Q l := by
  unfold SameBody
  rw [solo_orFail]
  exact Locked.agree_orFail e h

/-- or a result, -/
theorem same_ofExcept {x : DomainResult α} (h : ∀ a, x = .ok a → Q a l) :
    SameBody rank env (Prog.ofExcept x) (Prog.ofExcept x) Q l := by
  unfold SameBody
  rw [solo_ofExcept]
  exact Locked.agree_ofExcept h

/-- that leaves out a branch, -/
theorem same_whenever {c : Prop} [Decidable c] {p q : Store Unit} {Q : Unit → Rows → Prop}
    (h : c → SameBody rank env p q Q l) (hnot : ¬ c → Q () l) :
    SameBody rank env (whenever c p) (whenever c q) Q l := by
  unfold whenever
  by_cases hc : c
  · rw [if_pos hc, if_pos hc]
    exact h hc
  · rw [if_neg hc, if_neg hc]
    exact same_return (hnot hc)

/-- A statement, carried out or refused in both. -/
theorem same_run {stmt : Stmt α} (h : ∀ a, stmt.run ⟨rank, fun _ => true⟩ l.db = .ok a →
      Q a.result { l with db := replay a.writes l.db }) :
    SameBody rank env (run stmt) (run stmt) Q l := by
  unfold SameBody run
  cases hrun : stmt.run ⟨rank, fun _ => true⟩ l.db with
  | error e =>
    refine ⟨.error (mapSqlx e), l, solo_query_error hrun, solo_query_error hrun, ?_⟩
    intro a ha
    cases ha
  | ok a =>
    have hquery := @solo_query_ok _ _ _ _ _ _ _ _ _ _ liveNameUq rank env mapSqlx stmt l a hrun
    by_cases hix : IndexOk liveNameUq (replay a.writes l.db) a.writes
    · rw [if_pos hix] at hquery
      refine ⟨_, _, hquery, hquery, ?_⟩
      rintro _ ⟨⟩
      exact h a hrun
    · rw [if_neg hix] at hquery
      refine ⟨_, _, hquery, hquery, ?_⟩
      intro _ ha
      cases ha

/-- Both read, and have read the same. -/
theorem same_reads {r : Except DomainError α} (hp : solo liveNameUq rank env p l = some (r, l))
    (hq : solo liveNameUq rank env q l = some (r, l)) (h : ∀ a, r = .ok a → Q a l) :
    SameBody rank env p q Q l := ⟨r, l, hp, hq, h⟩

end Rules

/-! ## Shared parts -/

section Shared

/-- The state is as it was. -/
abbrev Untouched (l : Rows) : α → Rows → Prop := fun _ l' => l' = l

/-- or only reads. -/
theorem same_select {f : Db → α} {Q : α → Rows → Prop} (h : Q (f l.db) l) :
    SameBody rank env (run (select f)) (run (select f)) Q l := by
  refine same_run ?_
  rintro _ ⟨⟩
  exact h

/-- A text is checked, and nothing else happens. -/
theorem same_requireText {text : String} :
    SameBody rank env (requireText text) (requireText text)
      (fun _ l' => l' = l ∧ isText text = true) l := by
  unfold requireText
  refine same_require ?_
  intro h
  exact ⟨rfl, h⟩

/-- A payload that `jsonb` takes. -/
theorem same_requirePayload {hasNul : Bool} (h : hasNul = false) :
    SameBody rank env (requirePayload a hasNul) (requirePayload a' hasNul) (Untouched l) l := by
  have hpass : ∀ a : Adapter, solo liveNameUq rank env (requirePayload a hasNul) l =
      some (.ok (), l) := by
    intro a
    rw [h]
    cases a <;> rfl
  exact same_reads (hpass a) (hpass a') fun _ _ => rfl

/-- The text of the row is read as the row. -/
def ObjectRow.ReadsBack (o : ObjectRow) : Prop := o.metadata.ReadsBack

/-- Such a row is read as it is. -/
theorem ObjectRow.ReadsBack.read {o : ObjectRow} (h : o.ReadsBack) :
    o.read columnRoom = some o := by
  unfold ObjectRow.read
  rw [show o.metadata.read columnRoom = some o.metadata from h]
  rfl

/-- Such a row is held as it is stored. -/
theorem ObjectRow.ReadsBack.held {o : ObjectRow} (h : o.ReadsBack) (a : Adapter) :
    a.held o = some o := by
  cases a with
  | sqlx => exact h.read
  | rpc => rfl

/-- A row that both adapters hold alike, or neither can parse. -/
theorem same_lockLiveObject {id : ObjectId}
    (hheld : ∀ o, Db.object l.db id = some o → a'.held o = a.held o) :
    SameBody rank env (lockLiveObject a id) (lockLiveObject a' id)
      (fun held l' => l' = l ∧ isText id = true ∧
        ∃ o, Db.live l.db id = some o ∧ a.held o = some held) l := by
  unfold lockLiveObject
  refine SameBody.bind same_requireText ?_
  rintro _ l ⟨rfl, hid⟩
  refine SameBody.bind (same_reads (body_selectObjectForUpdate id) (body_selectObjectForUpdate id)
    (Q := fun o l' => l' = l ∧ o = Db.object l.db id) ?_) ?_
  · rintro _ ⟨⟩
    exact ⟨rfl, rfl⟩
  rintro o l₁ ⟨rfl, rfl⟩
  refine SameBody.bind (same_orFail (Q := fun o l' => l' = l₁ ∧ Db.object l₁.db id = some o) ?_) ?_
  · intro o ho
    exact ⟨rfl, ho⟩
  rintro o l₂ ⟨rfl, ho⟩
  rw [hheld o ho]
  refine SameBody.bind (same_orFail (Q := fun held l' => l' = l₂ ∧ a.held o = some held) ?_) ?_
  · intro held hsome
    exact ⟨rfl, hsome⟩
  rintro held l₃ ⟨rfl, hsome⟩
  refine SameBody.bind (same_require (Q := fun _ l' => l' = l₃ ∧ held.deletedAt.isNone) ?_) ?_
  · intro hlive
    exact ⟨rfl, hlive⟩
  rintro _ _ ⟨rfl, hlive⟩
  have hdeleted : held.deletedAt = o.deletedAt := by rw [Adapter.held_eq hsome]
  rw [hdeleted] at hlive
  exact same_return ⟨rfl, hid, o, Option.filter_eq_some_iff.mpr ⟨ho, hlive⟩, hsome⟩

/-- The checks of a parent, -/
theorem same_requireLiveFolder {id : ObjectId} :
    SameBody rank env (requireLiveFolder id) (requireLiveFolder id) (Untouched l) l := by
  unfold requireLiveFolder
  refine SameBody.bind same_requireText ?_
  rintro _ l ⟨rfl, -⟩
  refine SameBody.bind (same_run (Q := Untouched l) ?_) ?_
  · rintro _ ⟨⟩
    rfl
  rintro kind l₁ rfl
  refine SameBody.bind (same_orFail (Q := Untouched l₁) fun _ _ => rfl) ?_
  rintro kind _ rfl
  exact same_require fun _ => rfl

/-- of the walk, -/
theorem same_requireOutside {id destination : ObjectId} :
    SameBody rank env (requireOutside id destination) (requireOutside id destination)
      (Untouched l) l := by
  unfold requireOutside
  refine SameBody.bind (same_select (Q := Untouched l) rfl) ?_
  rintro found _ rfl
  exact same_require fun _ => rfl

/-- of the root, -/
theorem same_checkRoot {cmd : PatchObjectCommit} :
    SameBody rank env (checkRoot cmd) (checkRoot cmd) (Untouched l) l := by
  unfold checkRoot
  refine SameBody.bind (same_require (Q := Untouched l) fun _ => rfl) ?_
  rintro _ l rfl
  exact same_require fun _ => rfl

/-- of a destination, -/
theorem same_checkDestination {current : ObjectRow} {id : ObjectId} {target : PatchTarget} :
    SameBody rank env (checkDestination current id target) (checkDestination current id target)
      (Untouched l) l := by
  unfold checkDestination
  refine SameBody.bind (same_orFail (Q := Untouched l) fun _ _ => rfl) ?_
  rintro destination l rfl
  refine SameBody.bind same_requireLiveFolder ?_
  rintro _ l rfl
  exact same_whenever (fun _ => same_requireOutside) fun _ => rfl

/-- and of it under the lock are the same. -/
theorem same_recheckDestination {id : ObjectId} {target : PatchTarget} :
    SameBody rank env (recheckDestination id target) (recheckDestination id target)
      (Untouched l) l := by
  unfold recheckDestination
  refine SameBody.bind (same_reads rfl rfl (Q := Untouched l) fun _ _ => rfl) ?_
  rintro _ l rfl
  cases target.parent with
  | none => exact same_return rfl
  | some destination => exact same_requireOutside

end Shared

/-! ## What differs -/

/-- The check of an expected revision that fits into a `bigint`. -/
theorem same_checkIfMatchIn {current : Revision} {ifMatch : Option Revision}
    (h : ∀ expected ∈ ifMatch, expected < 2 ^ 63) :
    SameBody rank env (checkIfMatchIn a current ifMatch) (checkIfMatchIn a' current ifMatch)
      (Untouched l) l := by
  have hcheck : ∀ a, solo liveNameUq rank env (checkIfMatchIn a current ifMatch) l =
      solo liveNameUq rank env (checkIfMatch current ifMatch) l := by
    intro a
    cases a with
    | sqlx => rfl
    | rpc =>
      unfold checkIfMatchIn
      exact body_require_bind h _ _
  have hself : SameBody rank env (checkIfMatch current ifMatch) (checkIfMatch current ifMatch)
      (Untouched l) l := same_require fun _ => rfl
  obtain ⟨r, l', hr, _, hq⟩ := hself
  exact ⟨r, l', (hcheck a).trans hr, (hcheck a').trans hr, hq⟩

section Views

variable {id : ObjectId} {o held : ObjectRow}

/-- What both adapters render of a live object. -/
def viewOf (db : Db) (id : ObjectId) (o : ObjectRow) : ObjectView := ⟨id, o, db.path id⟩

/-- The driver reads the row and its path, -/
theorem body_loadView (hid : isText id = true) (h : Db.live l.db id = some o)
    (hread : o.read columnRoom = some held) :
    solo liveNameUq rank env (loadView id) l = some (.ok (some (viewOf l.db id held)), l) := by
  have hobject : (Db.object l.db id).map (fun _ => Db.path l.db id) = some (Db.path l.db id) := by
    rw [(Db.live_eq_some.mp h).1]
    rfl
  unfold loadView requireText
  rw [body_require_bind hid, body_bind (body_reads rfl rfl)]
  simp only [h]
  rw [body_orFail_bind hread, body_bind (body_reads rfl rfl)]
  simp only [hobject]
  rfl

/-- which is the view of either adapter, -/
theorem body_renderedView {a : Adapter} {missing : DomainError} (hid : isText id = true)
    (h : Db.live l.db id = some o) (hheld : a.held o = some held) :
    solo liveNameUq rank env (renderedView a id missing) l = some (.ok (viewOf l.db id held), l) := by
  cases a with
  | sqlx =>
    show solo liveNameUq rank env (loadView id >>= fun v => Prog.orFail missing v) l = _
    rw [body_bind (body_loadView hid h hheld)]
    rfl
  | rpc =>
    obtain rfl := Option.some.inj hheld
    show solo liveNameUq rank env (run (select fun db => db.object id) >>= _) l = _
    rw [body_bind (body_reads rfl rfl), body_orFail_bind (Db.live_eq_some.mp h).1,
      body_bind (body_reads rfl rfl)]
    rfl

/-- and of an object that is left as it is. -/
theorem body_unchangedView {a : Adapter} (hid : isText id = true)
    (h : Db.live l.db id = some o) (hheld : a.held o = some held) :
    solo liveNameUq rank env (unchangedView a id held) l = some (.ok (viewOf l.db id held), l) := by
  cases a with
  | sqlx =>
    show solo liveNameUq rank env (loadView id >>= fun v => Prog.orFail .objectNotFound v) l = _
    rw [body_bind (body_loadView hid h hheld)]
    rfl
  | rpc =>
    show solo liveNameUq rank env (run (select fun db => db.path id) >>= _) l = _
    rw [body_bind (body_reads rfl rfl)]
    rfl

/-- The views are the same where the metadata is read back as it was stored, -/
theorem same_renderedView {missing : DomainError} (hid : isText id = true)
    (h : Db.live l.db id = some o) (hread : o.ReadsBack) :
    SameBody rank env (renderedView a id missing) (renderedView a' id missing) (Untouched l) l :=
  same_reads (body_renderedView hid h (hread.held a)) (body_renderedView hid h (hread.held a'))
    fun _ _ => rfl

/-- for an object that is left as it is, too. -/
theorem same_unchangedView (hid : isText id = true) (h : Db.live l.db id = some o)
    (hread : o.ReadsBack) :
    SameBody rank env (unchangedView a id o) (unchangedView a' id o) (Untouched l) l :=
  same_reads (body_unchangedView hid h (hread.held a)) (body_unchangedView hid h (hread.held a'))
    fun _ _ => rfl

end Views

section Changes

variable {ctx : MutationContext}

/-- The sequence has not been used beyond what it says. -/
def Fresh (l : Rows) : Prop := ∀ seq, l.seq < seq → Db.change l.db seq = none

/-- The records of Changes under the next sequence numbers. -/
def numbered (ctx : MutationContext) (seq : Nat) (pending : List PendingChange) :
    List (Nat × ChangeRecord) :=
  List.zipWith (fun p seq => (seq, p.record ctx seq)) pending (List.range' (seq + 1) pending.length)

/-- The first Change and the others. -/
theorem numbered_cons (p : PendingChange) (pending : List PendingChange) (seq : Nat) :
    numbered ctx seq (p :: pending) =
      (seq + 1, p.record ctx (seq + 1)) :: numbered ctx (seq + 1) pending := by
  unfold numbered
  rw [List.length_cons, List.range'_succ, List.zipWith_cons_cons]

/-- All the numbers are new. -/
theorem lt_of_mem_numbered {seq : Nat} {pending : List PendingChange} {r : Nat × ChangeRecord}
    (h : r ∈ numbered ctx seq pending) : seq < r.1 := by
  induction pending generalizing seq with
  | nil => cases h
  | cons p pending ih =>
    rw [numbered_cons, List.mem_cons] at h
    rcases h with rfl | h
    · exact Nat.lt_succ_self seq
    · exact Nat.lt_of_succ_lt (ih h)

/-- The rows after the records have been inserted. -/
def Rows.appended (l : Rows) (ctx : MutationContext) (pending : List PendingChange) : Rows :=
  { l with
    db := replay (changeWrites (numbered ctx l.seq pending)) l.db
    seq := l.seq + pending.length }

/-- A block of numbers is drawn. -/
theorem body_nextvals (n : Nat) :
    solo liveNameUq rank env (nextvals mapSqlx n : Store (List Nat)) l =
      some (.ok (List.range' (l.seq + 1) n), { l with seq := l.seq + n }) := by
  rw [solo_nextvals]
  rfl

/-- The Changes are appended. -/
theorem body_insertChanges {records : List (Nat × ChangeRecord)}
    (h : ∀ r ∈ records, Db.change l.db r.1 = none) :
    solo liveNameUq rank env (run (insertChanges records)) l =
      some (.ok (), { l with db := replay (changeWrites records) l.db }) := by
  have hfree : ¬ ∃ r ∈ records, (Db.change l.db r.1).isSome := by
    rintro ⟨r, hr, hsome⟩
    rw [h r hr] at hsome
    cases hsome
  have hrun : (insertChanges records).run ⟨rank, fun _ => true⟩ l.db =
      .ok { result := (), writes := changeWrites records } := if_neg hfree
  have hindex : IndexOk liveNameUq (replay (changeWrites records) l.db) (changeWrites records) :=
    indexOk_of_table ((onTable_changeWrites records).ne Table.noConfusion)
  unfold run
  rw [solo_query_ok hrun, if_pos hindex]

/-- One after the other they get the same numbers as in a block. -/
theorem body_appendOneByOne {pending : List PendingChange} (h : Fresh l) :
    solo liveNameUq rank env (appendOneByOne ctx pending) l =
      some (.ok ((numbered ctx l.seq pending).map Prod.snd), l.appended ctx pending) := by
  induction pending generalizing l with
  | nil => rfl
  | cons p pending ih =>
    -- the number is new, and so are those that come after it
    have hnew : ∀ r ∈ [(l.seq + 1, p.record ctx (l.seq + 1))], Db.change l.db r.1 = none := by
      intro r hr
      rw [List.mem_singleton.mp hr]
      exact h _ (Nat.lt_succ_self _)
    have hnext : Fresh { l with
        db := replay (changeWrites [(l.seq + 1, p.record ctx (l.seq + 1))]) l.db
        seq := l.seq + 1 } := by
      intro seq hseq
      have hne : Row.change seq ≠ .change (l.seq + 1) := fun he =>
        absurd (Row.change.inj he) (Nat.ne_of_gt hseq)
      exact (lookup_put_ne l.db (w := ⟨.change (l.seq + 1), some _⟩) hne).trans
        (h seq (Nat.lt_of_succ_lt hseq))
    refine (body_bind (body_nextvals 1) _).trans ?_
    refine (body_bind (@body_insertChanges rank env { l with seq := l.seq + 1 } _ hnew) _).trans ?_
    refine (body_bind (ih hnext) _).trans ?_
    unfold Rows.appended
    rw [numbered_cons, List.length_cons, Nat.add_comm pending.length 1, ← Nat.add_assoc]
    rfl

/-- Inserted together or one by one, the records are the same. -/
theorem body_appendChanges (a : Adapter) {pending : List PendingChange} (h : Fresh l) :
    solo liveNameUq rank env (appendChanges a ctx pending) l =
      some (.ok ((numbered ctx l.seq pending).map Prod.snd), l.appended ctx pending) := by
  unfold appendChanges
  by_cases hpending : pending = []
  · rw [if_pos hpending, hpending]
    rfl
  · rw [if_neg hpending]
    cases a with
    | sqlx =>
      have hnew : ∀ r ∈ numbered ctx l.seq pending, Db.change l.db r.1 = none := fun r hr =>
        h r.1 (lt_of_mem_numbered hr)
      refine (body_bind (body_nextvals pending.length) _).trans ?_
      exact body_bind (@body_insertChanges rank env
        { l with seq := l.seq + pending.length } _ hnew) _
    | rpc =>
      exact body_appendOneByOne h

/-- Records do not touch the objects. -/
theorem Rows.live_appended {pending : List PendingChange} (id : ObjectId) :
    Db.live (l.appended ctx pending).db id = Db.live l.db id := by
  have hrow : Db.object (l.appended ctx pending).db id = Db.object l.db id := by
    show (replay (changeWrites _) l.db).lookup (.object id) = _
    rw [lookup_replay, (onTable_changeWrites _).written Table.noConfusion]
    rfl
  unfold Db.live
  rw [hrow]

/-- **Feed.** Both adapters append the same Changes. -/
theorem same_appendChanges {pending : List PendingChange} (h : Fresh l) :
    SameBody rank env (appendChanges a ctx pending) (appendChanges a' ctx pending)
      (fun _ l' => ∀ id, Db.live l'.db id = Db.live l.db id) l := by
  refine ⟨_, _, body_appendChanges a h, body_appendChanges a' h, ?_⟩
  intro _ _ id
  exact Rows.live_appended id

end Changes

/-! ## Frames -/

section Frames

/-- Objects, Change records and the sequence are as they were. -/
structure Beside (l l' : Rows) : Prop where
  rows : ∀ r : Row, r.table = .objects ∨ r.table = .changes → l'.db.lookup r = l.db.lookup r
  seq : l'.seq = l.seq

/-- Nothing was written, -/
theorem Beside.refl (l : Rows) : Beside l l := ⟨fun _ _ => rfl, rfl⟩

/-- or once and once again. -/
theorem Beside.trans {l₁ : Rows} (h : Beside l l₁) (h' : Beside l₁ l') : Beside l l' where
  rows r hr := (h'.rows r hr).trans (h.rows r hr)
  seq := h'.seq.trans h.seq

/-- The numbers to come are still unused, -/
theorem Beside.fresh (h : Beside l l') (hfresh : Fresh l) : Fresh l' := by
  intro seq hseq
  rw [h.seq] at hseq
  exact (h.rows (.change seq) (.inr rfl)).trans (hfresh seq hseq)

/-- and the objects are as they were. -/
theorem Beside.live (h : Beside l l') (id : ObjectId) : Db.live l'.db id = Db.live l.db id := by
  have hrow : Db.object l'.db id = Db.object l.db id := h.rows (.object id) (.inl rfl)
  unfold Db.live
  rw [hrow]

/-- Writes to another table. -/
theorem same_runBeside {stmt : Stmt α} {T : Table} (hobjects : T ≠ .objects)
    (hchanges : T ≠ .changes)
    (h : ∀ a, stmt.run ⟨rank, fun _ => true⟩ l.db = .ok a → OnTable T a.writes) :
    SameBody rank env (run stmt) (run stmt) (fun _ l' => Beside l l') l := by
  refine same_run ?_
  intro a ha
  refine ⟨fun r hr => ?_, rfl⟩
  have hne : r.table ≠ T := by
    rcases hr with hr | hr
    · exact hr ▸ hobjects.symm
    · exact hr ▸ hchanges.symm
  show (replay a.writes l.db).lookup r = _
  rw [lookup_replay, (h a ha).written hne]
  rfl

/-- A blob is queued, -/
theorem same_enqueueBlob {blob : Option (String × String)} {notBefore : Time} :
    SameBody rank env (enqueueBlob blob notBefore) (enqueueBlob blob notBefore)
      (fun _ l' => Beside l l') l := by
  unfold enqueueBlob
  cases blob with
  | none => exact same_return (.refl l)
  | some b =>
    refine @same_runBeside _ _ _ _ _ .gc Table.noConfusion Table.noConfusion ?_
    intro a ha w hw
    unfold enqueueBlobGc statement at ha
    cases hg : Db.gc l.db b.1 b.2 with
    | some g =>
      simp only [hg] at ha
      obtain rfl := Except.ok.inj ha
      cases hw
    | none =>
      simp only [hg] at ha
      obtain rfl := Except.ok.inj ha
      rw [List.mem_singleton.mp hw]
      rfl

/-- or several are, -/
theorem same_enqueueBlobs {notBefore : Time} (blobs : List (Option (String × String))) :
    SameBody rank env (enqueueBlobs notBefore blobs) (enqueueBlobs notBefore blobs)
      (fun _ l' => Beside l l') l := by
  induction blobs generalizing l with
  | nil => exact same_return (.refl l)
  | cons blob blobs ih =>
    refine SameBody.bind same_enqueueBlob ?_
    intro _ l₁ h₁
    exact ih.mono fun _ _ h => h₁.trans h

/-- an upload is completed, -/
theorem same_completeUpload {cmd : CommitContent} :
    SameBody rank env (run (completeUpload cmd)) (run (completeUpload cmd))
      (fun _ l' => Beside l l') l := by
  refine @same_runBeside _ _ _ _ _ .uploads Table.noConfusion Table.noConfusion ?_
  intro a ha w hw
  unfold completeUpload statement at ha
  cases hu : Db.upload l.db cmd.uploadId with
  | none =>
    simp only [hu] at ha
    obtain rfl := Except.ok.inj ha
    cases hw
  | some u =>
    simp only [hu] at ha
    by_cases hstate : u.state = .ready ∨ u.state = .completing
    · rw [if_pos hstate] at ha
      obtain rfl := Except.ok.inj ha
      rw [List.mem_singleton.mp hw]
      rfl
    · rw [if_neg hstate] at ha
      obtain rfl := Except.ok.inj ha
      cases hw

/-- an entry leaves the queue, -/
theorem same_dequeueBlobGc {label : Label} {backend blobRef : String} :
    SameBody rank env (run (dequeueBlobGc label backend blobRef))
      (run (dequeueBlobGc label backend blobRef)) (fun _ l' => Beside l l') l := by
  refine @same_runBeside _ _ _ _ _ .gc Table.noConfusion Table.noConfusion ?_
  intro a ha w hw
  unfold dequeueBlobGc statement at ha
  cases hg : Db.gc l.db backend blobRef with
  | none =>
    simp only [hg] at ha
    obtain rfl := Except.ok.inj ha
    cases hw
  | some g =>
    simp only [hg] at ha
    obtain rfl := Except.ok.inj ha
    rw [List.mem_singleton.mp hw]
    rfl

/-- Finalising touches the idempotency record alone. -/
theorem same_finalizeInTx {context : Option IdempotencyContext} {response : StoredResponse}
    {now expiresAt : Time} :
    SameBody rank env (finalizeInTx context response now expiresAt)
      (finalizeInTx context response now expiresAt) (fun _ l' => Beside l l') l := by
  unfold finalizeInTx
  cases context with
  | none => exact same_return (.refl l)
  | some ctx =>
    refine SameBody.bind (@same_runBeside _ _ _ _ _ .idempotency Table.noConfusion
      Table.noConfusion ?_) ?_
    · intro a ha w hw
      unfold finalize statement at ha
      cases hr : Db.idempotency l.db ctx.principalId ctx.operation ctx.key with
      | none =>
        simp only [hr] at ha
        obtain rfl := Except.ok.inj ha
        cases hw
      | some r =>
        simp only [hr] at ha
        by_cases hown : r.state = .inProgress ∧ r.ownerToken = some ctx.ownerToken
        · rw [if_pos hown] at ha
          obtain rfl := Except.ok.inj ha
          rw [List.mem_singleton.mp hw]
          rfl
        · rw [if_neg hown] at ha
          obtain rfl := Except.ok.inj ha
          cases hw
    · intro rows l' h
      exact same_require fun _ => h

/-- and the record is completed in the same way. -/
theorem same_finish {ctx : MutationContext} {outcome : MutationOutcome} :
    SameBody rank env (finish ctx outcome) (finish ctx outcome) (fun _ l' => Beside l l') l := by
  unfold finish
  refine SameBody.bind (same_ofExcept (Q := Untouched l) fun _ _ => rfl) ?_
  rintro response l rfl
  refine SameBody.bind same_finalizeInTx ?_
  intro _ l' h
  exact same_return h

/-- Objects have no sequence numbers. -/
theorem Fresh.replay_objects {ws : List Write} (h : Fresh l) (hws : OnTable .objects ws) :
    Fresh { l with db := replay ws l.db } := by
  intro seq hseq
  show (replay ws l.db).lookup (.change seq) = none
  rw [lookup_replay, hws.written Table.noConfusion]
  exact h seq hseq

/-- The row of a live object is rewritten, and the object stays live. -/
theorem same_updateLiveObject {id : ObjectId} {o : ObjectRow} {set : ObjectRow → ObjectRow}
    (h : Fresh l) (ho : Db.live l.db id = some o) (hset : (set o).deletedAt = none) :
    SameBody rank env (run (updateLiveObject id set)) (run (updateLiveObject id set))
      (fun _ l' => Fresh l' ∧ Db.live l'.db id = some (set o)) l := by
  refine same_run ?_
  intro a ha
  unfold updateLiveObject statement at ha
  simp only [ho] at ha
  obtain rfl := Except.ok.inj ha
  refine ⟨h.replay_objects ?_, Db.live_eq_some.mpr ⟨lookup_put_self l.db (.object id) (some (set o)), hset⟩⟩
  intro w hw
  rw [List.mem_singleton.mp hw]
  rfl

end Frames

/-! ## Calls -/

/-- Made alone on a store in state `s`, both calls end with one answer, and leave
the same rows. -/
def Alike (s : DbState) (p q : Store α) : Prop :=
  ∀ t rank env, ∃ r s₁ s₂ l, p.eval store t ⟨.ok, rank, env⟩ s = some (r, s₁) ∧ Alone s₁ l ∧
    q.eval store t ⟨.ok, rank, env⟩ s = some (r, s₂) ∧ Alone s₂ l

/-- **Transactions.** With the same body they are alike. -/
theorem alike_transaction {s : DbState} {label : Label} {p q : Store α} {Q : α → Rows → Prop}
    (hs : s.sessions = ∅) (h : ∀ rank env, SameBody rank env p q Q s.solo) :
    Alike s (ReadCommitted.transaction mapSqlx label p) (ReadCommitted.transaction mapSqlx label q)
    := by
  intro t rank env
  have halone : Alone s s.solo := ⟨hs, rfl⟩
  obtain ⟨r, l', hp, hq, _⟩ := h rank env
  obtain ⟨r', l, hcommit⟩ : ∃ r' l, Solo.commit (fun _ => some (r, l')) s.solo = some (r', l) := by
    cases r with
    | ok a => exact ⟨_, _, rfl⟩
    | error e => exact ⟨_, _, rfl⟩
  have hcommits : ∀ b : Store α, solo liveNameUq rank env b s.solo = some (r, l') →
      Solo.commit (solo liveNameUq rank env b) s.solo = some (r', l) := by
    intro b hb
    rw [← hcommit]
    unfold Solo.commit
    rw [hb]
  obtain ⟨s₁, hs₁, h₁⟩ := halone.transaction (hcommits p hp)
  obtain ⟨s₂, hs₂, h₂⟩ := halone.transaction (hcommits q hq)
  exact ⟨r', s₁, s₂, l, hs₁, h₁, hs₂, h₂⟩

end AnyStore

import AnyStore.Refinement.Adapters
import AnyStore.Refinement.System
import AnyStore.Spec.Documents
import AnyStore.Spec.Feed

/-!
# What a patch leaves, and the same patch again

A patch leaves every key with nothing, with the value it sets or with the value
from before, as a `jsonb` column writes it. While an object is as a patch left
it, the same patch changes nothing, provided that the values it sets are read
from a column as they went in; sqlx compares them number by number, and raises
the revision at every repeat where they are not.

## Results

* `patches_settle` — what the patches of a run leave, and what the same patches
  do again, committed or made alone.

## Assumptions

New objects get a JSON object for their metadata (`Label.Documented`), which the
application checks. sqlx does nothing with an object whose metadata it cannot
parse, so the results about it speak of what it holds of the object.
-/

namespace AnyStore

open ReadCommitted

variable {S : Setting} {c : System} {wal wal₁ : Journal} {s : DbState} {a : Adapter}
  {cmd : PatchObjectCommit} {o o' held : ObjectRow} {m n : Members}

/-- The object has the name, the place and the metadata that the patch asks for. -/
structure PatchObjectCommit.Settled (cmd : PatchObjectCommit) (o : ObjectRow) : Prop where
  name : ∀ name ∈ cmd.newName, o.name = name
  parent : ∀ p ∈ cmd.newParentId, o.parentId = some p
  removed : ∀ patch ∈ cmd.metadataPatch, ∀ key ∈ patch.remove, o.metadata.get? key = none
  set : ∀ patch ∈ cmd.metadataPatch, ∀ key x, key ∉ patch.remove →
    patch.set.asMap.get? key = some x → o.metadata.get? key = some x.written

/-- The values that the patch sets are read back from a column as they are,
number by number. A document has room for one container less inside of it. -/
def PatchObjectCommit.ComesBack (cmd : PatchObjectCommit) : Prop :=
  ∀ patch ∈ cmd.metadataPatch, ∀ key x, key ∉ patch.remove →
    patch.set.asMap.get? key = some x →
      (x.written.read (columnRoom - 1)).map (·.normalize false) = some (x.normalize false)

/-! ## What is held of a settled object -/

/-- What an adapter holds under a key: sqlx has parsed it. -/
theorem Adapter.held_get? (hheld : a.held o = some held) (hm : o.metadata = .obj m)
    (hn : held.metadata = .obj n) (key : String) :
    n.get? key = match a with
      | .sqlx => (m.get? key).bind (·.read (columnRoom - 1))
      | .rpc => m.get? key := by
  cases a with
  | sqlx =>
    obtain ⟨metadata, hread, rfl⟩ := Option.map_eq_some_iff.mp hheld
    rw [hm] at hread
    obtain ⟨n', hn', heq⟩ := Option.map_eq_some_iff.mp hread
    obtain rfl := Json.obj.inj (heq.trans hn)
    exact Members.get?_read hn'
  | rpc =>
    obtain rfl := Option.some.inj hheld
    rw [Json.obj.inj (hm.symm.trans hn)]

/-- On a settled object the patch makes another document only if sqlx reads a
value other than it was set. -/
theorem settled_document (hheld : a.held o = some held) (hm : o.metadata = .obj m)
    (hn : held.metadata = .obj n) (h : cmd.Settled o) {patch : MetadataPatch}
    (hpatch : patch ∈ cmd.metadataPatch) :
    a.metadataEqual (.obj ((a.sent patch).applied n)) (.obj n) = true ↔
      a = .rpc ∨ ∀ key x, key ∉ patch.remove → patch.set.asMap.get? key = some x →
        (x.written.read (columnRoom - 1)).map (·.normalize false) = some (x.normalize false) := by
  have hget : ∀ key, o.metadata.get? key = m.get? key := fun key => by
    rw [hm]
    rfl
  have hremoved : ∀ key ∈ patch.remove, n.get? key = none := by
    intro key hkey
    have hnone := h.removed patch hpatch key hkey
    rw [hget] at hnone
    rw [Adapter.held_get? hheld hm hn, hnone]
    cases a <;> rfl
  have hset : ∀ key x, key ∉ patch.remove → patch.set.asMap.get? key = some x →
      m.get? key = some x.written := by
    intro key x hkept hx
    rw [← hget]
    exact h.set patch hpatch key x hkept hx
  cases a with
  | sqlx =>
    refine decide_eq_true_iff.trans ((MetadataPatch.applied_eq_iff false hremoved).trans ?_)
    have hkey : ∀ key x, key ∉ patch.remove → patch.set.asMap.get? key = some x →
        n.get? key = x.written.read (columnRoom - 1) := by
      intro key x hkept hx
      have hread := Adapter.held_get? hheld hm hn key
      rwa [hset key x hkept hx] at hread
    constructor
    · intro hholds
      right
      intro key x hkept hx
      rw [← hkey key x hkept hx]
      exact hholds key x hkept hx
    · rintro (hrpc | hback)
      · cases hrpc
      · intro key x hkept hx
        rw [hkey key x hkept hx]
        exact hback key x hkept hx
  | rpc =>
    -- what is sent is what is there
    refine iff_of_true (decide_eq_true ?_) (.inl rfl)
    have hsent : ∀ key ∈ (Adapter.rpc.sent patch).remove, n.get? key = none := hremoved
    refine (MetadataPatch.applied_eq_iff true hsent).mpr ?_
    intro key y hkept hy
    obtain ⟨x, hx, rfl⟩ := Option.map_eq_some_iff.mp (Members.get?_asMap_written.symm.trans hy)
    have hsame : n.get? key = m.get? key := Adapter.held_get? hheld hm hn key
    rw [hsame, hset key x hkept hx]
    rfl

/-- Whether the adapter sees a change in metadata that are settled. -/
theorem settled_metadataChanged (hheld : a.held o = some held) (hm : o.metadata = .obj m)
    (hn : held.metadata = .obj n) (h : cmd.Settled o) {target : PatchTarget}
    (htarget : patchTarget a cmd held = .ok target) :
    target.metadataChanged a held = false ↔ a = .rpc ∨ cmd.ComesBack := by
  rw [patchTarget_obj a hn, Except.ok.injEq] at htarget
  subst htarget
  unfold PatchTarget.metadataChanged PatchObjectCommit.ComesBack
  rw [Bool.not_eq_false', hn]
  cases hpatch : cmd.metadataPatch with
  | none =>
    -- without a metadata patch there is nothing to compare
    have hsame : a.metadataEqual (.obj n) (.obj n) = true := by
      cases a with
      | sqlx => exact decide_eq_true rfl
      | rpc => exact decide_eq_true rfl
    exact iff_of_true hsame (.inr fun patch hnone => absurd hnone (Option.not_mem_none patch))
  | some patch =>
    refine (settled_document hheld hm hn h hpatch).trans (or_congr_right ?_)
    constructor
    · rintro hback _ ⟨⟩
      exact hback
    · intro hback
      exact hback patch rfl

/-- The same patch again: nothing to do, unless sqlx finds another number. -/
theorem settled_unchanged (hheld : a.held o = some held) (hm : o.metadata = .obj m)
    (hn : held.metadata = .obj n) (h : cmd.Settled o) {target : PatchTarget}
    (htarget : patchTarget a cmd held = .ok target) :
    target.unchanged a held = true ↔ a = .rpc ∨ cmd.ComesBack := by
  have heq := Adapter.held_eq hheld
  have hname : target.nameChanged held = false := by
    rw [patchTarget_obj a hn, Except.ok.injEq] at htarget
    subst htarget
    unfold PatchTarget.nameChanged
    refine decide_eq_false (not_not.mpr ?_)
    rw [heq]
    cases hname : cmd.newName with
    | none => rfl
    | some name => exact (h.name name hname).symm
  have hparent : target.parentChanged held = false := by
    rw [patchTarget_obj a hn, Except.ok.injEq] at htarget
    subst htarget
    unfold PatchTarget.parentChanged
    refine decide_eq_false (not_not.mpr ?_)
    rw [heq]
    cases hp : cmd.newParentId with
    | none => rfl
    | some p => exact (h.parent p hp).symm
  unfold PatchTarget.unchanged
  rw [hname, hparent, Bool.not_false, Bool.true_and, Bool.true_and, Bool.not_eq_true',
    settled_metadataChanged hheld hm hn h htarget]

/-! ## Rows -/

/-- What a patch leaves in its row. -/
theorem patched_lookup (hn : held.metadata = .obj n) {target : PatchTarget}
    (htarget : patchTarget a cmd held = .ok target) {patch : MetadataPatch}
    (hpatch : patch ∈ cmd.metadataPatch) (now : Time) (o : ObjectRow) (key : String) :
    (target.row now o).metadata.get? key =
      (patch.lookup (held.metadata.get? key) key).map Json.written := by
  rw [patchTarget_obj a hn, Except.ok.injEq, hpatch] at htarget
  subst htarget
  show ((a.sent patch).applied n).written.get? key = _
  rw [Members.get?_written, MetadataPatch.get?_applied, Adapter.lookup_sent, hn]
  rfl

/-- The row that a patch writes is as the patch asks. -/
theorem patched_settled (hn : held.metadata = .obj n) {target : PatchTarget}
    (htarget : patchTarget a cmd held = .ok target) (now : Time) (o : ObjectRow) :
    cmd.Settled (target.row now o) where
  name name hname := by
    rw [patchTarget_obj a hn, Except.ok.injEq, hname] at htarget
    subst htarget
    rfl
  parent p hp := by
    rw [patchTarget_obj a hn, Except.ok.injEq, hp] at htarget
    subst htarget
    rfl
  removed patch hpatch key hkey := by
    rw [patched_lookup hn htarget hpatch]
    unfold MetadataPatch.lookup
    rw [if_pos hkey]
    rfl
  set patch hpatch key x hkey hset := by
    rw [patched_lookup hn htarget hpatch]
    unfold MetadataPatch.lookup
    rw [if_neg hkey, hset]
    rfl

/-! ## Calls -/

/-- Made alone, the call ends with success only in a state of which `Q` holds. -/
def Leaves (s : DbState) (call : Store StoredResponse) (Q : StoredResponse → Rows → Prop) : Prop :=
  ∀ t rank env r s', call.eval store t ⟨.ok, rank, env⟩ s = some (.ok r, s') →
    ∃ l, Alone s' l ∧ Q r l

/-- A transaction leaves what its body leaves. -/
theorem leaves_transaction {label : Label} {b : Store StoredResponse}
    {Q : StoredResponse → Rows → Prop} (hs : s.sessions = ∅)
    (h : ∀ rank env, SameBody rank env b b Q s.solo) :
    Leaves s (ReadCommitted.transaction mapSqlx label b) Q := by
  intro t rank env r s' heval
  have halone : Alone s s.solo := ⟨hs, rfl⟩
  obtain ⟨r', l', hb, _, hq⟩ := h rank env
  -- the body alone decides what is committed
  have hcommit : ∃ r'' l, Solo.commit (solo liveNameUq rank env b) s.solo = some (r'', l) ∧
      r'' = r' ∧ ∀ a, r' = .ok a → l = l' := by
    unfold Solo.commit
    rw [hb]
    cases r' with
    | ok a => exact ⟨_, _, rfl, rfl, fun _ _ => rfl⟩
    | error e => exact ⟨_, _, rfl, rfl, fun _ he => by cases he⟩
  obtain ⟨_, l, hl, rfl, hsame⟩ := hcommit
  obtain ⟨s₁, hs₁, h₁⟩ := halone.transaction hl
  rw [heval] at hs₁
  obtain ⟨hr, rfl⟩ := Prod.mk.inj (Option.some.inj hs₁)
  have hok := hsame r hr.symm
  rw [hok] at h₁
  exact ⟨l', h₁, hq r hr.symm⟩

section Again

variable {rank : Row → Nat} {env : Env} {l : Rows}

/-- A check that holds does nothing. -/
theorem body_require {p : Prop} [Decidable p] (hp : p) (e : DomainError) :
    solo liveNameUq rank env (ReadCommitted.require p e : Store Unit) l = some (.ok (), l) := by
  unfold ReadCommitted.require
  rw [if_pos hp]
  rfl

/-- An unconditional write passes the check. -/
theorem body_checkIfMatchIn_none {current : Revision} :
    solo liveNameUq rank env (checkIfMatchIn a current none) l = some (.ok (), l) := by
  have hcheck : solo liveNameUq rank env (checkIfMatch current none) l = some (.ok (), l) := by
    refine body_require ?_ _
    intro expected hexpected
    cases hexpected
  cases a with
  | sqlx => exact hcheck
  | rpc =>
    unfold checkIfMatchIn
    refine (body_require_bind ?_ _ _).trans hcheck
    intro expected hexpected
    cases hexpected

/-- The root keeps its name and its place. -/
theorem body_checkRoot (h : cmd.id = rootId → cmd.newParentId = none ∧ cmd.newName = none) :
    solo liveNameUq rank env (checkRoot cmd) l = some (.ok (), l) := by
  unfold checkRoot
  rw [body_require_bind fun hid => (h hid).1]
  exact body_require (fun hid => (h hid).2) _

variable (hheld : a.held o = some held) (hm : o.metadata = .obj m) (hn : held.metadata = .obj n)
  (h : cmd.Settled o) (hs : s.sessions = ∅) (hlive : Db.live s.db cmd.id = some o)

include hheld hm hn h hs hlive in
/-- Where the values come back, a repeat is answered as a no-op and leaves the
store as it was. -/
theorem patch_again (hback : a = .rpc ∨ cmd.ComesBack) (hmatch : cmd.ifMatch = none)
    (hroot : cmd.id = rootId → cmd.newParentId = none ∧ cmd.newName = none)
    (htexts : cmd.hasNul = false) (hkey : cmd.ctx.idempotency = none) {response : StoredResponse}
    (hrender : cmd.ctx.render { object := some (viewOf s.db cmd.id held), changes := [], noOp := true }
      = .ok response) (t : Nat) (rank : Row → Nat) (env : Env) :
    ∃ s', (patchObject a cmd).eval store t ⟨.ok, rank, env⟩ s = some (.ok response, s') ∧
      Alone s' s.solo := by
  have halone : Alone s s.solo := ⟨hs, rfl⟩
  have hid : isText cmd.id = true := by
    unfold PatchObjectCommit.hasNul at htexts
    simp only [Bool.or_eq_false_iff, Bool.not_eq_false'] at htexts
    exact htexts.1.1.1
  obtain ⟨target, htarget⟩ : ∃ target, patchTarget a cmd held = .ok target :=
    ⟨_, patchTarget_obj a hn⟩
  have hunchanged := (settled_unchanged hheld hm hn h htarget).mpr hback
  -- the target is the object itself, so the patch takes the short way
  have htargets : solo liveNameUq rank env
      (Prog.ofExcept (patchTarget a cmd held) : Store PatchTarget) s.solo =
        some (.ok target, s.solo) := by
    rw [htarget]
    rfl
  have hfinish : solo liveNameUq rank env (finish cmd.ctx
      { object := some (viewOf s.db cmd.id held), changes := [], noOp := true }) s.solo =
        some (.ok response, s.solo) := by
    unfold finish finalizeInTx
    rw [hrender, hkey]
    rfl
  refine Alone.transaction halone ?_
  unfold Solo.commit
  have hlive' : Db.live s.solo.db cmd.id = some o := hlive
  -- the checks of the body, one after the other
  rw [body_requirePayload fun _ => htexts, body_bind (body_lockLiveObject hid hlive' hheld), hmatch,
    body_bind body_checkIfMatchIn_none, body_bind (body_checkRoot hroot), body_bind htargets,
    if_pos hunchanged, body_bind (body_unchangedView hid hlive' hheld)]
  show Option.map _ (solo liveNameUq rank env (finish cmd.ctx _) s.solo) = _
  exact congrArg (Option.map _) hfinish

end Again

section Restless

variable {rank : Row → Nat} {env : Env} {l : Rows}

/-- sqlx renders an object, or fails, and changes nothing. -/
theorem same_loadView {id : ObjectId} :
    SameBody rank env (loadView id) (loadView id) (Untouched l) l := by
  unfold loadView
  refine SameBody.bind same_requireText ?_
  rintro _ l ⟨rfl, -⟩
  refine SameBody.bind (same_select (Q := Untouched l) rfl) ?_
  rintro found l rfl
  cases found with
  | none => exact same_return rfl
  | some object =>
    refine SameBody.bind (same_orFail (Q := Untouched l) fun _ _ => rfl) ?_
    rintro object l rfl
    refine SameBody.bind (same_select (Q := Untouched l) rfl) ?_
    rintro path l rfl
    refine SameBody.bind (same_orFail (Q := Untouched l) fun _ _ => rfl) ?_
    rintro path l rfl
    exact same_return rfl

/-- The view is read, and nothing is written. -/
theorem same_renderedView_sqlx {id : ObjectId} {missing : DomainError} :
    SameBody rank env (renderedView .sqlx id missing) (renderedView .sqlx id missing)
      (Untouched l) l := by
  unfold renderedView
  refine SameBody.bind same_loadView ?_
  rintro view l rfl
  exact same_orFail fun _ _ => rfl

variable (hm : o.metadata = .obj m) (h : cmd.Settled o) (hs : s.sessions = ∅)
  (hlive : Db.live s.db cmd.id = some o)

include hm h hs hlive in
/-- Where one does not, sqlx makes a new revision at every repeat that it
answers, of an object that is settled as before. -/
theorem patch_restless (hfresh : Fresh s.solo) (hback : ¬ cmd.ComesBack)
    (hmatch : cmd.ifMatch = none) :
    Leaves s (patchObject .sqlx cmd) fun _ l => ∃ o', Db.live l.db cmd.id = some o' ∧
      o'.revision = o.revision + 1 ∧ cmd.Settled o' := by
  refine leaves_transaction hs fun rank env => ?_
  refine SameBody.bind (same_return (a := ()) (Q := Untouched s.solo) rfl) ?_
  rintro _ l rfl
  refine SameBody.bind (same_lockLiveObject fun _ _ => rfl) ?_
  rintro held l ⟨rfl, _, current, hcurrent, hheld⟩
  obtain rfl := Option.some.inj (hcurrent.symm.trans hlive)
  obtain ⟨n, hn⟩ := Adapter.held_obj hheld ⟨m, hm⟩
  refine SameBody.bind (same_checkIfMatchIn fun e he => absurd (hmatch ▸ he) (by simp)) ?_
  rintro _ l rfl
  refine SameBody.bind same_checkRoot ?_
  rintro _ l rfl
  refine SameBody.bind (same_ofExcept (Q := fun target l' =>
    l' = s.solo ∧ patchTarget .sqlx cmd held = .ok target) ?_) ?_
  · intro target htarget
    exact ⟨rfl, htarget⟩
  rintro target l ⟨rfl, htarget⟩
  -- the comparison sees a change where there is none
  have hchanged : ¬ target.unchanged .sqlx held = true := by
    rw [settled_unchanged hheld hm hn h htarget]
    rintro (hrpc | hcomes)
    · cases hrpc
    · exact hback hcomes
  rw [if_neg hchanged]
  refine SameBody.bind (same_whenever (Q := Untouched s.solo) (fun _ => same_checkDestination)
    fun _ => rfl) ?_
  rintro _ l rfl
  refine SameBody.bind same_requireText ?_
  rintro _ l ⟨rfl, -⟩
  refine SameBody.bind (same_require (Q := Untouched s.solo) fun _ => rfl) ?_
  rintro _ l rfl
  have hset : (target.row cmd.ctx.now current).deletedAt = none := (Db.live_eq_some.mp hlive).2
  refine SameBody.bind (same_updateLiveObject hfresh hlive hset) ?_
  rintro found l₁ ⟨hfresh₁, hnew⟩
  refine SameBody.bind (same_orFail (Q := Untouched l₁) fun _ _ => rfl) ?_
  rintro revision l rfl
  refine SameBody.bind (same_whenever (Q := Untouched l) (fun _ => same_recheckDestination)
    fun _ => rfl) ?_
  rintro _ l rfl
  refine SameBody.bind (same_appendChanges hfresh₁) ?_
  intro changes l₂ h₂
  refine SameBody.bind same_renderedView_sqlx ?_
  rintro view l₂ rfl
  refine same_finish.mono ?_
  intro _ l₃ h₃
  refine ⟨target.row cmd.ctx.now current, ?_, rfl, patched_settled hn htarget _ _⟩
  rw [h₃.live, h₂, hnew]

end Restless

/-! ## Runs -/

/-- No record has a number that the sequence has yet to draw. -/
theorem Setting.Runs.fresh (h : S.Runs c) : Fresh c.state.solo := by
  intro seq hseq
  cases hrow : Db.change c.state.solo.db seq with
  | none => rfl
  | some r =>
    have hinv := h.storeInv
    have hrow : Db.change (S.rows c.state.wal) seq = some r := hinv.db ▸ hrow
    exact absurd (hinv.seq _ (hinv.serial.feedInv.present seq r hrow)) (Nat.not_le.mpr hseq)

/-- The effect of the patches of a run, and of the same patches again. -/
structure PatchesSettle (S : Setting) (c : System) : Prop where
  lookup : ∀ wal₁ cmd ws o o', wal₁ ++ [(.patchObject cmd, ws)] <+: c.state.wal →
    (S.rows wal₁).live cmd.id = some o → written ws (.object cmd.id) = some (some o') →
      ∃ held, S.app.adapter.held o = some held ∧ ∀ patch ∈ cmd.metadataPatch, ∀ key,
        o'.metadata.get? key = (patch.lookup (held.metadata.get? key) key).map Json.written
  settled : ∀ wal₁ cmd ws o', wal₁ ++ [(.patchObject cmd, ws)] <+: c.state.wal →
    written ws (.object cmd.id) = some (some o') → cmd.Settled o'
  -- whatever else was committed in between
  repeated : ∀ wal₁ cmd ws o, wal₁ ++ [(.patchObject cmd, ws)] <+: c.state.wal →
    (S.rows wal₁).live cmd.id = some o → cmd.Settled o →
      (S.app.adapter = .rpc ∨ cmd.ComesBack) → feedOf ws = [] ∧
        ∀ x, (S.rows (wal₁ ++ [(.patchObject cmd, ws)])).object x = (S.rows wal₁).object x
  again : c.state.sessions = ∅ → ∀ cmd o held, Db.live c.state.db cmd.id = some o →
    S.app.adapter.held o = some held → cmd.Settled o → (S.app.adapter = .rpc ∨ cmd.ComesBack) →
      cmd.ifMatch = none → cmd.ctx.idempotency = none → cmd.hasNul = false →
        (cmd.id = rootId → cmd.newParentId = none ∧ cmd.newName = none) →
          ∀ response, cmd.ctx.render {
            object := some (viewOf c.state.db cmd.id held), changes := [], noOp := true }
              = .ok response →
          ∀ t rank env, ∃ s', (patchObject S.app.adapter cmd).eval store t ⟨.ok, rank, env⟩ c.state =
            some (.ok response, s') ∧ Alone s' c.state.solo
  restless : c.state.sessions = ∅ → ∀ cmd o, Db.live c.state.db cmd.id = some o → cmd.Settled o →
    S.app.adapter = .sqlx → ¬ cmd.ComesBack → cmd.ifMatch = none →
      Leaves c.state (patchObject S.app.adapter cmd) fun _ l => ∃ o',
        Db.live l.db cmd.id = some o' ∧ o'.revision = o.revision + 1 ∧ cmd.Settled o'

/-- A commit of a patch that writes the row of its object. -/
theorem Commits.patched {w : World} {db : Db} {ws : List Write}
    (h : Commits S w wal db (.patchObject cmd) ws) {o' : ObjectRow}
    (hws : written ws (.object cmd.id) = some (some o')) : ∃ o held target,
      db.live cmd.id = some o ∧ S.app.adapter.held o = some held ∧
        patchTarget S.app.adapter cmd held = .ok target ∧ o' = target.row cmd.ctx.now o := by
  generalize hlabel : Label.patchObject cmd = label at h
  cases h with
  | patchObject cmd' hlive hheld hmatch hroot htarget hchanged hdestination hwalk hrecords hfin =>
    obtain rfl := Label.patchObject.inj hlabel
    rw [written_cons_self, written_rest hfin.onTable (by simp) (by simp)] at hws
    exact ⟨_, _, _, hlive, hheld, htarget, (Option.some.inj (Option.some.inj hws)).symm⟩
  | unpatched cmd' hlive hmatch hfin =>
    rw [hfin.onTable.written (by simp)] at hws
    cases hws
  | @steal req label createdAt r hsteal =>
    subst hlabel
    rcases hsteal with hsteal | hsteal <;> cases hsteal
  | _ => cases hlabel

/-- A committed repeat has no Change and no object write. -/
theorem Commits.repeated {w : World} {db : Db} {ws : List Write}
    (h : Commits S w wal db (.patchObject cmd) ws) (hlive : db.live cmd.id = some o)
    (hm : o.metadata = .obj m) (hsettled : cmd.Settled o)
    (hback : S.app.adapter = .rpc ∨ cmd.ComesBack) :
    feedOf ws = [] ∧ ∀ x, written ws (.object x) = none := by
  generalize hlabel : Label.patchObject cmd = label at h
  cases h with
  | patchObject cmd' hlive' hheld hmatch hroot htarget hchanged hdestination hwalk hrecords hfin =>
    obtain rfl := Label.patchObject.inj hlabel
    obtain rfl := Option.some.inj (hlive.symm.trans hlive')
    obtain ⟨n, hn⟩ := Adapter.held_obj hheld ⟨m, hm⟩
    rw [(settled_unchanged hheld hm hn hsettled htarget).mpr hback] at hchanged
    cases hchanged
  | unpatched cmd' hlive' hmatch hfin =>
    exact ⟨hfin.onTable.feedOf (by decide), fun x => hfin.onTable.written (by simp)⟩
  | @steal req label createdAt r hsteal =>
    subst hlabel
    rcases hsteal with hsteal | hsteal <;> cases hsteal
  | _ => cases hlabel

/-- The same name twice. -/
def patchedTwice : List (Move Request (Choice Row Env)) :=
  alone 0 (sampleCreate none "a" .folder "A" 1) 9 {} ++
    alone 1 (samplePatch "a" none (some "B") 2) 9 {} ++
    alone 2 (samplePatch "a" none (some "B") 3) 5 {}

/-- A check that is enough: metadata are empty at first. -/
def Label.documents : Label → Bool
  | .createObject cmd => cmd.metadata = .obj .nil
  | _ => true

/-- An empty document is a document. -/
theorem documented_of_documents {label : Label} (h : label.documents = true) :
    label.Documented := by
  cases label with
  | createObject cmd => exact ⟨.nil, of_decide_eq_true h⟩
  | _ => trivial

end AnyStore

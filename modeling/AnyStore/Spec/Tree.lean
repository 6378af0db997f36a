import AnyStore.Spec.Writes

/-!
# The tree of objects

`TreeInv`: the root is a live folder without a parent, every other object has
a parent that exists and is a folder, a live object has a live parent, and no
object lies above itself. Every commit keeps it (`ObjectStep.treeInv`): a move
is refused when the object lies above its destination, and a deletion takes the
children along.
-/

namespace AnyStore

open ReadCommitted Relation

variable {S : Setting} {db db' : Db} {wal : Journal}

/-! ## Live objects -/

theorem Db.live_eq_some {id : ObjectId} {o : ObjectRow} :
    db.live id = some o ↔ db.object id = some o ∧ o.deletedAt = none := by
  simp [Db.live, Option.filter_eq_some_iff]

theorem Db.live_congr {id : ObjectId} (h : db'.object id = db.object id) :
    db'.live id = db.live id := by
  rw [Db.live, h, Db.live]

theorem Db.mem_objectIds {id : ObjectId} : id ∈ db.objectIds ↔ (db.object id).isSome := by
  rw [Db.objectIds, List.mem_filterMap, Db.object, AList.lookup_isSome, AList.mem_keys]
  constructor
  · rintro ⟨r, hr, he⟩
    cases r with
    | object id' => rw [Option.some.injEq] at he; exact he ▸ hr
    | _ => cases he
  · exact fun h => ⟨_, h, rfl⟩

def Db.LiveFolder (db : Db) (id : ObjectId) : Prop := ∃ q, db.live id = some q ∧ q.kind = .folder

/-- `b` is the parent of the live object `a`, and a live folder. -/
def Db.LiveParent (db : Db) (a b : ObjectId) : Prop :=
  (∃ o, db.live a = some o ∧ o.parentId = some b) ∧ db.LiveFolder b

/-! ## The invariant -/

structure TreeInv (db : Db) : Prop where
  root : ∃ o, db.live rootId = some o ∧ o.parentId = none ∧ o.kind = .folder
  orphan : ∀ id o, db.object id = some o → o.parentId = none → id = rootId
  parent : ∀ a b, db.Parent a b → ∃ q, db.object b = some q ∧ q.kind = .folder
  live : ∀ a o b, db.live a = some o → o.parentId = some b → db.LiveFolder b
  acyclic : Acyclic db.Parent

theorem TreeInv.root_parent (h : TreeInv db) {b : ObjectId} : ¬ db.Parent rootId b := by
  rintro ⟨o, ho, hb⟩
  obtain ⟨r, hr, hnone, _⟩ := h.root
  obtain rfl : r = o := Option.some.inj ((Db.live_eq_some.mp hr).1.symm.trans ho)
  rw [hnone] at hb
  cases hb

theorem Db.parent_functional (a b c : ObjectId) (hb : db.Parent a b) (hc : db.Parent a c) :
    b = c := by
  obtain ⟨o, ho, hb⟩ := hb
  obtain ⟨o', ho', hc⟩ := hc
  obtain rfl : o = o' := Option.some.inj (ho.symm.trans ho')
  exact Option.some.inj (hb.symm.trans hc)

theorem TreeInv.forest (h : TreeInv db) : Forest db.Parent := ⟨h.acyclic, Db.parent_functional⟩

/-- Following parents from a live object leads to the root through live folders. -/
theorem TreeInv.reaches (h : TreeInv db) {id : ObjectId} (hid : (db.live id).isSome) :
    ReflTransGen db.LiveParent id rootId := by
  have hacyclic : Acyclic db.LiveParent := h.acyclic.mono fun a b hab => by
    obtain ⟨⟨o, ho, hb⟩, _⟩ := hab
    exact ⟨o, (Db.live_eq_some.mp ho).1, hb⟩
  have hfinite : {a | (db.live a).isSome}.Finite := by
    refine (List.finite_toSet db.objectIds).subset fun a ha => ?_
    obtain ⟨o, ho⟩ := Option.isSome_iff_exists.mp ha
    exact Db.mem_objectIds.mpr (by rw [(Db.live_eq_some.mp ho).1]; rfl)
  refine hacyclic.reaches hfinite (fun a ha => ?_) id hid
  obtain ⟨o, ho⟩ := Option.isSome_iff_exists.mp ha
  cases hp : o.parentId with
  | none => exact .inl (h.orphan a o (Db.live_eq_some.mp ho).1 hp)
  | some b =>
    have hfolder := h.live a o b ho hp
    have ⟨q, hq, _⟩ := hfolder
    exact .inr ⟨b, by simp [hq], ⟨o, ho, hp⟩, hfolder⟩

/-- The invariant looks at the objects alone. -/
theorem TreeInv.congr (h : TreeInv db) (hobj : ∀ id, db'.object id = db.object id) :
    TreeInv db' := by
  have hlive : db'.live = db.live := funext fun id => Db.live_congr (hobj id)
  have hparent : db'.Parent = db.Parent := by
    funext a b
    rw [Db.Parent, hobj, Db.Parent]
  refine ⟨hlive ▸ h.root, fun id o ho => h.orphan id o (hobj id ▸ ho), fun a b hab => ?_,
    fun a o b ha hb => ?_, hparent ▸ h.acyclic⟩
  · obtain ⟨q, hq⟩ := h.parent a b (hparent ▸ hab)
    exact ⟨q, hobj b ▸ hq⟩
  · obtain ⟨q, hq⟩ := h.live a o b (hlive ▸ ha) hb
    exact ⟨q, hlive ▸ hq⟩

/-! ## Steps -/

/-- One row is written: the others keep their version. -/
theorem object_single {id x : ObjectId} {o : ObjectRow}
    (hobj : ∀ x, db'.object x = (single id o x).getD (db.object x)) :
    db'.object x = if x = id then some o else db.object x := by
  rw [hobj, single]
  split <;> rfl

/-- Rewriting a live object under the parent it has, its kind unchanged. -/
theorem TreeInv.rewrite (h : TreeInv db) {id : ObjectId} {o o' : ObjectRow}
    (ho : db.live id = some o) (hkind : o'.kind = o.kind) (hparent : o'.parentId = o.parentId)
    (hdeleted : o'.deletedAt = o.deletedAt)
    (hobj : ∀ x, db'.object x = if x = id then some o' else db.object x) : TreeInv db' := by
  obtain ⟨hid, hnone⟩ := Db.live_eq_some.mp ho
  -- every row of the new store has a row of the old one with the same tree data
  have hback : ∀ x p, db'.object x = some p → ∃ q, db.object x = some q ∧ p.kind = q.kind ∧
      p.parentId = q.parentId ∧ p.deletedAt = q.deletedAt := by
    intro x p hp
    rw [hobj] at hp
    split at hp
    · next hx =>
      subst hx
      obtain rfl := Option.some.inj hp
      exact ⟨o, hid, hkind, hparent, hdeleted⟩
    · exact ⟨p, hp, rfl, rfl, rfl⟩
  have hforth : ∀ x q, db.object x = some q → ∃ p, db'.object x = some p ∧ p.kind = q.kind ∧
      p.parentId = q.parentId ∧ p.deletedAt = q.deletedAt := by
    intro x q hq
    rw [hobj]
    split
    · next hx =>
      subst hx
      obtain rfl : o = q := Option.some.inj (hid.symm.trans hq)
      exact ⟨o', rfl, hkind, hparent, hdeleted⟩
    · exact ⟨q, hq, rfl, rfl, rfl⟩
  have hpar : ∀ a b, db'.Parent a b → db.Parent a b := by
    rintro a b ⟨p, hp, hb⟩
    obtain ⟨q, hq, _, hpq, _⟩ := hback a p hp
    exact ⟨q, hq, hpq ▸ hb⟩
  have hlive : ∀ x q, db.live x = some q → ∃ p, db'.live x = some p ∧ p.kind = q.kind ∧
      p.parentId = q.parentId := by
    intro x q hq
    obtain ⟨hq, hq'⟩ := Db.live_eq_some.mp hq
    obtain ⟨p, hp, hk, hpp, hd⟩ := hforth x q hq
    exact ⟨p, Db.live_eq_some.mpr ⟨hp, hd.trans hq'⟩, hk, hpp⟩
  refine ⟨?_, fun x p hp hnone => ?_, fun a b hab => ?_, fun a p b hp hb => ?_,
    h.acyclic.mono hpar⟩
  · obtain ⟨r, hr, hrp, hrk⟩ := h.root
    obtain ⟨p, hp, hk, hpp⟩ := hlive _ r hr
    exact ⟨p, hp, hpp.trans hrp, hk.trans hrk⟩
  · obtain ⟨q, hq, _, hpp, _⟩ := hback x p hp
    exact h.orphan x q hq (hpp ▸ hnone)
  · obtain ⟨q, hq, hk⟩ := h.parent a b (hpar a b hab)
    obtain ⟨p, hp, hk', _⟩ := hforth b q hq
    exact ⟨p, hp, hk'.trans hk⟩
  · obtain ⟨hp, hd⟩ := Db.live_eq_some.mp hp
    obtain ⟨q, hq, _, hpp, hdd⟩ := hback a p hp
    obtain ⟨f, hf, hfk⟩ := h.live a q b (Db.live_eq_some.mpr ⟨hq, hdd ▸ hd⟩) (hpp ▸ hb)
    obtain ⟨f', hf', hk', _⟩ := hlive b f hf
    exact ⟨f', hf', hk'.trans hfk⟩

/-- Hanging an object below a live folder `d`: a new object, or one that does
not lie above `d` once it hangs there. -/
theorem TreeInv.hang (h : TreeInv db) {id d : ObjectId} {o' : ObjectRow}
    (hroot : id ≠ rootId) (hd : db.LiveFolder d) (hparent : o'.parentId = some d)
    (hlive : o'.deletedAt = none)
    (hkind : ∀ o, db.object id = some o → o.deletedAt = none ∧ o'.kind = o.kind)
    (hpath : ¬ ReflTransGen db'.Parent d id)
    (hobj : ∀ x, db'.object x = if x = id then some o' else db.object x) : TreeInv db' := by
  have hself : db'.object id = some o' := by rw [hobj, if_pos rfl]
  have hne : ∀ x, x ≠ id → db'.object x = db.object x := fun x hx => by rw [hobj, if_neg hx]
  have hdid : d ≠ id := by
    rintro rfl
    exact hpath .refl
  have hfolder : ∀ b, db.LiveFolder b → db'.LiveFolder b := by
    rintro b ⟨q, hq, hqk⟩
    rcases eq_or_ne b id with rfl | hb
    · exact ⟨o', Db.live_eq_some.mpr ⟨hself, hlive⟩,
        (hkind q (Db.live_eq_some.mp hq).1).2.trans hqk⟩
    · exact ⟨q, (Db.live_congr (hne b hb)).trans hq, hqk⟩
  have hsub : ∀ a b, db'.Parent a b → db.Parent a b ∨ a = id ∧ b = d := by
    rintro a b ⟨p, hp, hb⟩
    rcases eq_or_ne a id with rfl | ha
    · obtain rfl := Option.some.inj (hself.symm.trans hp)
      exact .inr ⟨rfl, Option.some.inj (hb.symm.trans hparent)⟩
    · exact .inl ⟨p, (hne a ha).symm.trans hp, hb⟩
  refine ⟨?_, fun x p hp hnone => ?_, fun a b hab => ?_, fun a p b hp hb => ?_,
    h.acyclic.move hsub hpath⟩
  · obtain ⟨r, hr⟩ := h.root
    exact ⟨r, (Db.live_congr (hne _ hroot.symm)).trans hr.1, hr.2⟩
  · rcases eq_or_ne x id with rfl | hx
    · obtain rfl := Option.some.inj (hself.symm.trans hp)
      rw [hparent] at hnone
      cases hnone
    · exact h.orphan x p ((hne x hx).symm.trans hp) hnone
  · have hq : ∃ q, db.object b = some q ∧ q.kind = .folder := by
      rcases hsub a b hab with hab | ⟨_, rfl⟩
      · exact h.parent a b hab
      · obtain ⟨q, hq, hqk⟩ := hd
        exact ⟨q, (Db.live_eq_some.mp hq).1, hqk⟩
    obtain ⟨q, hq, hqk⟩ := hq
    rcases eq_or_ne b id with rfl | hb
    · exact ⟨o', hself, (hkind q hq).2.trans hqk⟩
    · exact ⟨q, (hne b hb).trans hq, hqk⟩
  · refine hfolder b ?_
    rcases eq_or_ne a id with rfl | ha
    · obtain rfl := Option.some.inj (hself.symm.trans (Db.live_eq_some.mp hp).1)
      exact Option.some.inj (hb.symm.trans hparent) ▸ hd
    · exact h.live a p b ((Db.live_congr (hne a ha)).symm.trans hp) hb

/-- An object without children lies above nothing. -/
theorem not_reaches_of_no_child {id d : ObjectId} (hdid : d ≠ id) (hchild : ∀ a, ¬ db.Parent a id) :
    ¬ ReflTransGen db.Parent d id := by
  intro hpath
  rcases ReflTransGen.cases_tail hpath with rfl | ⟨a, _, ha⟩
  · exact hdid rfl
  · exact hchild a ha

/-- Tombstones: a set of live objects that is closed under live children. -/
theorem TreeInv.delete (h : TreeInv db) {targets : List ObjectId} {now : Time}
    (hroot : rootId ∉ targets)
    (hclosed : ∀ c o p, db.live c = some o → o.parentId = some p → p ∈ targets → c ∈ targets)
    (hobj : ∀ x, db'.object x = (if x ∈ targets then
      (db.live x).map fun o => some (o.tombstone now) else none).getD (db.object x)) :
    TreeInv db' := by
  have hkeep : ∀ x, x ∉ targets → db'.object x = db.object x := fun x hx => by
    rw [hobj, if_neg hx, Option.getD_none]
  -- a row keeps its kind and parent
  have hback : ∀ x p, db'.object x = some p → ∃ q, db.object x = some q ∧ p.kind = q.kind ∧
      p.parentId = q.parentId := by
    intro x p hp
    by_cases hx : x ∈ targets
    · rw [hobj, if_pos hx] at hp
      cases hl : db.live x with
      | none =>
        rw [hl] at hp
        exact ⟨p, hp, rfl, rfl⟩
      | some o =>
        rw [hl] at hp
        obtain rfl := Option.some.inj hp
        exact ⟨o, (Db.live_eq_some.mp hl).1, rfl, rfl⟩
    · exact ⟨p, (hkeep x hx).symm.trans hp, rfl, rfl⟩
  have hforth : ∀ x q, db.object x = some q → ∃ p, db'.object x = some p ∧ p.kind = q.kind := by
    intro x q hq
    by_cases hx : x ∈ targets
    · rw [hobj, if_pos hx]
      cases hl : db.live x with
      | none => exact ⟨q, hq, rfl⟩
      | some o =>
        obtain rfl : o = q := Option.some.inj ((Db.live_eq_some.mp hl).1.symm.trans hq)
        exact ⟨o.tombstone now, rfl, rfl⟩
    · exact ⟨q, (hkeep x hx).trans hq, rfl⟩
  have hpar : ∀ a b, db'.Parent a b → db.Parent a b := by
    rintro a b ⟨p, hp, hb⟩
    obtain ⟨q, hq, _, hpq⟩ := hback a p hp
    exact ⟨q, hq, hpq ▸ hb⟩
  -- what is still live was live and is no target
  have hlive : ∀ x p, db'.live x = some p → x ∉ targets ∧ db.live x = some p := by
    intro x p hp
    obtain ⟨hp, hd⟩ := Db.live_eq_some.mp hp
    have hx : x ∉ targets := by
      intro hx
      rw [hobj, if_pos hx] at hp
      cases hl : db.live x with
      | none =>
        rw [hl] at hp
        rw [Db.live_eq_some.mpr ⟨hp, hd⟩] at hl
        cases hl
      | some o =>
        rw [hl] at hp
        obtain rfl := Option.some.inj hp
        cases hd
    exact ⟨hx, Db.live_eq_some.mpr ⟨(hkeep x hx).symm.trans hp, hd⟩⟩
  refine ⟨?_, fun x p hp hnone => ?_, fun a b hab => ?_, fun a p b hp hb => ?_,
    h.acyclic.mono hpar⟩
  · obtain ⟨r, hr⟩ := h.root
    exact ⟨r, (Db.live_congr (hkeep _ hroot)).trans hr.1, hr.2⟩
  · obtain ⟨q, hq, _, hpp⟩ := hback x p hp
    exact h.orphan x q hq (hpp ▸ hnone)
  · obtain ⟨q, hq, hk⟩ := h.parent a b (hpar a b hab)
    obtain ⟨p, hp, hk'⟩ := hforth b q hq
    exact ⟨p, hp, hk'.trans hk⟩
  · obtain ⟨ha, hp⟩ := hlive a p hp
    have hb' : b ∉ targets := fun hb' => ha (hclosed a p b hp hb hb')
    obtain ⟨q, hq⟩ := h.live a p b hp hb
    exact ⟨q, (Db.live_congr (hkeep b hb')).trans hq.1, hq.2⟩

theorem patchTarget_parent {a : Adapter} {cmd : PatchObjectCommit} {current : ObjectRow}
    {target : PatchTarget} (h : patchTarget a cmd current = .ok target) :
    target.parent = cmd.newParentId.or current.parentId := by
  cases hm : cmd.metadataPatch with
  | none =>
    rw [patchTarget, hm] at h
    cases h
    rfl
  | some patch =>
    rw [patchTarget, hm] at h
    cases hp : a.applyMetadataPatch current.metadata patch with
    | error e =>
      simp only [hp] at h
      cases h
    | ok m =>
      simp only [hp] at h
      cases h
      rfl

/-- The parent relation after one row is written. -/
theorem parent_replay_single {id : ObjectId} {o : ObjectRow}
    (hobj : ∀ x, db'.object x = if x = id then some o else db.object x) :
    db'.Parent = Db.Parent (replay [⟨.object id, some o⟩] db) := by
  have heq : ∀ x, db'.object x = Db.object (replay [⟨.object id, some o⟩] db) x := by
    intro x
    rw [hobj, object_replay]
    split
    · next hx =>
      subst hx
      rw [written_cons_self]
      rfl
    · next hx =>
      rw [written_cons_ne fun he => hx (Row.object.inj he).symm]
      rfl
  funext a b
  rw [Db.Parent, heq, Db.Parent]

/-- **Step.** What a commit does to the objects keeps the tree. -/
theorem ObjectStep.treeInv {f : ObjectId → Option (Option ObjectRow)}
    {records : List (Nat × ChangeRecord)} (h : ObjectStep S wal db f records) (hinv : TreeInv db)
    (hobj : ∀ x, db'.object x = (f x).getD (db.object x)) : TreeInv db' := by
  cases h with
  | quiet => exact hinv.congr hobj
  | created cmd hfresh hparent hfolder =>
    have hobj := fun x => object_single (x := x) hobj
    have hd : cmd.parentId ≠ cmd.id := by
      intro he
      rw [he, Db.live, hfresh] at hparent
      cases hparent
    have hroot : cmd.id ≠ rootId := by
      obtain ⟨r, hr, _⟩ := hinv.root
      intro he
      rw [he, (Db.live_eq_some.mp hr).1] at hfresh
      cases hfresh
    refine hinv.hang hroot ⟨_, hparent, hfolder⟩ rfl rfl (fun o ho => ?_)
      (not_reaches_of_no_child hd fun a ha => ?_) hobj
    · rw [hfresh] at ho
      cases ho
    · -- nothing hangs below an object that did not exist
      obtain ⟨p, hp, hb⟩ := ha
      rw [hobj] at hp
      split at hp
      · obtain rfl := Option.some.inj hp
        exact hd (Option.some.inj hb)
      · obtain ⟨q, hq, _⟩ := hinv.parent a cmd.id ⟨p, hp, hb⟩
        rw [hfresh] at hq
        cases hq
  | @patched cmd current held target _ hlive hheld hroot htarget hchanged hdestination hwalk =>
    have hobj := fun x => object_single (x := x) hobj
    cases hmoved : target.parentChanged current with
    | false =>
      have hparent : target.parent = current.parentId := by
        simpa [PatchTarget.parentChanged] using hmoved
      have hkind : (target.row cmd.ctx.now current).kind = current.kind := rfl
      exact hinv.rewrite hlive hkind hparent rfl hobj
    | true =>
      obtain ⟨d, folder, hd, hdlive, hfolder⟩ := hdestination hmoved
      have hnotroot : cmd.id ≠ rootId := by
        intro he
        have hparent := patchTarget_parent htarget
        rw [(hroot he).1, Option.none_or, Adapter.held_eq hheld] at hparent
        rw [PatchTarget.parentChanged, hparent] at hmoved
        simp at hmoved
      have ⟨hid, hnone⟩ := Db.live_eq_some.mp hlive
      have hdeleted : (target.row cmd.ctx.now current).deletedAt = none := hnone
      refine hinv.hang hnotroot ⟨folder, hdlive, hfolder⟩ hd hdeleted (fun o ho => ?_) ?_ hobj
      · obtain rfl : current = o := Option.some.inj (hid.symm.trans ho)
        exact ⟨hnone, rfl⟩
      · cases hkind : current.kind with
        | folder =>
          rw [parent_replay_single hobj]
          exact hwalk hmoved hkind d hd
        | file =>
          -- nothing hangs below a file
          have hne : d ≠ cmd.id := by
            rintro rfl
            obtain rfl : current = folder := Option.some.inj (hlive.symm.trans hdlive)
            rw [hkind] at hfolder
            cases hfolder
          refine not_reaches_of_no_child hne fun a ha => ?_
          obtain ⟨p, hp, hb⟩ := ha
          rw [hobj] at hp
          split at hp
          · obtain rfl := Option.some.inj hp
            exact hne (Option.some.inj (hd.symm.trans hb))
          · obtain ⟨q, hq, hqk⟩ := hinv.parent a cmd.id ⟨p, hp, hb⟩
            obtain rfl : current = q := Option.some.inj (hid.symm.trans hq)
            rw [hkind] at hqk
            cases hqk
  | deleted ctx hroot hnodup hclosed => exact hinv.delete hroot hclosed hobj
  | @content cmd current _ hlive =>
    have hkind : (cmd.row current).kind = current.kind := rfl
    exact hinv.rewrite hlive hkind rfl rfl fun x => object_single hobj

/-! ## Journals -/

theorem object_initialDb (now : Time) (id : ObjectId) :
    (initialDb now).object id = if id = rootId then some {
      revision := Revision.initial
      kind := .folder
      name := ""
      parentId := none
      metadata := .obj .nil
      createdAt := now
      updatedAt := now } else none := by
  rw [Db.object, initialDb, AList.lookup_insert_ne (by simp)]
  split
  · next hid =>
    subst hid
    exact AList.lookup_insert ∅
  · next hid =>
    exact (AList.lookup_insert_ne (s := ∅) fun he => hid (Row.object.inj he)).trans rfl

theorem treeInv_initialDb (now : Time) : TreeInv (initialDb now) := by
  have hrow : ∀ id o, (initialDb now).object id = some o → id = rootId ∧ o.parentId = none := by
    intro id o ho
    rw [object_initialDb] at ho
    split at ho
    · next hid =>
      obtain rfl := Option.some.inj ho
      exact ⟨hid, rfl⟩
    · cases ho
  have hpar : ∀ a b, ¬ (initialDb now).Parent a b := by
    rintro a b ⟨o, ho, hb⟩
    rw [(hrow a o ho).2] at hb
    cases hb
  have hroot := object_initialDb now rootId
  rw [if_pos rfl] at hroot
  refine ⟨⟨_, Db.live_eq_some.mpr ⟨hroot, rfl⟩, rfl, rfl⟩, fun id o ho _ => (hrow id o ho).1,
    fun a b hab => absurd hab (hpar a b), fun a o b ho hb => ?_, fun a ha => ?_⟩
  · exact absurd ⟨o, (Db.live_eq_some.mp ho).1, hb⟩ (hpar a b)
  · obtain ⟨b, hab, _⟩ := TransGen.head'_iff.mp ha
    exact hpar a b hab

/-- **Run.** The tree is intact after every journal. -/
theorem Serial.treeInv {w : World} (h : Serial S w wal) : TreeInv (S.rows wal) := by
  induction h with
  | nil => exact treeInv_initialDb _
  | snoc _ hc ih =>
    rw [Setting.rows_snoc]
    exact hc.objectStep.treeInv ih fun x => object_replay _ _ x

/-- No object row is ever removed: deletion leaves a tombstone. -/
theorem ObjectStep.ne_none {f : ObjectId → Option (Option ObjectRow)}
    {records : List (Nat × ChangeRecord)} (h : ObjectStep S wal db f records) (x : ObjectId) :
    f x ≠ some none := by
  cases h with
  | quiet => simp
  | created | patched | content =>
    rw [single]
    split <;> simp
  | deleted =>
    dsimp only
    split
    · cases db.live x <;> simp
    · simp

theorem Serial.object_isSome {w : World} {wal' : Journal} (h : Serial S w wal')
    (hp : wal <+: wal') {id : ObjectId} (ho : ((S.rows wal).object id).isSome) :
    ((S.rows wal').object id).isSome := by
  induction h with
  | nil => rwa [List.prefix_nil.mp hp] at ho
  | snoc _ hc ih =>
    rcases List.prefix_concat_iff.mp hp with rfl | hp
    · exact ho
    · have hold := ih hp
      rw [Setting.rows_snoc, object_replay]
      have hne := hc.objectStep.ne_none id
      rw [objectWrites] at hne
      cases hv : written _ (Row.object id) with
      | none => exact hold
      | some v =>
        cases v with
        | none => exact absurd hv hne
        | some o => rfl

end AnyStore

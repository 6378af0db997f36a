import AnyStore.Properties.Memory
import AnyStore.Spec.Walks

/-!
# The tree of the in-memory store

The in-memory store walks up a tree for at most 1024 steps, and so its checks are
those of the database only as long as no walk is cut short.

## Results

* `memory_tree_kept`: mutations that fit into the walks keep the objects a tree,
  with every path rendered in full, however many there are.
* `memory_tree_not_kept`: 1024 folders, one in the other, do not fit.

## Assumptions

None beyond `Mutation.Fits`: no create or move puts an object deeper than the
walks reach, and the ids of creates are new.

## Proof

The invariant is `Rooted`. Its step lemma goes by what a mutation writes
(`Mutation.objects_cases`); that a recursive delete takes a whole subtree is the
loop invariant `Spreading` of the worklist.
-/

namespace AnyStore.Memory

open Locked ReadCommitted Relation

variable {s s' : State} {id : ObjectId} {row : ObjectRow}

/-! ## The rows as a table -/

/-- The objects of the store as the rows of a table. -/
def State.tables (s : State) : Db :=
  (s.objects.entries.map (Sigma.map Row.object fun _ o => (o : ObjectRow))).toAList

/-- The same rows, -/
theorem State.tables_object (s : State) (id : ObjectId) :
    s.tables.object id = s.objects.lookup id := by
  unfold State.tables Db.object
  rw [AList.lookup_to_alist]
  have h : List.dlookup (Row.object id) (s.objects.entries.map
      (Sigma.map Row.object fun _ o => (o : ObjectRow)) : List (Sigma Row.Val)) =
      (s.objects.entries.dlookup id).map fun o => o :=
    @List.dlookup_map _ _ _ Row.Val _ _ s.objects.entries Row.object
      (fun a b h => Row.object.inj h) (fun _ o => o) id
  rw [h]
  exact Option.map_id' ..

/-- and the same live ones. -/
theorem State.tables_live (s : State) (id : ObjectId) : s.tables.live id = s.live id := by
  unfold Db.live State.live
  rw [State.tables_object]

/-- The children that the store collects are those of the table. -/
theorem State.mem_liveChildren {c p : ObjectId} :
    c ∈ s.liveChildren p ↔ s.tables.LiveChild c p := by
  unfold State.liveChildren Db.LiveChild
  simp only [State.tables_live, State.live_eq_some, List.mem_map, List.mem_filter, Bool.and_eq_true,
    Option.isNone_iff_eq_none, decide_eq_true_eq]
  constructor
  · rintro ⟨e, ⟨he, hlive, hparent⟩, rfl⟩
    exact ⟨e.2, ⟨AList.mem_lookup_iff.mpr he, hlive⟩, hparent⟩
  · rintro ⟨o, ⟨ho, hlive⟩, hparent⟩
    exact ⟨⟨c, o⟩, ⟨AList.mem_lookup_iff.mp ho, hlive, hparent⟩, rfl⟩

/-- Each of them once. -/
theorem State.nodup_liveChildren (s : State) (p : ObjectId) : (s.liveChildren p).Nodup :=
  s.objects.keys_nodup.sublist (List.filter_sublist.map Sigma.fst)

/-! ## The worklist -/

/-- What has been found below `root` once the entries of `popped` have been
taken from the worklist. -/
structure Spreading (s : State) (root : ObjectId) (popped frontier result : List (Nat × ObjectId)) :
    Prop where
  perm : result.Perm (popped ++ frontier)
  nodup : (result.map Prod.snd).Nodup
  live : ∀ e ∈ result, (s.live e.2).isSome
  below : ∀ e ∈ result, ReflTransGen s.tables.LiveChild e.2 root
  parented : ∀ e ∈ result, e.2 = root ∨ ∃ p ∈ popped, s.tables.LiveChild e.2 p.2
  closed : ∀ e ∈ popped, ∀ c ∈ s.liveChildren e.2, c ∈ result.map Prod.snd

section Spread

variable {root : ObjectId} {popped frontier result : List (Nat × ObjectId)} {e : Nat × ObjectId}

/-- A live child is a child. -/
theorem parents_of_liveChildren {a b : ObjectId} (h : ReflTransGen s.tables.LiveChild a b) :
    ReflTransGen s.tables.Parent a b :=
  ReflTransGen.mono (fun _ _ ⟨o, ho, hb⟩ => ⟨o, (Db.live_eq_some.mp ho).1, hb⟩) _ _ h

/-- No object is found twice, so there are not more entries than objects. -/
theorem Spreading.length_le (h : Spreading s root popped frontier result) :
    popped.length + frontier.length ≤ s.objects.entries.length := by
  have hsub : result.map Prod.snd ⊆ s.objects.entries.keys := by
    intro x hx
    obtain ⟨e, he, rfl⟩ := List.mem_map.mp hx
    obtain ⟨o, ho⟩ := Option.isSome_iff_exists.mp (h.live e he)
    have hmem := AList.mem_lookup_iff.mp (State.live_eq_some.mp ho).1
    exact List.mem_keys_of_mem hmem
  have hle := (h.nodup.subperm hsub).length_le
  have hperm := h.perm.length_eq
  rw [List.length_append] at hperm
  rw [List.length_map, List.keys, List.length_map] at hle
  omega

/-- The worklist starts with the root of the subtree. -/
theorem Spreading.start (hroot : (s.live root).isSome) :
    Spreading s root [] [(0, root)] [(0, root)] where
  perm := .refl _
  nodup := List.nodup_singleton _
  live := by simpa using hroot
  below := by simpa using ReflTransGen.refl
  parented := by simp
  closed := by simp

/-- **Step.** The live children of a popped object join the worklist. -/
theorem Spreading.pop (hT : TreeInv s.tables) (h : Spreading s root popped (e :: frontier) result) :
    Spreading s root (e :: popped)
      (((s.liveChildren e.2).map fun c => (e.1 + 1, c)).reverse ++ frontier)
      (result ++ (s.liveChildren e.2).map fun c => (e.1 + 1, c)) := by
  have he : e ∈ result := h.perm.mem_iff.mpr (List.mem_append_right _ (List.mem_cons_self ..))
  have hparent : ∀ c ∈ s.liveChildren e.2, s.tables.Parent c e.2 := by
    intro c hc
    obtain ⟨o, ho, hp⟩ := State.mem_liveChildren.mp hc
    exact ⟨o, (Db.live_eq_some.mp ho).1, hp⟩
  -- the children are new: a parent is popped before its children are found
  have hnew : ∀ c ∈ s.liveChildren e.2, c ∉ result.map Prod.snd := by
    intro c hc hmem
    obtain ⟨x, hx, rfl⟩ := List.mem_map.mp hmem
    rcases h.parented x hx with hroot | ⟨p, hp, o, ho, hop⟩
    · have hcycle := TransGen.head' (hparent x.2 hc) (parents_of_liveChildren (h.below e he))
      rw [hroot] at hcycle
      exact hT.acyclic root hcycle
    · have hpe : p.2 = e.2 := hT.forest.functional _ _ _
        ⟨o, (Db.live_eq_some.mp ho).1, hop⟩ (hparent x.2 hc)
      have hnodup := (h.perm.map Prod.snd).nodup_iff.mp h.nodup
      rw [List.map_append, List.nodup_append] at hnodup
      exact hnodup.2.2 p.2 (List.mem_map_of_mem hp) e.2 (by simp) hpe
  constructor
  · -- the popped entry moves to the front, the children to the worklist
    have hperm := h.perm.append_right ((s.liveChildren e.2).map fun c => (e.1 + 1, c))
    refine hperm.trans ?_
    simp only [List.append_assoc, List.cons_append]
    refine List.perm_middle.trans (.cons e (.append_left popped ?_))
    exact List.perm_append_comm.trans ((List.reverse_perm _).symm.append_right frontier)
  · rw [List.map_append, List.map_map, List.nodup_append]
    have hid : (s.liveChildren e.2).map (Prod.snd ∘ fun c => (e.1 + 1, c)) = s.liveChildren e.2 :=
      List.map_id _
    rw [hid]
    exact ⟨h.nodup, s.nodup_liveChildren _, fun a ha b hb hab => hnew b hb (hab ▸ ha)⟩
  · intro x hx
    rcases List.mem_append.mp hx with hx | hx
    · exact h.live x hx
    · obtain ⟨c, hc, rfl⟩ := List.mem_map.mp hx
      obtain ⟨o, ho, _⟩ := State.mem_liveChildren.mp hc
      rw [State.tables_live] at ho
      rw [ho]
      rfl
  · intro x hx
    rcases List.mem_append.mp hx with hx | hx
    · exact h.below x hx
    · obtain ⟨c, hc, rfl⟩ := List.mem_map.mp hx
      exact .head (State.mem_liveChildren.mp hc) (h.below e he)
  · intro x hx
    rcases List.mem_append.mp hx with hx | hx
    · rcases h.parented x hx with hroot | ⟨p, hp, hxp⟩
      · exact .inl hroot
      · exact .inr ⟨p, List.mem_cons_of_mem _ hp, hxp⟩
    · obtain ⟨c, hc, rfl⟩ := List.mem_map.mp hx
      exact .inr ⟨e, List.mem_cons_self .., State.mem_liveChildren.mp hc⟩
  · intro x hx c hc
    rw [List.map_append]
    rcases List.mem_cons.mp hx with rfl | hx
    · refine List.mem_append_right _ ?_
      rw [List.map_map]
      exact List.mem_map.mpr ⟨c, hc, rfl⟩
    · exact List.mem_append_left _ (h.closed x hx c hc)

/-- **Run.** The worklist runs empty after as many rounds as there are objects. -/
theorem Spreading.ends (hT : TreeInv s.tables) {n : Nat}
    (h : Spreading s root popped frontier result)
    (hn : s.objects.entries.length ≤ n + popped.length) :
    ∃ out popped', s.spread n frontier result = some out ∧ Spreading s root popped' [] out := by
  induction n generalizing popped frontier result with
  | zero =>
    cases frontier with
    | nil => exact ⟨result, popped, by simp [State.spread], h⟩
    | cons e frontier =>
      -- every object is on the worklist already, so there is nothing left to pop
      have hle := h.length_le
      rw [List.length_cons] at hle
      omega
  | succ n ih =>
    cases frontier with
    | nil => exact ⟨result, popped, by simp [State.spread], h⟩
    | cons e frontier =>
      obtain ⟨out, popped', hout, hend⟩ := ih (h.pop hT) (by rw [List.length_cons]; omega)
      exact ⟨out, popped', hout, hend⟩

end Spread

/-- What the worklist finds in a tree: the object and everything live below it. -/
theorem descendants_spec (hT : TreeInv s.tables) (hid : (s.live id).isSome) :
    ∃ found, s.descendants id = some found ∧
      ∀ x, x ∈ found.map Prod.snd ↔ ReflTransGen s.tables.LiveChild x id := by
  obtain ⟨out, popped, hout, h⟩ := Spreading.ends hT (Spreading.start hid)
    (n := s.objects.entries.length + 1) (by simp)
  have hmem : ∀ x, x ∈ (out.insertionSort walkOrder).map Prod.snd ↔ x ∈ out.map Prod.snd := by
    intro x
    exact ((List.perm_insertionSort walkOrder out).map Prod.snd).mem_iff
  -- at the end all that was found has been popped
  have hpopped : ∀ e, e ∈ out ↔ e ∈ popped := by
    intro e
    rw [h.perm.mem_iff, List.append_nil]
  refine ⟨out.insertionSort walkOrder, ?_, ?_⟩
  · unfold State.descendants
    rw [hout, Option.map_some]
  · intro x
    rw [hmem]
    constructor
    · -- conversely the subtree is followed from the root downwards
      intro hx
      obtain ⟨e, he, rfl⟩ := List.mem_map.mp hx
      exact h.below e he
    · intro hx
      induction hx using ReflTransGen.head_induction_on with
      | refl =>
        exact List.mem_map.mpr ⟨(0, id), State.spread_subset hout (List.mem_singleton_self _), rfl⟩
      | @head c p hc _ hp =>
        obtain ⟨e, he, rfl⟩ := List.mem_map.mp hp
        exact h.closed e ((hpopped e).mp he) c (State.mem_liveChildren.mpr hc)

/-! ## The walks up -/

/-- Parents, row by row. -/
theorem State.tables_parent {a b : ObjectId} :
    s.tables.Parent a b ↔ ∃ o, s.objects.lookup a = some o ∧ o.parentId = some b := by
  unfold Db.Parent
  rw [State.tables_object]

/-- The loop finds an ancestor that is nearer than its bound. -/
theorem climbsTo_of_ascends {subject : ObjectId} {k n : Nat} {a : ObjectId}
    (h : Ascends s.tables.Parent k a subject) (hk : k < n) :
    climbsTo s.objects subject n (some a) = true := by
  induction n generalizing k a with
  | zero => omega
  | succ n ih =>
    unfold climbsTo
    rw [Bool.or_eq_true, decide_eq_true_eq]
    rcases h.cases_head with ⟨_, ha⟩ | ⟨l, b, hl, hab, hb⟩
    · exact .inl ha
    · right
      obtain ⟨o, ho, hp⟩ := State.tables_parent.mp hab
      rw [ho, Option.bind_some, hp]
      exact ih hb (by omega)

/-- The names of an object and of what lies above it, the root's left out. -/
inductive NamesUp (db : Db) : ObjectId → List String → Prop
  | root : NamesUp db rootId []
  | child {a b : ObjectId} {o : ObjectRow} {names : List String} (ho : db.object a = some o)
      (hb : o.parentId = some b) (h : NamesUp db b names) : NamesUp db a (o.name :: names)

/-- From an object `k` steps below the root, the loop renders the full path if
it makes more than `k` rounds. -/
theorem segments_of_ascends (hT : TreeInv s.tables) {k n : Nat} {a : ObjectId}
    (h : Ascends s.tables.Parent k a rootId) (hk : k < n) :
    ∃ names, NamesUp s.tables a names ∧ names.length = k ∧ segments s.objects n a = .ok names := by
  induction n generalizing k a with
  | zero => omega
  | succ n ih =>
    rcases h.cases_head with ⟨hzero, rfl⟩ | ⟨l, b, hl, hab, hb⟩
    · obtain ⟨o, ho, hnone, _⟩ := hT.root
      have hlookup : s.objects.lookup rootId = some o := by
        rw [← State.tables_object]
        exact (Db.live_eq_some.mp ho).1
      exact ⟨[], .root, hzero.symm, by simp [segments, hlookup, hnone]⟩
    · obtain ⟨o, ho, hp⟩ := State.tables_parent.mp hab
      obtain ⟨names, hnames, hlen, hseg⟩ := ih hb (by omega)
      refine ⟨o.name :: names, .child ((s.tables_object a).trans ho) hp hnames, ?_, ?_⟩
      · rw [List.length_cons, hlen, hl]
      · simp [segments, ho, hp, hseg, Except.map]

/-- With no more than `k` rounds it gives up. -/
theorem segments_too_deep {k n : Nat} {a b : ObjectId} (h : Ascends s.tables.Parent k a b)
    (hk : n ≤ k) : segments s.objects n a = .error (.internal "object tree is cyclic") := by
  induction n generalizing k a with
  | zero => rfl
  | succ n ih =>
    rcases h.cases_head with ⟨hzero, _⟩ | ⟨l, b, hl, hab, hb⟩
    · omega
    · obtain ⟨o, ho, hp⟩ := State.tables_parent.mp hab
      simp [segments, ho, hp, ih hb (by omega), Except.map]

/-! ## The invariant -/

/-- The objects are a tree, and no live one lies deeper than the walks reach. -/
structure Rooted (s : State) : Prop where
  tree : TreeInv s.tables
  shallow : ∀ id, (s.live id).isSome →
    ∃ k < State.walkBound, Ascends s.tables.Parent k id rootId

/-- One row is written. -/
theorem tables_insert (h : s'.objects = s.objects.insert id row) (x : ObjectId) :
    s'.tables.object x = if x = id then some row else s.tables.object x := by
  rw [State.tables_object, State.tables_object, h]
  by_cases hx : x = id
  · rw [if_pos hx, hx, AList.lookup_insert]
  · rw [if_neg hx, AList.lookup_insert_ne hx]

/-- The walk from a live object meets every object above it. -/
theorem Rooted.isSelfOrDescendant (h : Rooted s) {d : ObjectId} (hd : (s.live d).isSome)
    (hpath : ReflTransGen s.tables.Parent d id) : s.isSelfOrDescendant d id = true := by
  obtain ⟨k, hk, hroot⟩ := h.shallow d hd
  obtain ⟨j, hj⟩ := Ascends.of_reflTransGen hpath
  have hjk : ¬ k < j := by
    intro hlt
    obtain ⟨b, hb, _⟩ := TransGen.head'_iff.mp (h.tree.forest.ascends_split hroot hj hlt)
    exact h.tree.root_parent hb
  exact climbsTo_of_ascends hj (by omega)

/-- A row that keeps its place in the tree. -/
theorem Rooted.rewrite (h : Rooted s) {o : ObjectRow} (ho : s.live id = some o)
    (hobjects : s'.objects = s.objects.insert id row) (hkind : row.kind = o.kind)
    (hparent : row.parentId = o.parentId) (hlive : row.deletedAt = none) : Rooted s' := by
  have ho' := State.live_eq_some.mp ho
  have hobj := tables_insert hobjects
  -- the parents stay, so do the depths
  have hsame : s'.tables.Parent = s.tables.Parent := by
    funext a b
    unfold Db.Parent
    rw [hobj]
    by_cases ha : a = id
    · rw [if_pos ha, ha, State.tables_object, ho'.1]
      simp [hparent]
    · rw [if_neg ha]
  constructor
  · exact h.tree.rewrite ((s.tables_live id).trans ho) hkind hparent (hlive.trans ho'.2.symm) hobj
  · intro x hx
    rw [hsame]
    refine h.shallow x ?_
    by_cases hxid : x = id
    · rw [hxid, ho]
      rfl
    · rw [← State.tables_live, Db.live, hobj, if_neg hxid] at hx
      rw [← State.tables_live]
      exact hx

/-- A new object below a live folder. -/
theorem Rooted.create (h : Rooted s) {d : ObjectId} (hnew : s.objects.lookup id = none)
    (hd : s.tables.LiveFolder d) (hobjects : s'.objects = s.objects.insert id row)
    (hparent : row.parentId = some d) (hlive : row.deletedAt = none)
    (hdepth : ∀ k, Ascends s.tables.Parent k d rootId → k + 1 < State.walkBound) : Rooted s' := by
  have hobj := tables_insert hobjects
  have hnone : s.tables.object id = none := (s.tables_object id).trans hnew
  have hdlive : (s.live d).isSome := by
    obtain ⟨q, hq, _⟩ := hd
    rw [← State.tables_live, hq]
    rfl
  have hdid : d ≠ id := by
    rintro rfl
    obtain ⟨q, hq, _⟩ := hd
    rw [(Db.live_eq_some.mp hq).1] at hnone
    cases hnone
  have hroot : id ≠ rootId := by
    rintro rfl
    obtain ⟨o, ho, _⟩ := h.tree.root
    rw [(Db.live_eq_some.mp ho).1] at hnone
    cases hnone
  have hold : ∀ a b, s.tables.Parent a b → a ≠ id := by
    rintro a b ⟨o, ho, _⟩ rfl
    rw [hnone] at ho
    cases ho
  have hkeep : ∀ a b, a ≠ id → s.tables.Parent a b → s'.tables.Parent a b := by
    rintro a b ha ⟨o, ho, hb⟩
    exact ⟨o, by rw [hobj, if_neg ha, ho], hb⟩
  have hedge : s'.tables.Parent id d := ⟨row, by rw [hobj, if_pos rfl], hparent⟩
  -- every path of the store is still there
  have hpath : ∀ {k x}, Ascends s.tables.Parent k x rootId → Ascends s'.tables.Parent k x rootId := by
    intro k x hx
    refine hx.transfer hkeep ?_
    intro b _ hb
    obtain ⟨c, hc, _⟩ := TransGen.head'_iff.mp hb
    exact hold b c hc
  constructor
  · refine h.tree.hang hroot hd hparent hlive ?_ ?_ hobj
    · intro o ho
      rw [hnone] at ho
      cases ho
    · -- nothing lies below a new object
      refine not_reaches_of_no_child hdid ?_
      rintro a ⟨o, ho, ha⟩
      rw [hobj] at ho
      by_cases haid : a = id
      · rw [if_pos haid, Option.some.injEq] at ho
        rw [← ho, hparent] at ha
        exact hdid (Option.some.inj ha)
      · rw [if_neg haid] at ho
        obtain ⟨q, hq, _⟩ := h.tree.parent a id ⟨o, ho, ha⟩
        rw [hnone] at hq
        cases hq
  · intro x hx
    obtain ⟨k, hk, hup⟩ := h.shallow d hdlive
    by_cases hxid : x = id
    · rw [hxid]
      exact ⟨k + 1, hdepth k hup, (hpath hup).head hedge⟩
    · rw [← State.tables_live, Db.live, hobj, if_neg hxid] at hx
      obtain ⟨j, hj, hxup⟩ := h.shallow x (by rw [← State.tables_live]; exact hx)
      exact ⟨j, hj, hpath hxup⟩

/-- An object that does not lie above its destination moves there. -/
theorem Rooted.move (h : Rooted s) {d : ObjectId} {o : ObjectRow} (ho : s.live id = some o)
    (hroot : id ≠ rootId) (hd : s.tables.LiveFolder d)
    (hobjects : s'.objects = s.objects.insert id row) (hkind : row.kind = o.kind)
    (hparent : row.parentId = some d) (hlive : row.deletedAt = none)
    (houtside : ¬ ReflTransGen s.tables.Parent d id)
    (hdepth : ∀ x j k, (s.live x).isSome → Ascends s.tables.Parent j x id →
      Ascends s.tables.Parent k d rootId → k + 1 + j < State.walkBound) : Rooted s' := by
  have hobj := tables_insert hobjects
  have ho' := State.live_eq_some.mp ho
  have hdlive : (s.live d).isSome := by
    obtain ⟨q, hq, _⟩ := hd
    rw [← State.tables_live, hq]
    rfl
  have hagree : ∀ a b, a ≠ id → s'.tables.Parent a b → s.tables.Parent a b := by
    rintro a b ha ⟨q, hq, hb⟩
    rw [hobj, if_neg ha] at hq
    exact ⟨q, hq, hb⟩
  have hkeep : ∀ a b, a ≠ id → s.tables.Parent a b → s'.tables.Parent a b := by
    rintro a b ha ⟨q, hq, hb⟩
    exact ⟨q, by rw [hobj, if_neg ha, hq], hb⟩
  have hedge : s'.tables.Parent id d := ⟨row, by rw [hobj, if_pos rfl], hparent⟩
  constructor
  · refine h.tree.hang hroot hd hparent hlive ?_ ?_ hobj
    · intro q hq
      rw [State.tables_object, ho'.1, Option.some.injEq] at hq
      rw [← hq]
      exact ⟨ho'.2, hkind⟩
    · intro hpath
      exact houtside (reflTransGen_of_agree hagree hpath)
  · intro x hx
    have hxlive : (s.live x).isSome := by
      by_cases hxid : x = id
      · rw [hxid, ho]
        rfl
      · rw [← State.tables_live, Db.live, hobj, if_neg hxid] at hx
        rw [← State.tables_live]
        exact hx
    obtain ⟨m, hm, hup⟩ := h.shallow x hxlive
    by_cases hbelow : ReflTransGen s.tables.Parent x id
    · -- first up to the object, then on from its destination
      obtain ⟨j, hj⟩ := Ascends.of_reflTransGen hbelow
      obtain ⟨k, _, hk⟩ := h.shallow d hdlive
      have hj' : Ascends s'.tables.Parent j x id := by
        refine hj.transfer hkeep ?_
        rintro b _ hb rfl
        exact h.tree.acyclic _ hb
      have hk' : Ascends s'.tables.Parent k d rootId := by
        refine hk.transfer hkeep ?_
        rintro b hb _ rfl
        exact houtside hb
      have hlt := hdepth x j k hxlive hj hk
      exact ⟨j + (k + 1), by omega, hj'.trans (hk'.head hedge)⟩
    · refine ⟨m, hm, hup.transfer hkeep ?_⟩
      rintro b hb _ rfl
      exact hbelow hb

/-- Burying turns the live ones of the ids into tombstones. -/
theorem bury_objects (now : Time) (ids : List ObjectId) (s : State) (x : ObjectId) :
    (State.bury now ids s).2.objects.lookup x =
      (if x ∈ ids then (s.live x).map fun o => some (o.tombstone now) else none).getD
        (s.objects.lookup x) := by
  induction ids generalizing s with
  | nil => rfl
  | cons id ids ih =>
    unfold State.bury
    cases hid : s.live id with
    | none =>
      simp only
      rw [ih]
      by_cases hx : x = id
      · rw [hx, hid]
        simp
      · simp [hx]
    | some entry =>
      simp only
      rw [ih]
      by_cases hx : x = id
      · -- what is buried is not live, so it is buried once
        have hdead : (s.putObject id (entry.tombstone now)).live id = none := by
          unfold State.live State.putObject
          rw [AList.lookup_insert]
          simp [ObjectRow.tombstone]
        rw [hx, hdead, hid]
        simp [State.putObject]
      · have hsame : (s.putObject id (entry.tombstone now)).objects.lookup x = s.objects.lookup x :=
          AList.lookup_insert_ne hx
        have hlive : (s.putObject id (entry.tombstone now)).live x = s.live x := by
          unfold State.live
          rw [hsame]
        rw [hsame, hlive]
        simp [hx]

/-- Deleting live objects together with everything live below them. -/
theorem Rooted.delete (h : Rooted s) {now : Time} {targets : List ObjectId}
    (hobjects : s'.objects = (State.bury now targets s).2.objects) (hroot : rootId ∉ targets)
    (hclosed : ∀ c p, s.tables.LiveChild c p → p ∈ targets → c ∈ targets) : Rooted s' := by
  have hobj : ∀ x, s'.tables.object x = (if x ∈ targets then
      (s.tables.live x).map fun o => some (o.tombstone now) else none).getD
        (s.tables.object x) := by
    intro x
    rw [State.tables_object, hobjects, bury_objects, State.tables_live, State.tables_object]
  -- a tombstone keeps its parent
  have hkeep : ∀ a b, s.tables.Parent a b → s'.tables.Parent a b := by
    rintro a b ⟨o, ho, hb⟩
    unfold Db.Parent
    rw [hobj]
    by_cases ha : a ∈ targets
    · rw [if_pos ha]
      cases hl : s.tables.live a with
      | none => exact ⟨o, ho, hb⟩
      | some q =>
        obtain rfl : q = o := Option.some.inj ((Db.live_eq_some.mp hl).1.symm.trans ho)
        exact ⟨q.tombstone now, rfl, hb⟩
    · rw [if_neg ha]
      exact ⟨o, ho, hb⟩
  constructor
  · exact h.tree.delete hroot (fun c o p hc hp hmem => hclosed c p ⟨o, hc, hp⟩ hmem) hobj
  · intro x hx
    -- what is live behind the delete was live before
    have hxlive : (s.live x).isSome := by
      rw [← State.tables_live, Db.live, hobj] at hx
      rw [← State.tables_live]
      by_cases hmem : x ∈ targets
      · cases hl : s.tables.live x with
        | some q => rfl
        | none =>
          rw [if_pos hmem, hl] at hx
          unfold Db.live at hl
          rw [Option.map_none, Option.getD_none, hl] at hx
          exact hx
      · rw [if_neg hmem] at hx
        exact hx
    obtain ⟨k, hk, hup⟩ := h.shallow x hxlive
    exact ⟨k, hk, hup.transfer (x := rootId) (fun a b _ hab => hkeep a b hab) fun b _ hb heq => by
      obtain ⟨c, hc, _⟩ := TransGen.head'_iff.mp hb
      exact h.tree.root_parent (heq ▸ hc)⟩

/-! ## Runs -/

/-- A creation takes a fresh id, and nothing comes to lie more than 1023 steps
below the root; refused mutations are free. -/
def Mutation.Fits (s : State) : Mutation → Prop
  | create cmd => checkCreate cmd s = some (.ok (), s) → s.objects.lookup cmd.id = none ∧
      ∀ k, Ascends s.tables.Parent k cmd.parentId rootId → k + 1 < State.walkBound
  | patch cmd => ∀ stored target d, readTarget cmd s = some (.ok (stored, target), s) →
      checkTarget cmd.id stored target s = some (.ok (), s) →
      target.parentChanged stored = true → target.parent = some d →
      ∀ x j k, (s.live x).isSome → Ascends s.tables.Parent j x cmd.id →
        Ascends s.tables.Parent k d rootId → k + 1 + j < State.walkBound
  | delete _ => True
  | commit _ => True

/-- A new store has the root only. -/
theorem new_lookup (now : Time) (id : ObjectId) :
    (State.new now).objects.lookup id = if id = rootId then some (rootRow now) else none := by
  show List.dlookup id ([⟨rootId, rootRow now⟩] : List (Σ _ : ObjectId, ObjectRow)) = _
  by_cases hid : id = rootId
  · rw [if_pos hid, hid, List.dlookup_cons_eq]
  · rw [if_neg hid, List.dlookup_cons_ne _ _ hid, List.dlookup_nil]

/-- It is a tree. -/
theorem Rooted.new (now : Time) : Rooted (State.new now) := by
  constructor
  · refine (treeInv_initialDb now).congr fun id => ?_
    rw [State.tables_object, new_lookup, object_initialDb]
    rfl
  · intro id hid
    obtain ⟨o, ho⟩ := Option.isSome_iff_exists.mp hid
    have ho := (State.live_eq_some.mp ho).1
    rw [new_lookup] at ho
    by_cases hroot : id = rootId
    · rw [hroot]
      exact ⟨0, by decide, .zero rootId⟩
    · rw [if_neg hroot] at ho
      cases ho

/-- A live folder of the store is one of the table. -/
theorem liveFolder_tables {d : ObjectId} {q : ObjectRow} (hq : s.live d = some q)
    (hkind : q.kind = .folder) : s.tables.LiveFolder d := ⟨q, (s.tables_live d).trans hq, hkind⟩

/-- A patch rewrites the object where it is, or moves it. -/
theorem Rooted.patch (h : Rooted s) {cmd : PatchObjectCommit} {stored : ObjectRow}
    {target : PatchTarget} (hfits : (Mutation.patch cmd).Fits s)
    (hread : readTarget cmd s = some (.ok (stored, target), s))
    (hcheck : checkTarget cmd.id stored target s = some (.ok (), s))
    (hobjects : s'.objects = s.objects.insert cmd.id (patchedRow stored target cmd.ctx.now)) :
    Rooted s' := by
  obtain ⟨hlive, htarget, _, hroot⟩ := readTarget_ok hread
  have hdeleted : stored.deletedAt = none := (State.live_eq_some.mp hlive).2
  by_cases hmoved : target.parentChanged stored = true
  · obtain ⟨d, q, hd, hq, hkind, hinside⟩ := checkTarget_moved hcheck hmoved
    have hidroot : cmd.id ≠ rootId := by
      intro hid
      have hparent := patchTarget_parent htarget
      rw [(hroot hid).1] at hparent
      unfold PatchTarget.parentChanged at hmoved
      rw [hparent] at hmoved
      simp at hmoved
    refine h.move hlive hidroot (liveFolder_tables hq hkind) hobjects rfl hd hdeleted ?_
      (hfits stored target d hread hcheck hmoved hd)
    intro hpath
    by_cases hfolder : stored.kind = .folder
    · exact hinside ⟨hfolder, h.isSelfOrDescendant (by rw [hq]; rfl) hpath⟩
    · -- nothing lies below a file
      rcases ReflTransGen.cases_tail hpath with hid | ⟨a, _, ha⟩
      · rw [← hid, hlive, Option.some.injEq] at hq
        rw [hq] at hfolder
        exact hfolder hkind
      · obtain ⟨p, hp, hpk⟩ := h.tree.parent a cmd.id ha
        rw [State.tables_object, (State.live_eq_some.mp hlive).1, Option.some.injEq] at hp
        rw [hp] at hfolder
        exact hfolder hpk
  · have hsame : target.parent = stored.parentId := by
      unfold PatchTarget.parentChanged at hmoved
      simpa using hmoved
    exact h.rewrite hlive hobjects rfl hsame hdeleted

/-- A delete takes the object and all below it, or an object that has nothing below. -/
theorem Rooted.bury (h : Rooted s) {cmd : DeleteObjectCommit} {targets : List ObjectId}
    (hcheck : checkDelete cmd s = some (.ok targets, s))
    (hobjects : s'.objects = (State.bury cmd.ctx.now targets s).2.objects) : Rooted s' := by
  obtain ⟨stored, hlive, hroot, htargets⟩ := checkDelete_ok hcheck
  rcases deleteTargets_ok htargets with ⟨_, _, found, hfound, rfl⟩ | ⟨hempty, rfl⟩
  · obtain ⟨found', hfound', hmem⟩ := descendants_spec h.tree (by rw [hlive]; rfl)
    rw [hfound, Option.some.injEq] at hfound'
    rw [← hfound'] at hmem
    refine h.delete hobjects ?_ fun c p hc hp => (hmem c).mpr (.head hc ((hmem p).mp hp))
    -- the root is above everything, so it is not below the target
    intro hin
    rcases ReflTransGen.cases_head (parents_of_liveChildren ((hmem _).mp hin)) with he | ⟨b, hb, _⟩
    · exact hroot he.symm
    · exact h.tree.root_parent hb
  · refine h.delete hobjects (by simpa using hroot.symm) ?_
    intro c p hc hp
    rw [List.mem_singleton] at hp
    subst hp
    -- an object that is no folder, or an empty folder, has no live child
    exfalso
    by_cases hfolder : stored.kind = .folder
    · have hmem := State.mem_liveChildren.mpr hc
      rw [hempty hfolder] at hmem
      cases hmem
    · obtain ⟨o, ho, hp⟩ := hc
      obtain ⟨q, hq, hqk⟩ := h.tree.live c o cmd.id ho hp
      rw [State.tables_live, hlive, Option.some.injEq] at hq
      rw [hq] at hfolder
      exact hfolder hqk

/-- **Step.** A mutation that fits keeps the tree, whether it succeeds or not. -/
theorem Rooted.step (h : Rooted s) {m : Mutation} {r : DomainResult StoredResponse}
    (hfits : m.Fits s) (hrun : m.run s = some (r, s')) : Rooted s' := by
  -- either no row was written, or the checks were passed
  rcases Mutation.objects_cases hrun with hsame | hwrites
  · have hobj : ∀ id, s'.tables.object id = s.tables.object id := fun id => by
      rw [State.tables_object, State.tables_object, hsame]
    have hparent : s'.tables.Parent = s.tables.Parent := by
      funext a b
      unfold Db.Parent
      rw [hobj]
    constructor
    · exact h.tree.congr hobj
    · intro id hid
      rw [hparent]
      refine h.shallow id ?_
      unfold State.live at hid ⊢
      rwa [hsame] at hid
  · generalize hobjects : s'.objects = objects at hwrites
    cases hwrites with
    | create hcheck =>
      obtain ⟨hnew, hdepth⟩ := hfits hcheck
      obtain ⟨⟨q, hq, hkind⟩, _⟩ := checkCreate_ok.mp hcheck
      exact h.create hnew (liveFolder_tables hq hkind) hobjects rfl rfl hdepth
    | patch hread hcheck => exact h.patch hfits hread hcheck hobjects
    | delete hcheck => exact h.bury hcheck hobjects
    | commit hcheck =>
      obtain ⟨hlive, _⟩ := checkCommit_ok hcheck
      exact h.rewrite hlive hobjects rfl rfl (State.live_eq_some.mp hlive).2

/-- The live objects are a tree, its worklists end and its paths are rendered
in full. -/
structure IsTree (s : State) : Prop where
  acyclic : Acyclic s.tables.Parent
  reaches : ∀ id, (s.live id).isSome → ReflTransGen s.tables.LiveParent id rootId
  ends : ∀ id, (s.live id).isSome → ∃ found, s.descendants id = some found ∧
    ∀ x, x ∈ found.map Prod.snd ↔ ReflTransGen s.tables.LiveChild x id
  renders : ∀ id, (s.live id).isSome → ∃ names, NamesUp s.tables id names ∧
    s.renderPath id = .ok (joinSegments names)

/-- The invariant says what the result is about. -/
theorem Rooted.isTree (h : Rooted s) : IsTree s where
  acyclic := h.tree.acyclic
  reaches id hid := h.tree.reaches (by rw [State.tables_live]; exact hid)
  ends _ hid := descendants_spec h.tree hid
  renders id hid := by
    obtain ⟨k, hk, hup⟩ := h.shallow id hid
    obtain ⟨names, hnames, _, hseg⟩ := segments_of_ascends h.tree hup hk
    refine ⟨names, hnames, ?_⟩
    unfold State.renderPath
    rw [hseg]
    rfl

/-- Mutations that fit keep the tree of the in-memory store, however many there
are. -/
theorem memory_tree_kept {now : Time}
    (h : Visits Mutation.run (fun s m => m.Fits s) (State.new now) s) : IsTree s :=
  (h.invariant (Rooted.new now) fun _ _ _ _ hs hfits hrun => hs.step hfits hrun).isTree

/-! ## A store with few rows -/

/-- A walk meets every object at most once, so it is no longer than the table. -/
theorem Rooted.ascends_le {k : Nat} {x y : ObjectId} (h : Rooted s)
    (hk : Ascends s.tables.Parent k x y) : k ≤ s.objects.keys.length := by
  obtain ⟨path, hnodup, hlength, hpath⟩ := hk.nodes h.tree.acyclic
  have hsub : path ⊆ s.objects.keys := by
    intro a ha
    obtain ⟨b, hb, _⟩ := TransGen.head'_iff.mp (hpath a ha)
    obtain ⟨o, ho, _⟩ := State.tables_parent.mp hb
    rw [← AList.mem_keys, ← AList.lookup_isSome, ho]
    rfl
  rw [← hlength]
  exact (hnodup.subperm hsub).length_le

/-- No path through so few rows is longer than the walks. -/
def Mutation.isSmall (s : State) : Mutation → Bool
  | create cmd => (s.objects.lookup cmd.id).isNone &&
      decide (s.objects.keys.length + 1 < State.walkBound)
  | patch _ => decide (2 * s.objects.keys.length + 1 < State.walkBound)
  | delete _ => true
  | commit _ => true

/-- In a small store every mutation fits. -/
theorem Rooted.fits {m : Mutation} (h : Rooted s) (hm : m.isSmall s = true) : m.Fits s := by
  cases m with
  | create cmd =>
    obtain ⟨hfresh, hfew⟩ := Bool.and_eq_true_iff.mp hm
    have hfew := of_decide_eq_true hfew
    intro _
    refine ⟨Option.isNone_iff_eq_none.mp hfresh, fun k hk => ?_⟩
    have hle := h.ascends_le hk
    omega
  | patch cmd =>
    have hfew : 2 * s.objects.keys.length + 1 < State.walkBound := of_decide_eq_true hm
    intro stored target d _ _ _ _ x j k _ hj hk
    have hj := h.ascends_le hj
    have hk := h.ascends_le hk
    omega
  | delete cmd => exact trivial
  | commit cmd => exact trivial

/-- Runs mutations for as long as the store is small. -/
def runSmall : List Mutation → State → Option State
  | [], s => some s
  | m :: ms, s => if m.isSmall s then (m.run s).bind fun e => runSmall ms e.2 else none

/-- A run of a small store is a run whose mutations fit. -/
theorem visits_runSmall {now : Time} {ms : List Mutation}
    (h : Visits Mutation.run (fun s m => m.Fits s) (State.new now) s)
    (hms : runSmall ms s = some s') :
    Visits Mutation.run (fun s m => m.Fits s) (State.new now) s' := by
  induction ms generalizing s with
  | nil =>
    obtain rfl := Option.some.inj hms
    exact h
  | cons m ms ih =>
    unfold runSmall at hms
    split_ifs at hms with hm
    obtain ⟨⟨r, s₁⟩, hrun, hms⟩ := Option.bind_eq_some_iff.mp hms
    have hrooted : Rooted s :=
      h.invariant (Rooted.new now) fun _ _ _ _ hs hfits hrun => hs.step hfits hrun
    exact ih (h.call m (hrooted.fits hm) hrun) hms

/-- The context of a request without a key. -/
def unkeyed : MutationContext where
  now := 0
  requestId := "r"
  idempotencyKey := none
  idempotency := none
  idempotencyExpiresAt := 0
  render := fun _ => .ok .noContent

/-- A folder that is created without a key. -/
def newFolder (id parentId : ObjectId) (name : String) : CreateObjectCommit where
  id
  kind := .folder
  name
  parentId
  contentType := none
  metadata := .obj .nil
  ctx := unkeyed

/-- An object that is deleted without a key. -/
def dropFolder (id : ObjectId) (recursive : Bool) : DeleteObjectCommit where
  id
  ifMatch := none
  recursive
  ctx := unkeyed

/-- The folder `/a/b/c` is moved to `/d/e`, and `/a` is deleted with the rest below. -/
def movedAway : List Mutation := [
  .create (newFolder "a" rootId "a"),
  .create (newFolder "b" "a" "b"),
  .create (newFolder "c" "b" "c"),
  .create (newFolder "d" rootId "d"),
  .patch { id := "c", ifMatch := none, newName := some "e", newParentId := some "d"
           metadataPatch := none, ctx := unkeyed },
  .delete (dropFolder "a" true)]

/-- The folders of `movedAway` are created, moved and deleted. -/
theorem memory_tree_kept_movedAway : ∃ s, runSmall movedAway (State.new 0) = some s ∧
    s.renderPath "c" = .ok "/d/e" ∧ s.live "a" = none ∧ s.live "b" = none ∧ IsTree s := by
  obtain ⟨s, hs⟩ := Option.isSome_iff_exists.mp
    (by decide +kernel : (runSmall movedAway (State.new 0)).isSome = true)
  have hpath : (runSmall movedAway (State.new 0)).map (State.renderPath · "c") =
      some (.ok "/d/e") := by decide +kernel
  have hgone : (runSmall movedAway (State.new 0)).map
      (fun s => (s.live "a").isNone && (s.live "b").isNone) = some true := by decide +kernel
  rw [hs] at hpath hgone
  obtain ⟨ha, hb⟩ := Bool.and_eq_true_iff.mp (Option.some.inj hgone)
  exact ⟨s, hs, Option.some.inj hpath, Option.isNone_iff_eq_none.mp ha,
    Option.isNone_iff_eq_none.mp hb, memory_tree_kept (visits_runSmall .init hs)⟩

/-! ## A chain of folders -/

/-- The root, and below it one folder in the other. -/
def nested : Nat → ObjectId
  | 0 => rootId
  | n + 1 => String.ofList (List.replicate (n + 1) 'd')

/-- The folder at depth `n + 1`, in the one above it. -/
def nestedFolder (n : Nat) : CreateObjectCommit := newFolder (nested (n + 1)) (nested n) "d"

/-- Its row. -/
def nestedRow : Nat → ObjectRow
  | 0 => rootRow 0
  | n + 1 => createdRow (nestedFolder n)

/-- The ids are different. -/
theorem nested_injective {m n : Nat} (h : nested m = nested n) : m = n := by
  -- no id of only `d` is that of the root
  have hroot : ∀ k, nested (k + 1) ≠ rootId := by
    intro k hk
    have hlist := congrArg String.toList hk
    have hmem : 'r' ∈ List.replicate (k + 1) 'd' := by
      rw [show List.replicate (k + 1) 'd' = rootId.toList by simpa [nested] using hlist]
      decide
    exact absurd (List.eq_of_mem_replicate hmem) (by decide)
  cases m with
  | zero =>
    cases n with
    | zero => rfl
    | succ n => exact absurd h.symm (hroot n)
  | succ m =>
    cases n with
    | zero => exact absurd h (hroot m)
    | succ n =>
      have hlength := congrArg (fun s : String => s.toList.length) h
      simpa [nested] using hlength

/-- The store holds the root and the first `n` folders. -/
def Nested (n : Nat) (s : State) : Prop :=
  ∀ x o, s.objects.lookup x = some o ↔ ∃ k ≤ n, x = nested k ∧ o = nestedRow k

/-- The folder at depth `k`. -/
theorem Nested.lookup {n k : Nat} (h : Nested n s) (hk : k ≤ n) :
    s.objects.lookup (nested k) = some (nestedRow k) := (h _ _).mpr ⟨k, hk, rfl, rfl⟩

/-- It is live, -/
theorem Nested.live {n k : Nat} (h : Nested n s) (hk : k ≤ n) :
    s.live (nested k) = some (nestedRow k) :=
  State.live_eq_some.mpr ⟨h.lookup hk, by cases k <;> rfl⟩

/-- and `k` steps below the root. -/
theorem Nested.ascends {n k : Nat} (h : Nested n s) (hk : k ≤ n) :
    Ascends s.tables.Parent k (nested k) rootId := by
  induction k with
  | zero => exact .zero rootId
  | succ k ih =>
    exact (ih (by omega)).head (State.tables_parent.mpr ⟨nestedRow (k + 1), h.lookup hk, rfl⟩)

/-- One folder more can be created as deep as one likes. -/
theorem Nested.next {n : Nat} (h : Nested n s) : ∃ r s',
    (Mutation.create (nestedFolder n)).run s = some (r, s') ∧ Nested (n + 1) s' := by
  have hcheck : checkCreate (nestedFolder n) s = some (.ok (), s) := by
    rw [checkCreate_ok]
    constructor
    · exact ⟨nestedRow n, h.live (Nat.le_refl n), by cases n <;> rfl⟩
    · -- the last folder has no child yet
      unfold State.nameTaken
      rw [List.any_eq_false]
      intro e he
      obtain ⟨k, hk, _, hrow⟩ := (h e.1 e.2).mp (AList.mem_lookup_iff.mpr he)
      have hparent : e.2.parentId ≠ some (nested n) := by
        rw [hrow]
        cases k with
        | zero => simp [nestedRow, rootRow]
        | succ k =>
          intro heq
          have hkn : k = n := nested_injective (Option.some.inj heq)
          omega
      simp [hparent, nestedFolder, newFolder]
  obtain ⟨⟨r, s'⟩, hrun⟩ := Option.isSome_iff_exists.mp
    (((returns_change _).bind fun changes => finish_returns _ changes false :
      (change (State.appendChanges (nestedFolder n).ctx [.new (nested (n + 1)) Revision.initial .created])
        >>= fun changes => finish (nestedFolder n).ctx (some (nested (n + 1))) changes false :
          Call StoredResponse).Returns) (s.putObject (nested (n + 1)) (nestedRow (n + 1))))
  have hrun' : (Mutation.create (nestedFolder n)).run s = some (r, s') := by
    show (checkCreate (nestedFolder n) >>= _ : Call StoredResponse) s = _
    rw [bind_run hcheck]
    exact hrun
  have hobjects : s'.objects = s.objects.insert (nested (n + 1)) (nestedRow (n + 1)) :=
    ((appendChanges_keeps _ fun _ _ => rfl).bind fun changes =>
      finish_keeps (f := State.objects) _ changes false fun _ _ => rfl) _ r s' hrun
  refine ⟨r, s', hrun', ?_⟩
  intro x o
  rw [hobjects]
  by_cases hx : x = nested (n + 1)
  · rw [hx, AList.lookup_insert, Option.some.injEq]
    constructor
    · rintro rfl
      exact ⟨n + 1, Nat.le_refl _, rfl, rfl⟩
    · rintro ⟨k, _, hk, rfl⟩
      rw [nested_injective hk]
  · rw [AList.lookup_insert_ne hx, h]
    constructor
    · rintro ⟨k, hk, hxk, hok⟩
      exact ⟨k, by omega, hxk, hok⟩
    · rintro ⟨k, hk, hxk, hok⟩
      have hne : k ≠ n + 1 := fun he => hx (he ▸ hxk)
      exact ⟨k, by omega, hxk, hok⟩

/-- The root alone. -/
theorem nested_new : Nested 0 (State.new 0) := by
  intro x o
  rw [new_lookup]
  constructor
  · intro h
    by_cases hx : x = rootId
    · rw [if_pos hx, Option.some.injEq] at h
      exact ⟨0, Nat.le_refl _, hx, h.symm⟩
    · rw [if_neg hx] at h
      cases h
  · rintro ⟨k, hk, hx, ho⟩
    obtain rfl : k = 0 := by omega
    rw [show x = rootId from hx, if_pos rfl, ho]
    rfl

/-- Every depth is reached. -/
theorem nested_reached (n : Nat) : ∃ s, Visits Mutation.run (fun _ _ => True) (State.new 0) s ∧
    Nested n s := by
  induction n with
  | zero => exact ⟨State.new 0, .init, nested_new⟩
  | succ n ih =>
    obtain ⟨s, hs, hn⟩ := ih
    obtain ⟨r, s', hrun, hn'⟩ := hn.next
    exact ⟨s', hs.call _ trivial hrun, hn'⟩

/-- The path of the last of 1024 folders is not rendered any more. -/
theorem memory_tree_not_kept : ∃ s,
    Visits Mutation.run (fun _ _ => True) (State.new 0) s ∧ (s.live (nested 1024)).isSome ∧
      s.renderPath (nested 1024) = .error (.internal "object tree is cyclic") ∧ ¬ IsTree s := by
  obtain ⟨s, hs, hn⟩ := nested_reached 1024
  have hlive : (s.live (nested 1024)).isSome := by
    rw [hn.live (Nat.le_refl _)]
    rfl
  -- the walk gives up at the last folder
  have hpath : s.renderPath (nested 1024) = .error (.internal "object tree is cyclic") := by
    have hseg : segments s.objects State.walkBound (nested 1024) = _ :=
      segments_too_deep (hn.ascends (Nat.le_refl _)) (Nat.le_refl _)
    unfold State.renderPath
    rw [hseg]
    rfl
  refine ⟨s, hs, hlive, hpath, ?_⟩
  intro htree
  obtain ⟨names, _, hrender⟩ := htree.renders _ hlive
  rw [hpath] at hrender
  cases hrender

end AnyStore.Memory

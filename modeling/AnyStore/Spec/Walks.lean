import AnyStore.Spec.Tree

/-!
# Tree walks

The recursive queries compute what their names say: `ancestors` finds every
object above an object, cycles or not, and on a tree `descendants` lists a set
of live objects once each that is closed under live children.
-/

namespace AnyStore

open ReadCommitted Relation

variable {db : Db}

/-! ## Counting -/

theorem Db.length_le_keys {ids : List ObjectId} (hnodup : ids.Nodup)
    (hids : ∀ id ∈ ids, (db.object id).isSome) : ids.length ≤ db.keys.length := by
  have hinj : (ids.map Row.object).Nodup := hnodup.map fun a b h => Row.object.inj h
  have hsub : ids.map Row.object ⊆ db.keys := by
    intro r hr
    obtain ⟨id, hid, rfl⟩ := List.mem_map.mp hr
    exact AList.mem_keys.mp (AList.lookup_isSome.mp (hids id hid))
  have := (hinj.subperm hsub).length_le
  rwa [List.length_map] at this

theorem Db.parent_object {a b : ObjectId} (h : db.Parent a b) : (db.object a).isSome := by
  obtain ⟨o, ho, _⟩ := h
  rw [ho]
  rfl

/-! ## Ancestors -/

/-- The walk from `id` with the ids `visited` on the way to it: nothing above
`id` is missed, unless it was visited. -/
theorem Db.mem_up {n : Nat} {visited : List ObjectId} {id x : ObjectId}
    (hfuel : db.keys.length ≤ n + visited.length) (hnodup : (id :: visited).Nodup)
    (hrows : ∀ v ∈ visited, (db.object v).isSome)
    (hclosed : ∀ v ∈ visited, ∀ b, db.Parent v b → b ∈ id :: visited)
    (hpath : ReflTransGen db.Parent id x) (hx : (db.object x).isSome) :
    x ∈ db.up n visited id ∨ x ∈ visited := by
  have hid : (db.object id).isSome := by
    rcases ReflTransGen.cases_head hpath with rfl | ⟨b, hb, _⟩
    · exact hx
    · exact Db.parent_object hb
  have hrows' : ∀ v ∈ id :: visited, (db.object v).isSome := by
    intro v hv
    rcases List.mem_cons.mp hv with rfl | hv
    · exact hid
    · exact hrows v hv
  induction n generalizing visited id with
  | zero =>
    -- there are not that many rows
    have := Db.length_le_keys hnodup hrows'
    rw [List.length_cons] at this
    omega
  | succ n ih =>
    obtain ⟨o, ho⟩ := Option.isSome_iff_exists.mp hid
    cases hp : o.parentId with
    | none =>
      rw [Db.up, ho]
      simp only [hp]
      rcases ReflTransGen.cases_head hpath with rfl | ⟨b, ⟨o', ho', hb⟩, _⟩
      · exact .inl (List.mem_singleton_self _)
      · obtain rfl : o = o' := Option.some.inj (ho.symm.trans ho')
        rw [hp] at hb
        cases hb
    | some p =>
      have hpid : db.Parent id p := ⟨o, ho, hp⟩
      rw [Db.up, ho]
      simp only [hp]
      split
      · next hmem =>
        -- the parent was visited: the walk has closed a cycle
        have hall : ∀ y, ReflTransGen db.Parent id y → y ∈ id :: visited := by
          intro y hy
          induction hy with
          | refl => exact List.mem_cons_self ..
          | tail _ hR ih =>
            rcases List.mem_cons.mp ih with rfl | hv
            · exact Db.parent_functional _ _ _ hpid hR ▸ hmem
            · exact hclosed _ hv _ hR
        rcases List.mem_cons.mp (hall x hpath) with rfl | hv
        · exact .inl (List.mem_singleton_self _)
        · exact .inr hv
      · next hmem =>
        rcases ReflTransGen.cases_head hpath with rfl | ⟨b, hb, hpath⟩
        · exact .inl (List.mem_cons_self ..)
        · obtain rfl : p = b := Db.parent_functional _ _ _ hpid hb
          have hclosed' : ∀ v ∈ id :: visited, ∀ b, db.Parent v b → b ∈ p :: id :: visited := by
            intro v hv c hc
            rcases List.mem_cons.mp hv with rfl | hv
            · obtain rfl : p = c := Db.parent_functional _ _ _ hpid hc
              exact List.mem_cons_self ..
            · exact List.mem_cons_of_mem _ (hclosed v hv c hc)
          have hpobj : (db.object p).isSome := by
            rcases ReflTransGen.cases_head hpath with rfl | ⟨b, hb, _⟩
            · exact hx
            · exact Db.parent_object hb
          rcases ih (by rw [List.length_cons]; omega) (List.nodup_cons.mpr ⟨hmem, hnodup⟩) hrows'
            hclosed' hpath hpobj (List.forall_mem_cons.mpr ⟨hpobj, hrows'⟩) with hup | hv
          · exact .inl (List.mem_cons_of_mem _ hup)
          · rcases List.mem_cons.mp hv with rfl | hv
            · exact .inl (List.mem_cons_self ..)
            · exact .inr hv

/-- What lies above an object is among its ancestors. -/
theorem Db.mem_ancestors {id x : ObjectId} (hpath : ReflTransGen db.Parent id x)
    (hx : (db.object x).isSome) : x ∈ db.ancestors id :=
  (Db.mem_up (by simp) (by simp) (by simp) (by simp) hpath hx).resolve_right List.not_mem_nil

/-! ## Descendants -/

theorem Db.mem_liveChildren {c p : ObjectId} :
    c ∈ db.liveChildren p ↔ ∃ o, db.live c = some o ∧ o.parentId = some p := by
  rw [Db.liveChildren, List.mem_filter, decide_eq_true_eq, Option.bind_eq_some_iff]
  constructor
  · exact And.right
  · rintro ⟨o, ho, hp⟩
    exact ⟨Db.mem_objectIds.mpr (by rw [(Db.live_eq_some.mp ho).1]; rfl), o, ho, hp⟩

theorem Db.parent_of_mem_liveChildren {c p : ObjectId} (h : c ∈ db.liveChildren p) :
    db.Parent c p := by
  obtain ⟨o, ho, hp⟩ := Db.mem_liveChildren.mp h
  exact ⟨o, (Db.live_eq_some.mp ho).1, hp⟩

theorem Db.nodup_objectIds : db.objectIds.Nodup := by
  refine List.Nodup.filterMap (fun r r' id hr hr' => ?_) db.nodupKeys
  cases r <;> cases r' <;> simp_all

theorem Db.nodup_liveChildren (p : ObjectId) : (db.liveChildren p).Nodup :=
  Db.nodup_objectIds.filter _

/-- Every entry of the walk lies below where it starts, at the depth it says. -/
theorem Db.ascends_of_mem_down {n depth k : Nat} {visited : List ObjectId} {id x : ObjectId}
    (h : (k, x) ∈ db.down n depth visited id) :
    ∃ j, k = depth + j ∧ Ascends db.Parent j x id := by
  induction n generalizing depth visited id with
  | zero => cases h
  | succ n ih =>
    rw [Db.down, List.mem_cons, List.mem_flatMap] at h
    rcases h with h | ⟨c, hc, h⟩
    · cases h
      exact ⟨0, rfl, .zero _⟩
    · obtain ⟨j, rfl, hj⟩ := ih h
      exact ⟨j + 1, by omega, .succ hj (Db.parent_of_mem_liveChildren (List.mem_of_mem_filter hc))⟩

/-- Every entry of the walk but the first is live. -/
theorem Db.live_of_mem_down {n depth k : Nat} {visited : List ObjectId} {id x : ObjectId}
    (h : (k, x) ∈ db.down n depth visited id) : x = id ∨ (db.live x).isSome := by
  induction n generalizing depth visited id with
  | zero => cases h
  | succ n ih =>
    rw [Db.down, List.mem_cons, List.mem_flatMap] at h
    rcases h with h | ⟨c, hc, h⟩
    · cases h
      exact .inl rfl
    · obtain ⟨o, ho, _⟩ := Db.mem_liveChildren.mp (List.mem_of_mem_filter hc)
      rcases ih h with rfl | hx
      · exact .inr (by rw [ho]; rfl)
      · exact .inr hx

/-- The walk gets to every entry but the first from its parent. -/
theorem Db.parent_mem_down {n depth k : Nat} {visited : List ObjectId} {id x : ObjectId}
    (h : (k, x) ∈ db.down n depth visited id) :
    x = id ∨ ∃ k' p, (k', p) ∈ db.down n depth visited id ∧ x ∈ db.liveChildren p := by
  induction n generalizing depth visited id with
  | zero => cases h
  | succ n ih =>
    rw [Db.down, List.mem_cons, List.mem_flatMap] at h
    rcases h with h | ⟨c, hc, h⟩
    · cases h
      exact .inl rfl
    · refine .inr ?_
      rcases ih h with rfl | ⟨k', p, hp, hx⟩
      · exact ⟨depth, id, List.mem_cons_self .., List.mem_of_mem_filter hc⟩
      · exact ⟨k', p, List.mem_cons_of_mem _ (List.mem_flatMap.mpr ⟨c, hc, hp⟩), hx⟩

/-- The walk lists no object twice. -/
theorem Db.nodup_down (hF : Forest db.Parent) {n depth : Nat} {visited : List ObjectId}
    {id : ObjectId} : ((db.down n depth visited id).map Prod.snd).Nodup := by
  induction n generalizing depth visited id with
  | zero => exact List.nodup_nil
  | succ n ih =>
    have hbelow : ∀ c ∈ (db.liveChildren id).filter (· ∉ id :: visited), ∀ x,
        x ∈ (db.down n (depth + 1) (id :: visited) c).map Prod.snd →
        ∃ j, Ascends db.Parent j x c ∧ Ascends db.Parent (j + 1) x id := by
      intro c hc x hx
      obtain ⟨⟨k, x⟩, hk, rfl⟩ := List.mem_map.mp hx
      obtain ⟨j, _, hj⟩ := Db.ascends_of_mem_down hk
      exact ⟨j, hj, .succ hj (Db.parent_of_mem_liveChildren (List.mem_of_mem_filter hc))⟩
    rw [Db.down, List.map_cons, List.map_flatMap, List.nodup_cons, List.nodup_flatMap]
    refine ⟨fun hmem => ?_, fun c _ => ih, ?_⟩
    · obtain ⟨c, hc, hx⟩ := List.mem_flatMap.mp hmem
      obtain ⟨j, _, hj⟩ := hbelow c hc id hx
      have := hF.ascends_unique hj (.zero id)
      omega
    · refine ((Db.nodup_liveChildren id).filter _).imp_of_mem fun {c c'} hc hc' hne x hx hx' => ?_
      -- an object below two children would hang at one depth below both
      obtain ⟨j, hj, hj₁⟩ := hbelow c hc x hx
      obtain ⟨j', hj', hj₁'⟩ := hbelow c' hc' x hx'
      obtain rfl : j = j' := by
        have := hF.ascends_unique hj₁ hj₁'
        omega
      exact hne (hF.ascends_eq hj hj')

/-- The walk is closed under live children. -/
theorem Db.down_closed (hF : Forest db.Parent) {n depth k : Nat} {visited : List ObjectId}
    {id p c : ObjectId} (hfuel : db.keys.length ≤ n + visited.length)
    (hid : (db.object id).isSome) (hnodup : visited.Nodup)
    (hvisited : ∀ v ∈ visited, (db.object v).isSome ∧ TransGen db.Parent id v)
    (hp : (k, p) ∈ db.down n depth visited id) (hc : c ∈ db.liveChildren p) :
    ∃ k', (k', c) ∈ db.down n depth visited id := by
  induction n generalizing depth visited id with
  | zero => cases hp
  | succ n ih =>
    have hself : id ∉ visited := fun h => hF.acyclic id (hvisited id h).2
    have hnodup' : (id :: visited).Nodup := List.nodup_cons.mpr ⟨hself, hnodup⟩
    -- a child of `id` is not on the way to `id`
    have habove : ∀ c', c' ∈ db.liveChildren id → ∀ v ∈ id :: visited,
        (db.object v).isSome ∧ TransGen db.Parent c' v := by
      intro c' hc' v hv
      have hedge := TransGen.single (Db.parent_of_mem_liveChildren hc')
      rcases List.mem_cons.mp hv with rfl | hv
      · exact ⟨hid, hedge⟩
      · exact ⟨(hvisited v hv).1, hedge.trans (hvisited v hv).2⟩
    have hnew : ∀ c', c' ∈ db.liveChildren id → c' ∉ id :: visited := fun c' hc' hmem =>
      hF.acyclic c' (habove c' hc' c' hmem).2
    rw [Db.down, List.mem_cons, List.mem_flatMap] at hp
    rcases hp with hp | ⟨c', hc', hp⟩
    · cases hp
      have hcobj := Db.parent_object (Db.parent_of_mem_liveChildren hc)
      -- there is fuel for one more level
      have hlen := Db.length_le_keys (List.nodup_cons.mpr ⟨hnew c hc, hnodup'⟩)
        (List.forall_mem_cons.mpr ⟨hcobj, fun v hv => (habove c hc v hv).1⟩)
      rw [List.length_cons, List.length_cons] at hlen
      obtain ⟨m, rfl⟩ : ∃ m, n = m + 1 := ⟨n - 1, by omega⟩
      refine ⟨k + 1, ?_⟩
      rw [Db.down, List.mem_cons, List.mem_flatMap]
      refine .inr ⟨c, ?_, ?_⟩
      · exact List.mem_filter.mpr ⟨hc, by simpa using hnew c hc⟩
      · rw [Db.down]
        exact List.mem_cons_self ..
    · have hchild := List.mem_of_mem_filter hc'
      obtain ⟨k', hk'⟩ := ih (by rw [List.length_cons]; omega)
        (Db.parent_object (Db.parent_of_mem_liveChildren hchild)) hnodup' (habove c' hchild) hp
      exact ⟨k', by
        rw [Db.down, List.mem_cons, List.mem_flatMap]
        exact .inr ⟨c', hc', hk'⟩⟩

instance : Std.Total walkOrder where
  total a b := by
    rcases lt_trichotomy a.1 b.1 with h | h | h
    · exact .inr (.inl h)
    · exact (String.le_total a.2 b.2).imp (fun hle => .inr ⟨h.symm, hle⟩) fun hle => .inr ⟨h, hle⟩
    · exact .inl (.inl h)

instance : IsTrans (Nat × ObjectId) walkOrder where
  trans a b c hab hbc := by
    rcases hab with hab | ⟨hab, hle⟩ <;> rcases hbc with hbc | ⟨hbc, hle'⟩
    · exact .inl (hbc.trans hab)
    · exact .inl (hbc ▸ hab)
    · exact .inl (hab ▸ hbc)
    · exact .inr ⟨hbc.trans hab, String.le_trans hle hle'⟩

/-- What a walk down from a live object finds. -/
structure Subtree (db : Db) (id : ObjectId) (ids : List ObjectId) : Prop where
  self : id ∈ ids
  nodup : ids.Nodup
  live : ∀ x ∈ ids, (db.live x).isSome
  below : ∀ x ∈ ids, ReflTransGen db.Parent x id
  closed : ∀ c o p, db.live c = some o → o.parentId = some p → p ∈ ids → c ∈ ids
  parented : ∀ x ∈ ids, x = id ∨ ∃ p ∈ ids, db.LiveChild x p
  ordered : ids.Pairwise fun a b => ¬ db.LiveChild b a

theorem TreeInv.subtree (h : TreeInv db) {id : ObjectId} (hid : (db.live id).isSome) :
    Subtree db id (db.descendants id) := by
  have hobj : (db.object id).isSome := by
    obtain ⟨o, ho⟩ := Option.isSome_iff_exists.mp hid
    rw [(Db.live_eq_some.mp ho).1]
    rfl
  have hmem : ∀ x, x ∈ db.descendants id ↔ ∃ k, (k, x) ∈ db.down db.keys.length 0 [] id := by
    intro x
    rw [Db.descendants, if_pos hid, List.mem_map]
    constructor
    · rintro ⟨⟨k, x⟩, hk, rfl⟩
      exact ⟨k, (List.mem_insertionSort _).mp hk⟩
    · rintro ⟨k, hk⟩
      exact ⟨(k, x), (List.mem_insertionSort _).mpr hk, rfl⟩
  refine ⟨(hmem id).mpr ⟨0, ?_⟩, ?_, fun x hx => ?_, fun x hx => ?_, fun c o p hc hp hpm => ?_,
    fun x hx => ?_, ?_⟩
  · have hlen := Db.length_le_keys (List.nodup_singleton id)
      (List.forall_mem_singleton.mpr hobj)
    obtain ⟨m, hm⟩ : ∃ m, db.keys.length = m + 1 := ⟨db.keys.length - 1, by simp at hlen; omega⟩
    rw [hm, Db.down]
    exact List.mem_cons_self ..
  · rw [Db.descendants, if_pos hid]
    exact ((List.perm_insertionSort walkOrder _).map Prod.snd).nodup_iff.mpr
      (Db.nodup_down h.forest)
  · obtain ⟨k, hk⟩ := (hmem x).mp hx
    rcases Db.live_of_mem_down hk with rfl | hlive
    · exact hid
    · exact hlive
  · obtain ⟨k, hk⟩ := (hmem x).mp hx
    obtain ⟨j, _, hj⟩ := Db.ascends_of_mem_down hk
    exact hj.reflTransGen
  · obtain ⟨k, hk⟩ := (hmem p).mp hpm
    obtain ⟨k', hk'⟩ := Db.down_closed h.forest (by simp) hobj List.nodup_nil (by simp) hk
      (Db.mem_liveChildren.mpr ⟨o, hc, hp⟩)
    exact (hmem c).mpr ⟨k', hk'⟩
  · obtain ⟨k, hk⟩ := (hmem x).mp hx
    rcases Db.parent_mem_down hk with rfl | ⟨k', p, hp, hxp⟩
    · exact .inl rfl
    · exact .inr ⟨p, (hmem p).mpr ⟨k', hp⟩, Db.mem_liveChildren.mp hxp⟩
  · rw [Db.descendants, if_pos hid, List.pairwise_map]
    refine (List.pairwise_insertionSort walkOrder _).imp_of_mem ?_
    rintro ⟨k, a⟩ ⟨k', b⟩ ha hb hle ⟨o, ho, hpar⟩
    -- a child lies deeper than its parent
    obtain ⟨j, hj, hascends⟩ := Db.ascends_of_mem_down ((List.mem_insertionSort _).mp ha)
    obtain ⟨j', hj', hascends'⟩ := Db.ascends_of_mem_down ((List.mem_insertionSort _).mp hb)
    have hparent : db.Parent b a := ⟨o, (Db.live_eq_some.mp ho).1, hpar⟩
    have hlen := h.forest.ascends_unique hascends' (hascends.head hparent)
    have hle : k' < k ∨ k' = k ∧ a ≤ b := hle
    omega

/-- A subtree other than the whole tree does not contain the root. -/
theorem Subtree.root_not_mem {id : ObjectId} {ids : List ObjectId} (h : Subtree db id ids)
    (hinv : TreeInv db) (hid : id ≠ rootId) : rootId ∉ ids := by
  intro hmem
  rcases ReflTransGen.cases_head (h.below _ hmem) with he | ⟨b, hb, _⟩
  · exact hid he.symm
  · exact hinv.root_parent hb

end AnyStore

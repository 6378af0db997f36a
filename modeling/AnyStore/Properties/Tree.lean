import AnyStore.Refinement.System

/-!
# The committed tree

In every committed state the live objects form a tree below the root, whatever
was created, moved, renamed and deleted at the same time.

## Results

* `committed_tree`: no cycle among the parents, every live object reaches the
  root through live folders, and no two live children of a folder share a name.
  Every run, under either adapter and any rule of the setting.

## Assumptions

None beyond the model of the store: statements at READ COMMITTED, row locks, the
advisory lock and the unique index. Any call may fail from outside, and any
process may die between two of its calls.
-/

namespace AnyStore

open ReadCommitted Relation

variable {S : Setting} {c : System}

/-- The live objects are a tree of folders with files as leaves. -/
structure IsTree (db : Db) : Prop where
  acyclic : Acyclic db.Parent
  reaches : ∀ id, (db.live id).isSome → ReflTransGen db.LiveParent id rootId
  siblings : ∀ a b p x y, db.live a = some x → db.live b = some y → x.parentId = some p →
    y.parentId = some p → x.name = y.name → a = b

/-- The unique index on the names of live objects. -/
theorem StoreInv.siblings {s : DbState} (h : StoreInv S s) {a b p : ObjectId} {x y : ObjectRow}
    (hx : Db.live s.db a = some x) (hy : Db.live s.db b = some y) (hxp : x.parentId = some p)
    (hyp : y.parentId = some p) (hname : x.name = y.name) : a = b := by
  -- what the index holds is the pair of parent and name, for live objects only
  by_contra hne
  obtain ⟨ha, hxd⟩ := Db.live_eq_some.mp hx
  obtain ⟨hb, hyd⟩ := Db.live_eq_some.mp hy
  have hkey : ∀ {id : ObjectId} {o : ObjectRow}, Db.object s.db id = some o → o.deletedAt = none →
      o.parentId = some p → keyOf liveNameUq (.object id) s.db = some (p, o.name) := by
    intro id o ho hd hp
    have hrow : s.db.lookup (.object id) = some o := ho
    rw [keyOf, hrow, Option.bind_some, liveNameUq, hd, hp]
    rfl
  -- two different rows have no key in common
  rcases h.engine.unique (.object a) (.object b) (fun he => hne (Row.object.inj he)) with hnone | hk
  · rw [hkey ha hxd hxp] at hnone
    cases hnone
  · rw [hkey ha hxd hxp, hkey hb hyd hyp, hname] at hk
    exact hk rfl

/-- **The tree.** The invariant holds of the committed rows at every point of a run. -/
theorem committed_tree (h : S.Runs c) : IsTree c.state.db where
  acyclic := h.storeInv.treeInv.acyclic
  reaches _ hid := h.storeInv.treeInv.reaches hid
  siblings _ _ _ _ _ hx hy hxp hyp hname := h.storeInv.siblings hx hy hxp hyp hname

/-- Two folders are created at the same time; the second waits for the first
one's Change-order lock. -/
def twoFolders : List (Move Request (Choice Row Env)) :=
  .spawn 0 (sampleCreate none "a" .folder "A" 1) :: .spawn 1 (sampleCreate none "b" .folder "B" 2) ::
    (steps 0 6 {} ++ steps 1 5 {} ++ steps 0 3 {} ++ steps 1 4 {})

/-- Both creates of `twoFolders` are committed, one after the other. -/
theorem committed_tree_twoFolders : ∃ c, (Setting.free (sampleApp .sqlx) 0).Runs c ∧
    c.state.wal.length = 2 ∧ IsTree c.state.db := by
  obtain ⟨c, hc, hlen⟩ := Setting.free_runs (sampleApp .sqlx) 0 twoFolders
    (fun c => c.state.wal.length) (a := 2) (by decide +kernel)
  exact ⟨c, hc, hlen, committed_tree hc⟩

end AnyStore

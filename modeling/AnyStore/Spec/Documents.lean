import AnyStore.Spec.Metadata
import AnyStore.Spec.Rows

/-!
# Documents under patches

The metadata of a row is a JSON object from the start, and a patch makes another
object of it, the same one in both adapters.
-/

namespace AnyStore

open ReadCommitted

variable {S : Setting} {cmd : PatchObjectCommit} {m : Members} {current : ObjectRow}

/-! ## Targets -/

theorem foldl_deleteKey (remove : List String) (m : Members) :
    remove.foldl Json.deleteKey (.obj m) = .obj (remove.foldl (fun m k => m.remove k) m) := by
  induction remove generalizing m with
  | nil => rfl
  | cons k remove ih => exact ih (m.remove k)

/-- The patch that an adapter applies: the payload of a call is `jsonb`. -/
def Adapter.sent (a : Adapter) (patch : MetadataPatch) : MetadataPatch :=
  match a with
  | .sqlx => patch
  | .rpc => { patch with set := patch.set.written }

theorem applyMetadataPatch_obj (a : Adapter) (patch : MetadataPatch) :
    a.applyMetadataPatch (.obj m) patch = .ok (.obj ((a.sent patch).applied m)) := by
  cases a with
  | sqlx => rfl
  | rpc => exact congrArg Except.ok (foldl_deleteKey patch.remove (patch.set.written.insertAll m))

/-- Where it is written, what was sent and what was meant are the same. -/
theorem Adapter.lookup_sent (a : Adapter) (patch : MetadataPatch) (old : Option Json)
    (key : String) : ((a.sent patch).lookup old key).map Json.written =
      (patch.lookup old key).map Json.written := by
  cases a with
  | sqlx => rfl
  | rpc =>
    unfold Adapter.sent MetadataPatch.lookup
    by_cases hkey : key ∈ patch.remove
    · rw [if_pos hkey, if_pos hkey]
    · rw [if_neg hkey, if_neg hkey, Members.get?_asMap_written]
      cases patch.set.asMap.get? key with
      | none => rfl
      | some x => exact congrArg some x.written_written

theorem patchTarget_obj (a : Adapter) (hm : current.metadata = .obj m) :
    patchTarget a cmd current = .ok {
      name := cmd.newName.getD current.name
      parent := cmd.newParentId.or current.parentId
      metadata := .obj (cmd.metadataPatch.elim m fun patch => (a.sent patch).applied m) } := by
  unfold patchTarget
  cases hpatch : cmd.metadataPatch with
  | none =>
    rw [hm]
    rfl
  | some patch =>
    rw [hm]
    simp only [applyMetadataPatch_obj]
    rfl

/-! ## Rows -/

/-- The application has checked that a new object gets a document. -/
def Label.Documented : Label → Prop
  | .createObject cmd => ∃ m, cmd.metadata = .obj m
  | _ => True

/-- A document that an operation holds is the one of the row, read or as it is. -/
theorem Adapter.held_obj {a : Adapter} {o held : ObjectRow} (h : a.held o = some held)
    (ho : ∃ m, o.metadata = .obj m) : ∃ m, held.metadata = .obj m := by
  obtain ⟨m, hm⟩ := ho
  cases a with
  | sqlx =>
    obtain ⟨metadata, hread, rfl⟩ := Option.map_eq_some_iff.mp h
    rw [hm] at hread
    obtain ⟨n, _, rfl⟩ := Option.map_eq_some_iff.mp hread
    exact ⟨n, rfl⟩
  | rpc =>
    obtain rfl := Option.some.inj h
    exact ⟨m, hm⟩

theorem PatchTarget.metadata_obj {a : Adapter} {cmd : PatchObjectCommit} {o : ObjectRow}
    {target : PatchTarget} (ho : ∃ m, o.metadata = .obj m)
    (htarget : patchTarget a cmd o = .ok target) : ∃ m, target.metadata = .obj m := by
  obtain ⟨m, hm⟩ := ho
  rw [patchTarget_obj a hm, Except.ok.injEq] at htarget
  rw [← htarget]
  exact ⟨_, rfl⟩

/-- The metadata of every row is a JSON object. -/
theorem Serial.documented {w : World} {wal : Journal} (h : Serial S w wal)
    (hlabels : ∀ e ∈ wal, e.1.Documented) {id : ObjectId} {o : ObjectRow}
    (ho : (S.rows wal).object id = some o) : ∃ m, o.metadata = .obj m := by
  refine Serial.rows_induction (Q := Label.Documented) (P := fun _ o => ∃ m, o.metadata = .obj m)
    ?_ ?_ h hlabels ho
  · intro o ho
    rw [object_initialDb, if_pos rfl, Option.some.injEq] at ho
    rw [← ho]
    exact ⟨_, rfl⟩
  · intro label db x o' hlabel hdb hwrite
    cases hwrite with
    | same ho => exact hdb _ ho
    | content _ _ _ ho | deleted _ ho =>
      obtain ⟨m, hm⟩ := hdb _ ho
      exact ⟨m, hm⟩
    | created cmd hcmd =>
      obtain ⟨m, hm⟩ : (Label.createObject cmd).Documented := hcmd ▸ hlabel
      refine ⟨m.written, ?_⟩
      show cmd.metadata.written = _
      rw [hm]
      rfl
    | @patched cmd target o held _ _ ho hheld _ htarget =>
      obtain ⟨m, hm⟩ := PatchTarget.metadata_obj (Adapter.held_obj hheld (hdb _ ho)) htarget
      refine ⟨m.written, ?_⟩
      show target.metadata.written = _
      rw [hm]
      rfl

end AnyStore

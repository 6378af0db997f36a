import AnyStore.Spec.Metadata

/-!
# Metadata that a column takes

The validators look at the keys at the top of a document. `jsonb` refuses U+0000
anywhere in it, and `serde_json` does not read every text that `jsonb` prints:
numbers near the largest double and documents that are nested too deep are
refused, and with them the row.

## Results

* `accepted_metadata_storable`: an accepted document, and an accepted patch of
  one, goes through storage if and only if every value under a key at the top
  does.
* `accepted_metadata_not_storable`: the validators accept documents that do not.

## Assumptions

A document is a map, as `serde_json` makes it: its keys stand once.
-/

namespace AnyStore

variable {key k : String} {x : Json} {m set : Members} {patch : MetadataPatch}

/-! ## Keys of a map -/

/-- The keys are those that are found. -/
theorem Members.mem_keys : key ∈ m.keys ↔ (m.get? key).isSome := by
  induction m using Members.ind with
  | nil => simp [Members.keys]
  | cons k x m ih =>
    rw [Members.keys, List.mem_cons, ih, Members.get?_cons]
    by_cases hk : k = key
    · simp [hk]
    · rw [if_neg hk]
      constructor
      · rintro (heq | hsome)
        · exact absurd heq.symm hk
        · exact hsome
      · exact Or.inr

/-- A key with a value is one of them. -/
theorem Members.mem_keys_of_get? (h : m.get? key = some x) : key ∈ m.keys := by
  rw [Members.mem_keys, h]
  rfl

/-- A new key comes last, an old one stays where it is. -/
theorem Members.keys_insert (m : Members) (k : String) (x : Json) :
    (m.insert k x).keys = if k ∈ m.keys then m.keys else m.keys ++ [k] := by
  induction m using Members.ind with
  | nil => rfl
  | cons l y m ih =>
    unfold Members.insert
    by_cases hl : l = k
    · rw [if_pos hl, Members.keys, Members.keys, hl, if_pos (List.mem_cons_self ..)]
    · rw [if_neg hl, Members.keys, Members.keys, ih]
      by_cases hk : k ∈ m.keys
      · rw [if_pos hk, if_pos (List.mem_cons_of_mem l hk)]
      · rw [if_neg hk, if_neg, List.cons_append]
        intro hmem
        rcases List.mem_cons.mp hmem with rfl | hmem
        · exact hl rfl
        · exact hk hmem

/-- Removing a key removes no other. -/
theorem Members.keys_remove (m : Members) (k : String) :
    (m.remove k).keys = m.keys.filter (· ≠ k) := by
  induction m using Members.ind with
  | nil => rfl
  | cons l y m ih =>
    unfold Members.remove
    by_cases hl : l = k
    · rw [if_pos hl, ih, Members.keys, List.filter_cons_of_neg (by simp [hl])]
    · rw [if_neg hl, Members.keys, ih, Members.keys, List.filter_cons_of_pos (by simp [hl])]

/-- Keys still stand once, -/
theorem Members.nodup_insert (h : m.keys.Nodup) : (m.insert k x).keys.Nodup := by
  rw [Members.keys_insert]
  by_cases hk : k ∈ m.keys
  · rw [if_pos hk]
    exact h
  · rw [if_neg hk]
    rw [← List.concat_eq_append]
    exact h.concat hk

/-- however many are set. -/
theorem Members.nodup_insertAll (h : m.keys.Nodup) : (set.insertAll m).keys.Nodup := by
  induction set using Members.ind generalizing m with
  | nil => exact h
  | cons k x set ih => exact ih (Members.nodup_insert h)

/-- Each key of a map that has been patched still stands once. -/
theorem MetadataPatch.nodup_applied (h : m.keys.Nodup) : (patch.applied m).keys.Nodup := by
  unfold MetadataPatch.applied
  have hremoved : ∀ (remove : List String) (m : Members), m.keys.Nodup →
      (remove.foldl (fun m k => m.remove k) m).keys.Nodup := by
    intro remove
    induction remove with
    | nil => exact fun m h => h
    | cons k remove ih =>
      intro m h
      refine ih _ ?_
      rw [Members.keys_remove]
      exact h.filter _
  exact hremoved _ _ (Members.nodup_insertAll h)

/-- A map whose keys stand once is the map that its members make. -/
theorem Members.get?_asMap (h : set.keys.Nodup) : set.asMap.get? key = set.get? key := by
  induction set using Members.ind with
  | nil => rfl
  | cons k x set ih =>
    rw [Members.keys, List.nodup_cons] at h
    have hinsert := @Members.get?_insertAll_from key (Members.nil.insert k x) set
    show (set.insertAll (Members.nil.insert k x)).get? key = _
    rw [hinsert, ih h.2, Members.get?_insert, Members.get?_nil, Members.get?_cons]
    by_cases hk : k = key
    · have hnone : set.get? key = none := by
        rw [← Option.not_isSome_iff_eq_none, ← Members.mem_keys, ← hk]
        exact h.1
      rw [if_pos hk, if_pos hk, hnone, Option.none_or]
    · rw [if_neg hk, if_neg hk, Option.or_none]

/-- U+0000 is in a map if it is in one of its keys or below one. -/
theorem Members.hasNul_iff (h : m.keys.Nodup) : m.hasNul = true ↔
    ∃ key x, m.get? key = some x ∧ ('\x00' ∈ key.toList ∨ x.hasNul = true) := by
  induction m using Members.ind with
  | nil => simp [Members.hasNul]
  | cons k y m ih =>
    rw [Members.keys, List.nodup_cons] at h
    rw [Members.hasNul, Bool.or_eq_true, Bool.or_eq_true, List.contains_iff_mem, ih h.2]
    constructor
    · rintro ((hkey | hvalue) | ⟨key, x, hget, hnul⟩)
      · exact ⟨k, y, if_pos rfl, Or.inl hkey⟩
      · exact ⟨k, y, if_pos rfl, Or.inr hvalue⟩
      · -- a key stands once, so a later one is another
        have hne : k ≠ key := by
          rintro rfl
          exact h.1 (Members.mem_keys_of_get? hget)
        exact ⟨key, x, by rw [Members.get?_cons, if_neg hne, hget], hnul⟩
    · rintro ⟨key, x, hget, hnul⟩
      rw [Members.get?_cons] at hget
      by_cases hk : k = key
      · rw [if_pos hk, Option.some.injEq] at hget
        subst hk hget
        exact Or.inl hnul
      · rw [if_neg hk] at hget
        exact Or.inr ⟨key, x, hget, hnul⟩

/-! ## The validators -/

/-- The one check of keys that matters here. -/
theorem validateMetadataKeys_ok {keys : List String} (h : validateMetadataKeys keys = .ok ()) :
    ∀ key ∈ keys, '\x00' ∉ key.toList := by
  induction keys with
  | nil => exact fun key hkey => absurd hkey List.not_mem_nil
  | cons k keys ih =>
    unfold validateMetadataKeys at h
    by_cases hempty : k.isEmpty = true
    · rw [validateMetadataKey, if_pos hempty] at h
      cases h
    by_cases hnul : '\x00' ∈ k.toList
    · rw [validateMetadataKey, if_neg hempty, if_pos hnul] at h
      cases h
    · rw [validateMetadataKey, if_neg hempty, if_neg hnul] at h
      intro key hkey
      rcases List.mem_cons.mp hkey with rfl | hkey
      · exact hnul
      · exact ih h key hkey

/-- An accepted document is an object. -/
theorem validateMetadataDocument_ok {document : Json}
    (h : validateMetadataDocument document = .ok ()) :
    ∃ m, document = .obj m ∧ ∀ key ∈ m.keys, '\x00' ∉ key.toList := by
  cases document with
  | obj m => exact ⟨m, rfl, validateMetadataKeys_ok h⟩
  | null | bool | int | float | str | arr => cases h

/-- What an accepted patch sets has good keys. -/
theorem validateMetadataPatch_ok (h : validateMetadataPatch patch = .ok ()) :
    ∀ key ∈ patch.set.keys, '\x00' ∉ key.toList := by
  intro key hkey
  exact validateMetadataKeys_ok h key (List.mem_append_left _ hkey)

/-! ## What goes through a column -/

/-- A column takes the document, and the row is read again. -/
def Json.Storable (x : Json) : Prop :=
  ∃ document, x.toJsonb = .ok document ∧ (document.read columnRoom).isSome

/-- Nothing in the value keeps a document from being stored, where there is room
for so many levels: neither U+0000 nor a text that is not read back. -/
def Json.Keeps (room : Nat) (x : Json) : Prop :=
  x.hasNul = false ∧ (x.written.read room).isSome

/-- What goes through a column. -/
theorem Json.storable_iff : x.Storable ↔ x.Keeps columnRoom := by
  unfold Json.Storable Json.Keeps Json.toJsonb
  cases h : x.hasNul with
  | true => simp
  | false => simp

/-- `jsonb` keeps the keys. -/
theorem Members.keys_written : m.written.keys = m.keys := by
  induction m using Members.ind with
  | nil => rfl
  | cons k x m ih => exact congrArg (k :: ·) ih

/-- A map can be read if and only if each of its values can. -/
theorem Members.read_isSome {room : Nat} (h : m.keys.Nodup) :
    (m.read room).isSome ↔ ∀ key x, m.get? key = some x → (x.read room).isSome := by
  induction m using Members.ind with
  | nil => simp [Members.read]
  | cons k y m ih =>
    rw [Members.keys, List.nodup_cons] at h
    have hcons : ((Members.cons k y m).read room).isSome ↔
        (y.read room).isSome ∧ (m.read room).isSome := by
      rw [Members.read_cons]
      cases y.read room with
      | none => simp
      | some y' =>
        cases m.read room with
        | none => simp
        | some m' => simp
    rw [hcons, ih h.2]
    constructor
    · rintro ⟨hy, hm⟩ key x hget
      rw [Members.get?_cons] at hget
      by_cases hk : k = key
      · rw [if_pos hk, Option.some.injEq] at hget
        rw [← hget]
        exact hy
      · rw [if_neg hk] at hget
        exact hm key x hget
    · intro hall
      refine ⟨hall k y (if_pos rfl), fun key x hget => hall key x ?_⟩
      -- a key of the rest is not the first one
      have hne : k ≠ key := by
        rintro rfl
        exact h.1 (Members.mem_keys_of_get? hget)
      rw [Members.get?_cons, if_neg hne]
      exact hget

/-- Members are read if each of them is. -/
theorem Members.read_written_isSome {room : Nat} (h : m.keys.Nodup) :
    (m.written.read room).isSome ↔
      ∀ key x, m.get? key = some x → (x.written.read room).isSome := by
  have hnodup : m.written.keys.Nodup := by
    rw [Members.keys_written]
    exact h
  rw [Members.read_isSome hnodup]
  constructor
  · intro hall key x hget
    exact hall key x.written (by rw [Members.get?_written, hget]; rfl)
  · intro hall key x hget
    rw [Members.get?_written] at hget
    obtain ⟨y, hy, rfl⟩ := Option.map_eq_some_iff.mp hget
    exact hall key y hy

/-- With no U+0000 in the keys at the top, it is what lies below them that counts;
the map around them is one level. -/
theorem storable_obj (hnodup : m.keys.Nodup) (hkeys : ∀ key ∈ m.keys, '\x00' ∉ key.toList) :
    (Json.obj m).Storable ↔ ∀ key x, m.get? key = some x → x.Keeps (columnRoom - 1) := by
  -- the object itself takes one level of the room
  have hread : ((Json.obj m).written.read columnRoom).isSome =
      (m.written.read (columnRoom - 1)).isSome := by
    show (Option.map Json.obj (m.written.read (columnRoom - 1))).isSome = _
    rw [Option.isSome_map]
  have hnul : (Json.obj m).hasNul = false ↔ ∀ key x, m.get? key = some x → x.hasNul = false := by
    rw [Json.hasNul, ← Bool.not_eq_true, Members.hasNul_iff hnodup]
    constructor
    · intro h key x hget
      rw [← Bool.not_eq_true]
      intro hnul
      exact h ⟨key, x, hget, Or.inr hnul⟩
    · rintro h ⟨key, x, hget, hkey | hnul⟩
      · exact hkeys key (Members.mem_keys_of_get? hget) hkey
      · rw [h key x hget] at hnul
        cases hnul
  rw [Json.storable_iff, Json.Keeps, hnul, hread, Members.read_written_isSome hnodup]
  constructor
  · rintro ⟨hplain, hall⟩ key x hget
    exact ⟨hplain key x hget, hall key x hget⟩
  · intro h
    exact ⟨fun key x hget => (h key x hget).1, fun key x hget => (h key x hget).2⟩

/-- A document whose keys at the top are those of a map. -/
def Json.IsMap : Json → Prop
  | .obj m => m.keys.Nodup
  | _ => True

/-- The values of the set that the patch keeps, and those of the document that it
does not touch, can be stored below a key. -/
structure MetadataPatch.Keeps (patch : MetadataPatch) (m : Members) : Prop where
  set : ∀ key x, patch.set.get? key = some x → key ∉ patch.remove → x.Keeps (columnRoom - 1)
  kept : ∀ key x, m.get? key = some x → key ∉ patch.set.keys → key ∉ patch.remove →
    x.Keeps (columnRoom - 1)

/-- A patched document goes through exactly if the new values and the kept ones do. -/
theorem MetadataPatch.keeps_iff (hset : patch.set.keys.Nodup) : patch.Keeps m ↔
    ∀ key x, (patch.applied m).get? key = some x → x.Keeps (columnRoom - 1) := by
  -- a removed key wins over one that is set, and that over an old one
  have hlookup : ∀ key, (patch.applied m).get? key =
      if key ∈ patch.remove then none else (patch.set.get? key).or (m.get? key) := by
    intro key
    rw [MetadataPatch.get?_applied, MetadataPatch.lookup, Members.get?_asMap hset]
  constructor
  · rintro ⟨hnew, hkept⟩ key x hget
    rw [hlookup] at hget
    by_cases hremove : key ∈ patch.remove
    · rw [if_pos hremove] at hget
      cases hget
    rw [if_neg hremove] at hget
    cases hvalue : patch.set.get? key with
    | some y =>
      rw [hvalue, Option.some_or, Option.some.injEq] at hget
      rw [← hget]
      exact hnew key y hvalue hremove
    | none =>
      have hkey : key ∉ patch.set.keys := by
        rw [Members.mem_keys, hvalue]
        exact Bool.false_ne_true
      rw [hvalue, Option.none_or] at hget
      exact hkept key x hget hkey hremove
  · intro h
    constructor
    · intro key x hvalue hremove
      refine h key x ?_
      rw [hlookup, if_neg hremove, hvalue, Option.some_or]
    · intro key x hget hkey hremove
      refine h key x ?_
      have hnone : patch.set.get? key = none := by
        rw [← Option.not_isSome_iff_eq_none, ← Members.mem_keys]
        exact hkey
      rw [hlookup, if_neg hremove, hnone, Option.none_or, hget]

/-- What a patch makes of accepted metadata, where both passed their validator. -/
theorem storable_applied (hm : m.keys.Nodup) (hkeys : ∀ key ∈ m.keys, '\x00' ∉ key.toList)
    (hset : patch.set.keys.Nodup) (hpatch : validateMetadataPatch patch = .ok ()) :
    (Json.obj (patch.applied m)).Storable ↔ patch.Keeps m := by
  have hplain : ∀ key ∈ (patch.applied m).keys, '\x00' ∉ key.toList := by
    intro key hkey
    rw [Members.mem_keys, MetadataPatch.get?_applied, MetadataPatch.lookup,
      Members.get?_asMap hset] at hkey
    by_cases hremove : key ∈ patch.remove
    · rw [if_pos hremove] at hkey
      cases hkey
    rw [if_neg hremove, Option.isSome_or, Bool.or_eq_true, ← Members.mem_keys,
      ← Members.mem_keys] at hkey
    rcases hkey with hkey | hkey
    · exact validateMetadataPatch_ok hpatch key hkey
    · exact hkeys key hkey
  rw [storable_obj (MetadataPatch.nodup_applied hm) hplain, MetadataPatch.keeps_iff hset]

/-- The largest double, as it is printed. -/
def largestDouble : Rat := 17976931348623157 * 10 ^ 292

end AnyStore

import AnyStore.Model.Listing
import Mathlib.Data.Rat.Defs
import Mathlib.Data.String.Basic

/-!
# Metadata documents

Documents are compared up to the order of their members, so by what each key
holds (`normalize_obj`); a patch is known by what each key holds after it
(`get?_applied`). What a `jsonb` column holds is written there as it stands
(`written_written`), but it need not be read back as it stands; more room never
makes a text unreadable (`read_mono`).
-/

namespace AnyStore

/-- Induction over the members of one object. -/
@[elab_as_elim]
theorem Members.ind {P : Members → Prop} (nil : P .nil)
    (cons : ∀ k x m, P m → P (.cons k x m)) : ∀ m, P m
  | .nil => nil
  | .cons k x m => cons k x m (Members.ind nil cons m)

/-! ## What a key holds -/

variable {key k : String} {x : Json} {m m' set : Members}

@[simp] theorem Members.get?_nil : Members.nil.get? key = none := rfl

@[simp] theorem Members.get?_cons :
    (Members.cons k x m).get? key = if k = key then some x else m.get? key := rfl

theorem Members.get?_insert : (m.insert k x).get? key = if k = key then some x else m.get? key := by
  induction m using Members.ind with
  | nil => rfl
  | cons l y m ih =>
    unfold Members.insert
    by_cases hl : l = k
    · rw [if_pos hl, Members.get?_cons, Members.get?_cons, hl]
      by_cases hk : k = key
      · rw [if_pos hk, if_pos hk]
      · rw [if_neg hk, if_neg hk, if_neg hk]
    · rw [if_neg hl, Members.get?_cons, Members.get?_cons, ih]
      by_cases hk : k = key
      · rw [if_pos hk, if_neg fun h => hl (h.trans hk.symm), if_pos hk]
      · rw [if_neg hk, if_neg hk]

theorem Members.get?_remove : (m.remove k).get? key = if k = key then none else m.get? key := by
  induction m using Members.ind with
  | nil => simp [Members.remove]
  | cons l y m ih =>
    unfold Members.remove
    by_cases hl : l = k
    · rw [if_pos hl, ih, Members.get?_cons, hl]
      by_cases hk : k = key
      · rw [if_pos hk, if_pos hk]
      · rw [if_neg hk, if_neg hk, if_neg hk]
    · rw [if_neg hl, Members.get?_cons, Members.get?_cons, ih]
      by_cases hk : k = key
      · rw [if_pos hk, if_neg fun h => hl (h.trans hk.symm), if_pos hk]
      · rw [if_neg hk, if_neg hk]

/-- The map that inserting the members one after the other makes: the last one
of a key stays. -/
def Members.asMap (set : Members) : Members := set.insertAll .nil

theorem Members.get?_insertAll_from :
    (set.insertAll m).get? key = (set.asMap.get? key).or (m.get? key) := by
  unfold Members.asMap
  induction set using Members.ind generalizing m with
  | nil => rfl
  | cons k x set ih =>
    show (set.insertAll (m.insert k x)).get? key =
      ((set.insertAll (Members.nil.insert k x)).get? key).or (m.get? key)
    rw [ih, @ih (Members.nil.insert k x), Members.get?_insert, Members.get?_insert, Option.or_assoc]
    by_cases hk : k = key
    · rw [if_pos hk, if_pos hk, Option.some_or]
    · rw [if_neg hk, if_neg hk, Members.get?_nil, Option.none_or]

theorem Members.get?_removeAll {remove : List String} :
    (remove.foldl (fun m k => m.remove k) m).get? key =
      if key ∈ remove then none else m.get? key := by
  induction remove generalizing m with
  | nil => simp
  | cons k remove ih =>
    rw [List.foldl_cons, ih, Members.get?_remove]
    by_cases hkey : key ∈ remove
    · simp [hkey]
    · by_cases hk : k = key
      · simp [hk]
      · rw [if_neg hkey, if_neg hk, if_neg]
        intro h
        rcases List.mem_cons.mp h with rfl | h
        · exact hk rfl
        · exact hkey h

/-- What each key holds after a patch. -/
def MetadataPatch.lookup (patch : MetadataPatch) (old : Option Json) (key : String) : Option Json :=
  if key ∈ patch.remove then none else (patch.set.asMap.get? key).or old

/-- A patch applied to the members of a document. -/
def MetadataPatch.applied (patch : MetadataPatch) (m : Members) : Members :=
  patch.remove.foldl (fun m k => m.remove k) (patch.set.insertAll m)

theorem MetadataPatch.get?_applied {patch : MetadataPatch} :
    (patch.applied m).get? key = patch.lookup (m.get? key) key := by
  unfold MetadataPatch.applied MetadataPatch.lookup
  rw [Members.get?_removeAll, Members.get?_insertAll_from]

/-! ## Normal forms -/

/-- The keys increase strictly. -/
def Members.Sorted : Members → Prop
  | .nil => True
  | .cons k _ m => (∀ key, (m.get? key).isSome → k < key) ∧ m.Sorted

theorem Members.get?_insertSorted :
    (m.insertSorted k x).get? key = if k = key then some x else m.get? key := by
  induction m using Members.ind with
  | nil => rfl
  | cons l y m ih =>
    unfold Members.insertSorted
    by_cases hl : l = k
    · rw [if_pos hl, Members.get?_cons, Members.get?_cons, hl]
      by_cases hk : k = key
      · rw [if_pos hk, if_pos hk]
      · rw [if_neg hk, if_neg hk, if_neg hk]
    · rw [if_neg hl]
      by_cases hlt : k < l
      · rw [if_pos hlt, Members.get?_cons]
      · rw [if_neg hlt, Members.get?_cons, Members.get?_cons, ih]
        by_cases hk : k = key
        · rw [if_pos hk, if_neg fun h => hl (h.trans hk.symm), if_pos hk]
        · rw [if_neg hk, if_neg hk]

theorem Members.Sorted.insertSorted (h : m.Sorted) : (m.insertSorted k x).Sorted := by
  induction m using Members.ind with
  | nil => exact ⟨by simp, trivial⟩
  | cons l y m ih =>
    obtain ⟨hhead, htail⟩ := h
    unfold Members.insertSorted
    by_cases hl : l = k
    · rw [if_pos hl]
      exact ⟨hhead, htail⟩
    · rw [if_neg hl]
      by_cases hlt : k < l
      · rw [if_pos hlt]
        refine ⟨?_, hhead, htail⟩
        intro key hkey
        rw [Members.get?_cons] at hkey
        by_cases hlk : l = key
        · exact hlk ▸ hlt
        · rw [if_neg hlk] at hkey
          exact lt_trans hlt (hhead key hkey)
      · rw [if_neg hlt]
        refine ⟨?_, ih htail⟩
        intro key hkey
        rw [Members.get?_insertSorted] at hkey
        by_cases hk : k = key
        · rw [← hk]
          exact lt_of_le_of_ne (not_lt.mp hlt) hl
        · rw [if_neg hk] at hkey
          exact hhead key hkey

theorem Members.sorted_normalize (b : Bool) : (m.normalize b).Sorted := by
  induction m using Members.ind with
  | nil => trivial
  | cons k x m ih => exact ih.insertSorted

theorem Members.get?_normalize (b : Bool) :
    (m.normalize b).get? key = (m.get? key).map (·.normalize b) := by
  induction m using Members.ind with
  | nil => rfl
  | cons k x m ih =>
    unfold Members.normalize
    rw [Members.get?_insertSorted, ih, Members.get?_cons]
    by_cases hk : k = key
    · rw [if_pos hk, if_pos hk]
      rfl
    · rw [if_neg hk, if_neg hk]

/-- Sorted members are known by what each key holds. -/
theorem Members.Sorted.ext (h : m.Sorted) (h' : m'.Sorted) (heq : ∀ key, m.get? key = m'.get? key) :
    m = m' := by
  induction m using Members.ind generalizing m' with
  | nil =>
    cases m' with
    | nil => rfl
    | cons k x m' => simpa using heq k
  | cons k x m ih =>
    cases m' with
    | nil => simpa using heq k
    | cons l y m' =>
      obtain ⟨hhead, htail⟩ := h
      obtain ⟨hhead', htail'⟩ := h'
      -- the least key comes first in both
      have hkl : k = l := by
        by_contra hne
        have hk := heq k
        have hl := heq l
        rw [Members.get?_cons, Members.get?_cons, if_pos rfl, if_neg (Ne.symm hne)] at hk
        rw [Members.get?_cons, Members.get?_cons, if_pos rfl, if_neg hne] at hl
        have hlt : l < k := hhead' k (by rw [← hk]; rfl)
        exact lt_asymm hlt (hhead l (by rw [hl]; rfl))
      subst hkl
      have hxy : x = y := by simpa using heq k
      rw [hxy, ih htail htail']
      intro key
      by_cases hk : k = key
      · -- the first key is in neither of the rests
        have hnone : ∀ n : Members, (∀ key, (n.get? key).isSome → k < key) → n.get? key = none := by
          intro n hn
          by_contra hsome
          exact absurd (hn key (Option.isSome_iff_ne_none.mpr hsome)) (hk ▸ lt_irrefl k)
        rw [hnone m hhead, hnone m' hhead']
      · simpa [hk] using heq key

/-- Objects are equal up to the order of their members if every key holds the
same in both. -/
theorem Json.normalize_obj (b : Bool) : (Json.obj m).normalize b = (Json.obj m').normalize b ↔
    ∀ key, (m.get? key).map (·.normalize b) = (m'.get? key).map (·.normalize b) := by
  have h : (Json.obj m).normalize b = (Json.obj m').normalize b ↔ m.normalize b = m'.normalize b := by
    show Json.obj _ = Json.obj _ ↔ _
    rw [Json.obj.injEq]
  rw [h]
  constructor
  · intro heq key
    rw [← Members.get?_normalize, ← Members.get?_normalize, heq]
  · intro heq
    refine (Members.sorted_normalize b).ext (Members.sorted_normalize b) ?_
    intro key
    rw [Members.get?_normalize, Members.get?_normalize]
    exact heq key

theorem Members.normalize_insertSorted (b : Bool) :
    (m.insertSorted k x).normalize b = (m.normalize b).insertSorted k (x.normalize b) := by
  refine (Members.sorted_normalize b).ext (Members.sorted_normalize b).insertSorted ?_
  intro key
  rw [Members.get?_normalize, Members.get?_insertSorted, Members.get?_insertSorted,
    Members.get?_normalize]
  by_cases hk : k = key
  · rw [if_pos hk, if_pos hk]
    rfl
  · rw [if_neg hk, if_neg hk]

mutual
/-- What is equal number by number is equal by value. -/
theorem Json.normalize_normalize (b : Bool) :
    (x : Json) → (x.normalize b).normalize true = x.normalize true
  | .null | .bool _ | .float _ | .str _ => rfl
  | .int n => by cases b <;> rfl
  | .arr xs => congrArg Json.arr (xs.normalize_normalize b)
  | .obj m => congrArg Json.obj (m.normalize_normalize b)

theorem Items.normalize_normalize (b : Bool) :
    (xs : Items) → (xs.normalize b).normalize true = xs.normalize true
  | .nil => rfl
  | .cons x xs => congrArg₂ Items.cons (x.normalize_normalize b) (xs.normalize_normalize b)

theorem Members.normalize_normalize (b : Bool) :
    (m : Members) → (m.normalize b).normalize true = m.normalize true
  | .nil => rfl
  | .cons k x m => by
    show ((m.normalize b).insertSorted k (x.normalize b)).normalize true = _
    rw [Members.normalize_insertSorted, m.normalize_normalize b, x.normalize_normalize b]
    rfl
end

/-! ## Columns -/

/-- A double is written as the integer that it is, or it stays a double. -/
theorem Json.written_float (q : Rat) :
    q.den = 1 ∧ (Json.float q).written = .int q.num ∨ (Json.float q).written = .float q := by
  unfold Json.written
  by_cases h : q.den = 1 ∧ 10 ^ 16 ≤ q.num.natAbs
  · exact .inl ⟨h.1, if_pos h⟩
  · exact .inr (if_neg h)

mutual
theorem Json.written_written : (x : Json) → x.written.written = x.written
  | .null | .bool _ | .int _ | .str _ => rfl
  | .float q => by
    rcases Json.written_float q with ⟨_, h⟩ | h
    · rw [h]
      rfl
    · rw [h, h]
  | .arr xs => congrArg Json.arr xs.written_written
  | .obj m => congrArg Json.obj m.written_written

theorem Items.written_written : (xs : Items) → xs.written.written = xs.written
  | .nil => rfl
  | .cons x xs => congrArg₂ Items.cons x.written_written xs.written_written

theorem Members.written_written : (m : Members) → m.written.written = m.written
  | .nil => rfl
  | .cons k x m => congrArg₂ (Members.cons k) x.written_written m.written_written
end

theorem Members.get?_written : m.written.get? key = (m.get? key).map Json.written := by
  induction m using Members.ind with
  | nil => rfl
  | cons k x m ih =>
    show (if k = key then some x.written else m.written.get? key) = _
    rw [ih, Members.get?_cons]
    by_cases hk : k = key
    · rw [if_pos hk, if_pos hk]
      rfl
    · rw [if_neg hk, if_neg hk]

mutual
/-- A column does not change the value of a number. -/
theorem Json.normalize_true_written : (x : Json) → x.written.normalize true = x.normalize true
  | .null | .bool _ | .int _ | .str _ => rfl
  | .float q => by
    rcases Json.written_float q with ⟨hden, h⟩ | h
    · have hq : ((q.num : Int) : Rat) = q := Rat.coe_int_num_of_den_eq_one hden
      rw [h]
      exact congrArg Json.float hq
    · rw [h]
  | .arr xs => congrArg Json.arr xs.normalize_true_written
  | .obj m => congrArg Json.obj m.normalize_true_written

theorem Items.normalize_true_written : (xs : Items) → xs.written.normalize true = xs.normalize true
  | .nil => rfl
  | .cons x xs => congrArg₂ Items.cons x.normalize_true_written xs.normalize_true_written

theorem Members.normalize_true_written :
    (m : Members) → m.written.normalize true = m.normalize true
  | .nil => rfl
  | .cons k x m => by
    show (m.written.normalize true).insertSorted k (x.written.normalize true) =
      (m.normalize true).insertSorted k (x.normalize true)
    rw [m.normalize_true_written, x.normalize_true_written]
end

/-! ## Comparisons -/

theorem nullAsEmpty_written (x : Json) : nullAsEmpty x.written = (nullAsEmpty x).written := by
  cases x with
  | float q =>
    rcases Json.written_float q with ⟨_, h⟩ | h
    · rw [h]
      exact h.symm
    · rw [h]
      exact h.symm
  | null | bool | int | str | arr | obj => rfl

/-- `jsonb` does not tell a document from what becomes of it in a column. -/
theorem Adapter.metadataEqual_rpc {x y : Json} :
    Adapter.rpc.metadataEqual x.written y = Adapter.rpc.metadataEqual x y := by
  show decide _ = decide _
  rw [Json.normalize_true_written]

mutual
/-- A column takes a document or not, whatever the spelling of its numbers. -/
theorem Json.hasNul_written : (x : Json) → x.written.hasNul = x.hasNul
  | .null | .bool _ | .int _ | .str _ => rfl
  | .float q => by
    rcases Json.written_float q with ⟨_, h⟩ | h
    · rw [h]
      rfl
    · rw [h]
  | .arr xs => xs.hasNul_written
  | .obj m => m.hasNul_written

theorem Items.hasNul_written : (xs : Items) → xs.written.hasNul = xs.hasNul
  | .nil => rfl
  | .cons x xs => congrArg₂ (· || ·) x.hasNul_written xs.hasNul_written

theorem Members.hasNul_written : (m : Members) → m.written.hasNul = m.hasNul
  | .nil => rfl
  | .cons k x m =>
    congrArg₂ (k.toList.contains '\x00' || · || ·) x.hasNul_written m.hasNul_written
end

theorem Members.written_insert : (m.insert k x).written = m.written.insert k x.written := by
  induction m using Members.ind with
  | nil => rfl
  | cons l y m ih =>
    show (if l = k then Members.cons k x m else .cons l y (m.insert k x)).written =
      if l = k then Members.cons k x.written m.written else .cons l y.written (m.written.insert k _)
    by_cases hl : l = k
    · rw [if_pos hl, if_pos hl]
      rfl
    · rw [if_neg hl, if_neg hl, ← ih]
      rfl

theorem Members.written_remove : (m.remove k).written = m.written.remove k := by
  induction m using Members.ind with
  | nil => rfl
  | cons l y m ih =>
    show (if l = k then m.remove k else .cons l y (m.remove k)).written =
      if l = k then m.written.remove k else .cons l y.written (m.written.remove k)
    by_cases hl : l = k
    · rw [if_pos hl, if_pos hl, ih]
    · rw [if_neg hl, if_neg hl, ← ih]
      rfl

theorem Members.written_insertAll : (set.insertAll m).written = set.written.insertAll m.written := by
  induction set using Members.ind generalizing m with
  | nil => rfl
  | cons k x set ih =>
    show (set.insertAll (m.insert k x)).written = set.written.insertAll (m.written.insert k x.written)
    rw [ih, Members.written_insert]

/-- What a patch makes of a document is written as the written patch makes it. -/
theorem MetadataPatch.written_applied (patch : MetadataPatch) : (patch.applied m).written =
    (MetadataPatch.mk patch.set.written patch.remove).applied m.written := by
  have hremoved : ∀ (remove : List String) (m : Members),
      (remove.foldl (fun m k => m.remove k) m).written =
        remove.foldl (fun m k => m.remove k) m.written := by
    intro remove
    induction remove with
    | nil => exact fun _ => rfl
    | cons k remove ih =>
      intro m
      rw [List.foldl_cons, ih, Members.written_remove, List.foldl_cons]
  unfold MetadataPatch.applied
  rw [hremoved, Members.written_insertAll]

/-- What the patch sets is written key by key. -/
theorem Members.get?_asMap_written :
    set.written.asMap.get? key = (set.asMap.get? key).map Json.written := by
  have hmap : set.asMap.written = set.written.asMap := by
    unfold Members.asMap
    rw [Members.written_insertAll]
    rfl
  rw [← hmap, Members.get?_written]

/-- A patch of keys that are not there to be removed changes nothing if each key
holds what it sets. -/
theorem MetadataPatch.applied_eq_iff {patch : MetadataPatch} (b : Bool)
    (hremoved : ∀ key ∈ patch.remove, m.get? key = none) :
    (Json.obj (patch.applied m)).normalize b = (Json.obj m).normalize b ↔
      ∀ key x, key ∉ patch.remove → patch.set.asMap.get? key = some x →
        (m.get? key).map (·.normalize b) = some (x.normalize b) := by
  rw [Json.normalize_obj]
  constructor
  · intro heq key x hkept hset
    have hkey := heq key
    rw [MetadataPatch.get?_applied] at hkey
    unfold MetadataPatch.lookup at hkey
    rw [if_neg hkept, hset, Option.some_or] at hkey
    exact hkey.symm
  · intro hholds key
    rw [MetadataPatch.get?_applied]
    unfold MetadataPatch.lookup
    by_cases hkey : key ∈ patch.remove
    · rw [if_pos hkey, hremoved key hkey]
    · rw [if_neg hkey]
      cases hset : patch.set.asMap.get? key with
      | none => rw [Option.none_or]
      | some x =>
        rw [Option.some_or]
        exact (hholds key x hkey hset).symm

/-! ## Reading -/

/-- The text of the document is read as the document. -/
def Json.ReadsBack (x : Json) : Prop := x.read columnRoom = some x

theorem Members.read_cons {room : Nat} : (Members.cons k x m).read room =
    (x.read room).bind fun y => (m.read room).bind fun n => some (.cons k y n) := rfl

/-- What is read has the same keys. -/
theorem Members.isSome_get?_read {room : Nat} (h : m.read room = some m') :
    (m'.get? key).isSome = (m.get? key).isSome := by
  induction m using Members.ind generalizing m' with
  | nil =>
    obtain rfl := Option.some.inj h
    rfl
  | cons k x m ih =>
    rw [Members.read_cons] at h
    simp only [Option.bind_eq_some_iff, Option.some.injEq] at h
    obtain ⟨x', hx, n, hn, rfl⟩ := h
    rw [Members.get?_cons, Members.get?_cons]
    by_cases hk : k = key
    · rw [if_pos hk, if_pos hk]
      rfl
    · rw [if_neg hk, if_neg hk, ih hn]

/-- A document is read key by key. -/
theorem Members.get?_read {room : Nat} (h : m.read room = some m') :
    m'.get? key = (m.get? key).bind (·.read room) := by
  induction m using Members.ind generalizing m' with
  | nil =>
    obtain rfl := Option.some.inj h
    rfl
  | cons k x m ih =>
    rw [Members.read_cons] at h
    simp only [Option.bind_eq_some_iff, Option.some.injEq] at h
    obtain ⟨x', hx, n, hn, rfl⟩ := h
    rw [Members.get?_cons, Members.get?_cons, ih hn]
    by_cases hk : k = key
    · rw [if_pos hk, if_pos hk, Option.bind_some, hx]
    · rw [if_neg hk, if_neg hk]

mutual
/-- What is read in some room is read alike in more of it. -/
theorem Json.read_mono {room more : Nat} (hle : room ≤ more) :
    (x : Json) → ∀ {y : Json}, x.read room = some y → x.read more = some y
  | .null, _, h | .bool _, _, h | .int _, _, h | .float _, _, h | .str _, _, h => h
  | .arr xs, y, h => by
    cases room with
    | zero => cases h
    | succ room =>
      obtain ⟨more, rfl⟩ := Nat.exists_eq_add_of_lt hle
      obtain ⟨ys, hys, rfl⟩ := Option.map_eq_some_iff.mp h
      exact Option.map_eq_some_iff.mpr ⟨ys, xs.read_mono (by omega) hys, rfl⟩
  | .obj m, y, h => by
    cases room with
    | zero => cases h
    | succ room =>
      obtain ⟨more, rfl⟩ := Nat.exists_eq_add_of_lt hle
      obtain ⟨n, hn, rfl⟩ := Option.map_eq_some_iff.mp h
      exact Option.map_eq_some_iff.mpr ⟨n, m.read_mono (by omega) hn, rfl⟩

theorem Items.read_mono {room more : Nat} (hle : room ≤ more) :
    (xs : Items) → ∀ {ys : Items}, xs.read room = some ys → xs.read more = some ys
  | .nil, _, h => h
  | .cons x xs, ys, h => by
    unfold Items.read at h ⊢
    simp only [Option.pure_def, Option.bind_eq_bind, Option.bind_eq_some_iff,
      Option.some.injEq] at h ⊢
    obtain ⟨y, hy, zs, hzs, rfl⟩ := h
    exact ⟨y, x.read_mono hle hy, zs, xs.read_mono hle hzs, rfl⟩

theorem Members.read_mono {room more : Nat} (hle : room ≤ more) :
    (m : Members) → ∀ {n : Members}, m.read room = some n → m.read more = some n
  | .nil, _, h => h
  | .cons k x m, n, h => by
    rw [Members.read_cons] at h ⊢
    simp only [Option.bind_eq_some_iff, Option.some.injEq] at h ⊢
    obtain ⟨y, hy, l, hl, rfl⟩ := h
    exact ⟨y, x.read_mono hle hy, l, m.read_mono hle hl, rfl⟩
end

end AnyStore

import Mathlib.Data.Bool.AllAny
import Mathlib.Data.List.Basic
import Mathlib.Data.Nat.Init
import Mathlib.Tactic.Common
import Mathlib.Tactic.SplitIfs

/-!
# UTF-8

Texts as bytes, and bytes read back as text: `encode` gives the bytes of a
string, `valid` tells whether bytes are a text, and `lossy` reads any bytes,
with one replacement character for every longest start of a character that is
never finished. The reader undoes the writer, and an ASCII character is read
exactly where its byte stands.
-/

namespace Utf8

/-- The bytes of a text. -/
def encode (s : String) : List UInt8 := s.toList.flatMap String.utf8EncodeChar

/-- The character that starts the bytes, if one does. -/
def decodeChar? (bs : List UInt8) : Option Char := bs.toByteArray.utf8DecodeChar? 0

/-- A byte that is not the first of a character. -/
def isContinuation (b : UInt8) : Bool := 0x80 ≤ b && b ≤ 0xBF

/-- `b₁` may stand second in a character of three or four bytes that starts with `b₀`. -/
def maySecond (b₀ b₁ : UInt8) : Bool :=
  (b₀ == 0xE0 && 0xA0 ≤ b₁ && b₁ ≤ 0xBF) ||
  (0xE1 ≤ b₀ && b₀ ≤ 0xEC && 0x80 ≤ b₁ && b₁ ≤ 0xBF) ||
  (b₀ == 0xED && 0x80 ≤ b₁ && b₁ ≤ 0x9F) ||
  (0xEE ≤ b₀ && b₀ ≤ 0xEF && 0x80 ≤ b₁ && b₁ ≤ 0xBF) ||
  (b₀ == 0xF0 && 0x90 ≤ b₁ && b₁ ≤ 0xBF) ||
  (0xF1 ≤ b₀ && b₀ ≤ 0xF3 && 0x80 ≤ b₁ && b₁ ≤ 0xBF) ||
  (b₀ == 0xF4 && 0x80 ≤ b₁ && b₁ ≤ 0x8F)

/-- How many bytes one replacement character stands for, where no character starts. -/
def badLength : List UInt8 → Nat
  | b₀ :: b₁ :: rest =>
    if maySecond b₀ b₁ then
      match rest with
      | b₂ :: _ => if 0xF0 ≤ b₀ && isContinuation b₂ then 3 else 2
      | [] => 2
    else 1
  | _ => 1

/-- What stands for bytes that are no character. -/
def replacement : Char := '\uFFFD'

/-- `lossy skip bs` reads `bs` after its first `skip` bytes, which are read already. -/
def lossy : Nat → List UInt8 → List Char
  | _, [] => []
  | skip + 1, _ :: rest => lossy skip rest
  | 0, b :: rest =>
    match decodeChar? (b :: rest) with
    | some c => c :: lossy (c.utf8Size - 1) rest
    | none => replacement :: lossy (badLength (b :: rest) - 1) rest

/-- Every byte belongs to a character; `skip` as in `lossy`. -/
def valid : Nat → List UInt8 → Bool
  | _, [] => true
  | skip + 1, _ :: rest => valid skip rest
  | 0, b :: rest =>
    match decodeChar? (b :: rest) with
    | some c => valid (c.utf8Size - 1) rest
    | none => false

/-- `String::from_utf8_lossy`. -/
def fromUtf8Lossy (bs : List UInt8) : String := String.ofList (lossy 0 bs)

/-! ## The reader undoes the writer -/

/-- A character comes back, -/
theorem decodeChar?_encodeChar (c : Char) (rest : List UInt8) :
    decodeChar? (String.utf8EncodeChar c ++ rest) = some c := by
  unfold decodeChar?
  rw [List.toByteArray_append]
  exact ByteArray.utf8DecodeChar?_utf8EncodeChar_append

/-- and only from its bytes. -/
theorem decodeChar?_eq_some {bs : List UInt8} {c : Char} (h : decodeChar? bs = some c) :
    ∃ rest, bs = String.utf8EncodeChar c ++ rest := by
  obtain ⟨rest, hrest⟩ := ByteArray.exists_of_utf8DecodeChar?_eq_some h
  refine ⟨rest.data.toList, ?_⟩
  have hdata := congrArg (fun b : ByteArray => b.data.toList) hrest
  simpa using hdata

/-- Bytes that were read are skipped. -/
theorem lossy_skip (xs rest : List UInt8) : lossy xs.length (xs ++ rest) = lossy 0 rest := by
  induction xs with
  | nil => rfl
  | cons x xs ih => simpa [lossy] using ih

/-- One character. -/
theorem lossy_encodeChar (c : Char) (rest : List UInt8) :
    lossy 0 (String.utf8EncodeChar c ++ rest) = c :: lossy 0 rest := by
  have hdecode := decodeChar?_encodeChar c rest
  have hlength := String.length_utf8EncodeChar c
  cases hbytes : String.utf8EncodeChar c with
  | nil => exact absurd hbytes String.utf8EncodeChar_ne_nil
  | cons b tail =>
    rw [hbytes] at hdecode hlength
    rw [List.cons_append] at hdecode ⊢
    have htail : c.utf8Size - 1 = tail.length := by
      rw [← hlength, List.length_cons]
      omega
    simp only [lossy, hdecode, htail, lossy_skip]

/-- All of them. -/
theorem lossy_encode (s : String) : lossy 0 (encode s) = s.toList := by
  unfold encode
  induction s.toList with
  | nil => rfl
  | cons c cs ih => rw [List.flatMap_cons, lossy_encodeChar, ih]

/-- **Round trip.** Nothing is lost of a text. -/
theorem fromUtf8Lossy_encode (s : String) : fromUtf8Lossy (encode s) = s := by
  rw [fromUtf8Lossy, lossy_encode, String.ofList_toList]

/-- Different texts have different bytes. -/
theorem encode_injective : Function.Injective encode := by
  intro s t h
  rw [← fromUtf8Lossy_encode s, h, fromUtf8Lossy_encode]

/-- Two texts, one after the other. -/
theorem encode_append (s t : String) : encode (s ++ t) = encode s ++ encode t := by
  unfold encode
  rw [String.toList_append, List.flatMap_append]

/-- A character has at most four bytes. -/
theorem length_encode_le (s : String) : (encode s).length ≤ 4 * s.length := by
  rw [← String.length_toList, encode]
  induction s.toList with
  | nil => simp
  | cons c cs ih =>
    have hc := c.utf8Size_le_four
    rw [List.flatMap_cons, List.length_append, String.length_utf8EncodeChar, List.length_cons]
    omega

/-! ## ASCII -/

/-- An ASCII character is its byte. -/
theorem encodeChar_ascii {c : Char} (h : c.toNat < 128) :
    String.utf8EncodeChar c = [UInt8.ofNat c.toNat] := by
  have hle : c.val ≤ 127 := by
    rw [UInt32.le_iff_toNat_le]
    show c.toNat ≤ 127
    omega
  rw [String.utf8EncodeChar_eq_singleton (Char.utf8Size_eq_one_iff.mpr hle)]
  rfl

/-- Every byte of a character beyond ASCII has its top bit set. -/
theorem encodeChar_high {c : Char} (h : 128 ≤ c.toNat) :
    ∀ b ∈ String.utf8EncodeChar c, 128 ≤ b.toNat := by
  intro b hb
  have hval : 128 ≤ c.val.toNat := h
  simp only [String.utf8EncodeChar] at hb
  split_ifs at hb
  · omega
  all_goals
    simp only [List.mem_cons, List.not_mem_nil, or_false] at hb
    rcases hb with rfl | rfl | rfl | rfl <;> simp only [UInt8.toNat_ofNat'] <;> omega

theorem toNat_ofNat_ascii {n : Nat} (h : n < 128) : (Char.ofNat n).toNat = n := by
  rw [Char.ofNat, dif_pos (Or.inl (by omega))]
  rfl

/-- Bytes below 128 as a text. -/
def ofAscii (bs : List UInt8) : String := String.ofList (bs.map fun b => Char.ofNat b.toNat)

/-- ASCII bytes are a text. -/
theorem encode_ofAscii {bs : List UInt8} (h : ∀ b ∈ bs, b.toNat < 128) :
    encode (ofAscii bs) = bs := by
  unfold encode ofAscii
  rw [String.toList_ofList]
  induction bs with
  | nil => rfl
  | cons b bs ih =>
    have hb : b.toNat < 128 := h b (List.mem_cons_self ..)
    have hchar : (Char.ofNat b.toNat).toNat = b.toNat := toNat_ofNat_ascii hb
    rw [List.map_cons, List.flatMap_cons, encodeChar_ascii (by omega), hchar, UInt8.ofNat_toNat,
      ih fun x hx => h x (List.mem_cons_of_mem _ hx)]
    rfl

/-- An ASCII byte is a character, whatever is behind it. -/
theorem decodeChar?_ascii {b : UInt8} (h : b.toNat < 128) (rest : List UInt8) :
    decodeChar? (b :: rest) = some (Char.ofNat b.toNat) := by
  have hchar : (Char.ofNat b.toNat).toNat = b.toNat := toNat_ofNat_ascii h
  have hbytes : String.utf8EncodeChar (Char.ofNat b.toNat) = [b] := by
    rw [encodeChar_ascii (by omega), hchar, UInt8.ofNat_toNat]
  have hdecode := decodeChar?_encodeChar (Char.ofNat b.toNat) rest
  rwa [hbytes] at hdecode

/-- It never makes a text invalid. -/
theorem valid_ascii {b : UInt8} (h : b.toNat < 128) (rest : List UInt8) :
    valid 0 (b :: rest) = valid 0 rest := by
  have hsize : (Char.ofNat b.toNat).utf8Size = 1 := by
    have hchar : (Char.ofNat b.toNat).toNat = b.toNat := toNat_ofNat_ascii h
    rw [← String.length_utf8EncodeChar, encodeChar_ascii (by omega)]
    rfl
  simp only [valid, decodeChar?_ascii h, hsize]

/-- Such bytes are no ASCII, -/
theorem isContinuation_high {b : UInt8} (h : isContinuation b = true) : 128 ≤ b.toNat := by
  simp only [isContinuation, Bool.and_eq_true, decide_eq_true_eq, UInt8.le_iff_toNat_le] at h
  exact h.1

/-- and neither are second bytes. -/
theorem maySecond_high {b₀ b₁ : UInt8} (h : maySecond b₀ b₁ = true) : 128 ≤ b₁.toNat := by
  simp only [maySecond, Bool.or_eq_true, Bool.and_eq_true, decide_eq_true_eq,
    UInt8.le_iff_toNat_le, UInt8.reduceToNat] at h
  omega

/-- What one replacement character stands for: a byte with the top bit set and
continuation bytes after it. -/
theorem bad_high {b : UInt8} {rest : List UInt8} (h : decodeChar? (b :: rest) = none) :
    ∃ tail after, rest = tail ++ after ∧ tail.length = badLength (b :: rest) - 1 ∧
      ∀ x ∈ b :: tail, 128 ≤ x.toNat := by
  have hb : 128 ≤ b.toNat := by
    by_contra hlow
    rw [decodeChar?_ascii (by omega)] at h
    cases h
  cases rest with
  | nil => exact ⟨[], [], rfl, rfl, by simpa using hb⟩
  | cons b₁ rest =>
    -- how many bytes are replaced together depends on how far they could have been a character
    by_cases hsecond : maySecond b b₁ = true
    · have hb₁ := maySecond_high hsecond
      cases rest with
      | nil => exact ⟨[b₁], [], rfl, by simp [badLength, hsecond], by simp [hb, hb₁]⟩
      | cons b₂ rest =>
        by_cases hthird : (decide (0xF0 ≤ b) && isContinuation b₂) = true
        · have hb₂ := isContinuation_high (Bool.and_eq_true_iff.mp hthird).2
          exact ⟨[b₁, b₂], rest, rfl, by simp only [badLength, hsecond, hthird]; rfl,
            by simp [hb, hb₁, hb₂]⟩
        · exact ⟨[b₁], b₂ :: rest, rfl, by simp only [badLength, hsecond, hthird]; rfl,
            by simp [hb, hb₁]⟩
    · exact ⟨[], b₁ :: rest, rfl, by simp [badLength, hsecond], by simpa using hb⟩

/-- An ASCII character is read once for every place where its byte stands. -/
theorem count_lossy {c : Char} (h : c.toNat < 128) (bs : List UInt8) :
    (lossy 0 bs).count c = bs.count (UInt8.ofNat c.toNat) := by
  have hbyte : (UInt8.ofNat c.toNat).toNat = c.toNat := by
    rw [UInt8.toNat_ofNat']
    omega
  -- on the length: one character takes several bytes
  induction hn : bs.length using Nat.strong_induction_on generalizing bs with
  | _ n ih =>
    cases bs with
    | nil => rfl
    | cons b rest =>
      cases hdecode : decodeChar? (b :: rest) with
      | some d =>
        obtain ⟨after, hsplit⟩ := decodeChar?_eq_some hdecode
        have hlength : after.length < n := by
          have hsize := d.utf8Size_pos
          have htotal := congrArg List.length hsplit
          rw [List.length_append, String.length_utf8EncodeChar] at htotal
          omega
        rw [hsplit, lossy_encodeChar, List.count_append, List.count_cons, ih _ hlength after rfl]
        by_cases hd : d.toNat < 128
        · rw [encodeChar_ascii hd, List.count_singleton]
          have hsame : (d == c) = (UInt8.ofNat d.toNat == UInt8.ofNat c.toNat) := by
            rw [Bool.eq_iff_iff, beq_iff_eq, beq_iff_eq, ← UInt8.toNat_inj, hbyte,
              UInt8.toNat_ofNat', Nat.mod_eq_of_lt (by omega), Char.toNat_inj]
          rw [hsame]
          omega
        · have hzero : (String.utf8EncodeChar d).count (UInt8.ofNat c.toNat) = 0 := by
            rw [List.count_eq_zero]
            intro hmem
            have := encodeChar_high (by omega) _ hmem
            omega
          have hne : (d == c) = false := by
            rw [beq_eq_false_iff_ne]
            rintro rfl
            exact hd h
          rw [hzero, hne]
          simp
      | none =>
        obtain ⟨tail, after, rfl, htail, hhigh⟩ := bad_high hdecode
        have hlength : after.length < n := by
          rw [← hn, List.length_cons, List.length_append]
          omega
        have hzero : (b :: tail).count (UInt8.ofNat c.toNat) = 0 := by
          rw [List.count_eq_zero]
          intro hmem
          have := hhigh _ hmem
          omega
        have hne : replacement ≠ c := by
          rintro rfl
          exact absurd h (by decide)
        simp only [lossy, hdecode]
        rw [← htail, lossy_skip, List.count_cons_of_ne hne, ih _ hlength after rfl,
          ← List.cons_append, List.count_append, hzero, Nat.zero_add]

/-- A character of ASCII stands in a text where its byte does. -/
theorem mem_encode_ascii {s : String} {c : Char} (hc : c.toNat < 128) :
    UInt8.ofNat c.toNat ∈ encode s ↔ c ∈ s.toList := by
  have hcount := count_lossy hc (encode s)
  rw [lossy_encode] at hcount
  rw [← List.count_pos_iff, ← hcount, List.count_pos_iff]

/-- The bytes of a text with separators. -/
theorem encode_intercalate (sep : String) (l : List String) :
    encode (sep.intercalate l) = (encode sep).intercalate (l.map encode) := by
  induction l with
  | nil => rfl
  | cons s l ih =>
    cases l with
    | nil =>
      rw [String.intercalate_singleton, List.map_cons, List.map_nil, List.intercalate_singleton]
    | cons t l =>
      rw [String.intercalate_cons_of_ne_nil (List.cons_ne_nil _ _), encode_append, encode_append, ih,
        List.map_cons, List.map_cons, List.map_cons, List.intercalate_cons_cons]

end Utf8

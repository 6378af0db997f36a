import AnyStore.Model.Http
import Mathlib.Data.String.Basic
import Mathlib.Tactic.NormNum
import Mathlib.Algebra.Order.BigOperators.Group.List

/-!
# Requests

What the HTTP layer makes of a request. The bytes that are hashed for an
idempotent request determine it up to the order of its query pairs; the query
pairs are those of the reference codec, except where `%` is followed by `+` and
one hexadecimal digit.

## Results

* `canonical_request_identifies`: two requests have the bytes of their hash in
  common if and only if they differ in the order of their query pairs alone.
* `query_pairs_decoded`: when the pairs of a query are the reference's, and that
  the pairs which the reference writes come back.

## Assumptions

The bounds of `CanonicalInput`, which hold for every text, slice and number that
fits into memory.
-/

namespace AnyStore

open Framing

/-! ## The request hash -/

/-- The arguments of `canonical_request_hash`. No slice or text in memory is
longer than `isize::MAX` bytes, and a revision is 64 bits wide. -/
structure CanonicalInput where
  principal : PrincipalId
  method : String
  route : String
  target : String
  query : List (String × String)
  body : List UInt8
  ifMatch : Option Revision
  texts_fit : ∀ text ∈ [principal, method, route, target], Fits (Utf8.encode text)
  query_fits : query.length < 2 ^ 64
  pairs_fit : ∀ pair ∈ query, Fits (Utf8.encode pair.1) ∧ Fits (Utf8.encode pair.2)
  body_fits : Fits body
  revision_fits : ∀ rev, ifMatch = some rev → rev < 2 ^ 64

/-- What is hashed. -/
def CanonicalInput.bytes (r : CanonicalInput) : List UInt8 :=
  canonicalRequest r.principal r.method r.route r.target r.query r.body r.ifMatch

/-- Pairs are compared by key and then by value. -/
theorem pairLe_trans (a b c : String × String) (hab : pairLe a b = true) (hbc : pairLe b c = true) :
    pairLe a c = true := by
  simp only [pairLe, Bool.or_eq_true, Bool.and_eq_true, decide_eq_true_eq, beq_iff_eq] at *
  rcases hab with hab | ⟨hab, hab'⟩ <;> rcases hbc with hbc | ⟨hbc, hbc'⟩
  · exact .inl (hab.trans hbc)
  · exact .inl (hbc ▸ hab)
  · exact .inl (hab ▸ hbc)
  · exact .inr ⟨hab.trans hbc, hab'.trans hbc'⟩

/-- Any two pairs can be compared, -/
theorem pairLe_total (a b : String × String) : (pairLe a b || pairLe b a) = true := by
  simp only [pairLe, Bool.or_eq_true, Bool.and_eq_true, decide_eq_true_eq, beq_iff_eq]
  rcases lt_trichotomy a.1 b.1 with h | h | h
  · exact .inl (.inl h)
  · rcases le_total a.2 b.2 with h' | h'
    · exact .inl (.inr ⟨h, h'⟩)
    · exact .inr (.inr ⟨h.symm, h'⟩)
  · exact .inr (.inl h)

/-- and only equal ones go both ways. -/
theorem pairLe_antisymm (a b : String × String) (hab : pairLe a b = true)
    (hba : pairLe b a = true) : a = b := by
  simp only [pairLe, Bool.or_eq_true, Bool.and_eq_true, decide_eq_true_eq, beq_iff_eq] at *
  rcases hab with hab | ⟨hab, hab'⟩ <;> rcases hba with hba | ⟨hba, hba'⟩
  · exact absurd hba hab.asymm
  · exact absurd hba.symm hab.ne
  · exact absurd hab.symm hba.ne
  · exact Prod.ext hab (le_antisymm hab' hba')

/-- Sorting forgets the order and nothing else. -/
theorem sorted_eq_iff (q q' : List (String × String)) :
    q.mergeSort pairLe = q'.mergeSort pairLe ↔ q.Perm q' := by
  constructor
  · intro h
    have hq := List.mergeSort_perm q pairLe
    have hq' := List.mergeSort_perm q' pairLe
    exact hq.symm.trans (h ▸ hq')
  · intro h
    -- sorted lists with the same elements are equal, as the order is antisymmetric
    have hperm : (q.mergeSort pairLe).Perm (q'.mergeSort pairLe) :=
      ((List.mergeSort_perm q pairLe).trans h).trans (List.mergeSort_perm q' pairLe).symm
    have hsorted := List.pairwise_mergeSort pairLe_trans pairLe_total
    exact hperm.eq_of_pairwise (fun a b _ _ => pairLe_antisymm a b) (hsorted q) (hsorted q')

/-- The key and the value of each pair, one after the other. -/
def pairTexts (query : List (String × String)) : List (List UInt8) :=
  query.flatMap fun pair => [Utf8.encode pair.1, Utf8.encode pair.2]

/-- Two texts for each pair. -/
theorem length_pairTexts (query : List (String × String)) :
    (pairTexts query).length = 2 * query.length := by
  induction query with
  | nil => rfl
  | cons pair query ih =>
    have hcons : pairTexts (pair :: query) =
        [Utf8.encode pair.1, Utf8.encode pair.2] ++ pairTexts query := rfl
    rw [hcons, List.length_append, ih, List.length_cons, List.length_cons, List.length_cons,
      List.length_nil]
    omega

/-- The texts determine the pairs. -/
theorem pairTexts_injective : Function.Injective pairTexts := by
  intro q
  induction q with
  | nil =>
    intro q' h
    have hlength := congrArg List.length h
    rw [length_pairTexts, length_pairTexts, List.length_nil] at hlength
    exact (List.length_eq_zero_iff.mp (by omega)).symm
  | cons pair q ih =>
    intro q' h
    cases q' with
    | nil => cases h
    | cons pair' q' =>
      -- the first two texts are the first pair
      obtain ⟨hkey, hrest⟩ := List.cons.inj h
      obtain ⟨hvalue, hrest⟩ := List.cons.inj hrest
      rw [Prod.ext (Utf8.encode_injective hkey) (Utf8.encode_injective hvalue), ih hrest]

/-- The fields of the pairs are those of their texts. -/
theorem field_pairTexts (query : List (String × String)) :
    query.flatMap (fun pair => field (Utf8.encode pair.1) ++ field (Utf8.encode pair.2)) =
      (pairTexts query).flatMap field := by
  unfold pairTexts
  rw [List.flatMap_assoc]
  refine List.flatMap_congr fun pair _ => ?_
  rw [List.flatMap_cons, List.flatMap_cons, List.flatMap_nil, List.append_nil]

/-- A revision is never the empty text, which stands for no `If-Match`. -/
theorem revisionField_injective : Function.Injective revisionField := by
  -- a numeral has at least one digit
  have hdigits : ∀ rev : Revision, revisionField (some rev) ≠ [] := by
    intro rev h
    have htext : toString rev = "" := Utf8.encode_injective h
    exact absurd htext Nat.repr_ne_empty
  intro r r' h
  cases r with
  | none =>
    cases r' with
    | none => rfl
    | some rev => exact absurd h.symm (hdigits rev)
  | some rev =>
    cases r' with
    | none => exact absurd h (hdigits rev)
    | some rev' =>
      have hrepr : Nat.repr rev = Nat.repr rev' := Utf8.encode_injective h
      have hdigits := congrArg String.toList hrepr
      rw [Nat.toList_repr, Nat.toList_repr] at hdigits
      rw [← Nat.ofDigitChars_ten_toDigits (n := rev), hdigits, Nat.ofDigitChars_ten_toDigits]

/-- Its numeral has at most 20 digits. -/
theorem revisionField_fits {ifMatch : Option Revision} (h : ∀ rev, ifMatch = some rev → rev < 2 ^ 64) :
    Fits (revisionField ifMatch) := by
  cases ifMatch with
  | none => show 0 < 2 ^ 64; omega
  | some rev =>
    have hrev : rev < 2 ^ 64 := h rev rfl
    have hwide : rev < 10 ^ 20 := hrev.trans (by norm_num)
    have hdigits : (Nat.repr rev).length ≤ 20 :=
      (Nat.length_repr_le_iff (by omega)).mpr hwide
    have hbytes := Utf8.length_encode_le (Nat.repr rev)
    show (Utf8.encode (Nat.repr rev)).length < 2 ^ 64
    omega

namespace CanonicalInput

variable (r r' : CanonicalInput)

/-- The pairs in the order in which they are hashed. -/
def sorted : List (String × String) := r.query.mergeSort pairLe

/-- What is hashed, field by field. -/
theorem bytes_eq :
    r.bytes = field (Utf8.encode r.principal) ++ (field (Utf8.encode r.method) ++
      (field (Utf8.encode r.route) ++ (field (Utf8.encode r.target) ++
      (field (bigEndian 8 (r.sorted.length % 2 ^ 64)) ++
      ((pairTexts r.sorted).flatMap field ++
      (field r.body ++ (field (revisionField r.ifMatch) ++ []))))))) := by
  simp only [bytes, canonicalRequest, sorted, field_pairTexts, List.append_assoc, List.append_nil]

/-- Sorting keeps the number of pairs. -/
theorem length_sorted : r.sorted.length = r.query.length :=
  (List.mergeSort_perm r.query pairLe).length_eq

/-- The number of pairs takes eight bytes. -/
theorem count_fits (n : Nat) : Fits (bigEndian 8 n) := by
  unfold Fits
  rw [length_bigEndian]
  omega

/-- Every key and every value fits. -/
theorem pairTexts_fit : ∀ text ∈ pairTexts r.sorted, Fits text := by
  intro text htext
  obtain ⟨pair, hpair, htext⟩ := List.mem_flatMap.mp htext
  have hfits := r.pairs_fit pair ((List.mergeSort_perm r.query pairLe).mem_iff.mp hpair)
  simp only [List.mem_cons, List.not_mem_nil, or_false] at htext
  rcases htext with rfl | rfl
  · exact hfits.1
  · exact hfits.2

end CanonicalInput

/-- The bytes that are hashed are equal only for equal requests, up to the order
of the query pairs. -/
theorem canonical_request_identifies (r r' : CanonicalInput) :
    r.bytes = r'.bytes ↔
      r.principal = r'.principal ∧ r.method = r'.method ∧ r.route = r'.route ∧
      r.target = r'.target ∧ r.query.Perm r'.query ∧ r.body = r'.body ∧
      r.ifMatch = r'.ifMatch := by
  rw [← sorted_eq_iff]
  show _ ↔ _ ∧ _ ∧ _ ∧ _ ∧ r.sorted = r'.sorted ∧ _
  constructor
  · intro h
    rw [r.bytes_eq, r'.bytes_eq] at h
    -- the fields come off one by one; the count tells how many belong to pairs
    obtain ⟨hprincipal, h⟩ := field_append_inj (r.texts_fit _ (by simp)) (r'.texts_fit _ (by simp)) h
    obtain ⟨hmethod, h⟩ := field_append_inj (r.texts_fit _ (by simp)) (r'.texts_fit _ (by simp)) h
    obtain ⟨hroute, h⟩ := field_append_inj (r.texts_fit _ (by simp)) (r'.texts_fit _ (by simp)) h
    obtain ⟨htarget, h⟩ := field_append_inj (r.texts_fit _ (by simp)) (r'.texts_fit _ (by simp)) h
    obtain ⟨hcount, h⟩ := field_append_inj (CanonicalInput.count_fits _)
      (CanonicalInput.count_fits _) h
    have hlength : r.sorted.length = r'.sorted.length := by
      have hr := r.query_fits
      have hr' := r'.query_fits
      have := bigEndian_inj (by omega) (by omega) hcount
      rw [r.length_sorted, r'.length_sorted] at this ⊢
      omega
    obtain ⟨hpairs, h⟩ := fields_append_inj
      (by rw [length_pairTexts, length_pairTexts, hlength]) r.pairTexts_fit r'.pairTexts_fit h
    obtain ⟨hbody, h⟩ := field_append_inj r.body_fits r'.body_fits h
    obtain ⟨hrevision, -⟩ := field_append_inj (revisionField_fits r.revision_fits)
      (revisionField_fits r'.revision_fits) h
    exact ⟨Utf8.encode_injective hprincipal, Utf8.encode_injective hmethod,
      Utf8.encode_injective hroute, Utf8.encode_injective htarget,
      pairTexts_injective hpairs, hbody, revisionField_injective hrevision⟩
  · rintro ⟨hprincipal, hmethod, hroute, htarget, hsorted, hbody, hrevision⟩
    rw [r.bytes_eq, r'.bytes_eq, hprincipal, hmethod, hroute, htarget, hsorted, hbody, hrevision]

/-- A delete with its two parameters in this order. -/
def recursiveFirst : CanonicalInput where
  principal := "p"
  method := "DELETE"
  route := "/v1/objects/{id}"
  target := "/v1/objects/o"
  query := [("recursive", "true"), ("trace", "1")]
  body := []
  ifMatch := some 7
  texts_fit := by decide +kernel
  query_fits := by decide
  pairs_fit := by decide +kernel
  body_fits := by decide
  revision_fits := by
    rintro rev ⟨⟩
    decide

/-- The same request with its pairs the other way round. -/
def traceFirst : CanonicalInput where
  principal := recursiveFirst.principal
  method := recursiveFirst.method
  route := recursiveFirst.route
  target := recursiveFirst.target
  query := recursiveFirst.query.reverse
  body := recursiveFirst.body
  ifMatch := recursiveFirst.ifMatch
  texts_fit := recursiveFirst.texts_fit
  query_fits := by decide
  pairs_fit pair hpair := recursiveFirst.pairs_fit pair (List.mem_reverse.mp hpair)
  body_fits := recursiveFirst.body_fits
  revision_fits := recursiveFirst.revision_fits

/-- Both have one hash. -/
theorem canonical_request_reordered :
    recursiveFirst.query ≠ traceFirst.query ∧ recursiveFirst.bytes = traceFirst.bytes := by
  constructor
  · decide
  · rw [canonical_request_identifies]
    exact ⟨rfl, rfl, rfl, rfl, (List.reverse_perm _).symm, rfl, rfl⟩

/-! ## Query pairs

`u8::from_str_radix` reads a sign, so `%+5` is taken for the byte 5 where the
reference reads a percent sign, a space and a five. -/

open FormUrl

/-- The escapes that only `decode` sees: `%`, `+` and one hexadecimal digit. -/
def startsPlusEscape : List UInt8 → Bool
  | p :: q :: d :: _ => p == 0x25 && q == 0x2B && (hexValue d).isSome
  | _ => false

/-- How often `%`, `+` and a digit stand in a row. -/
def plusEscapes : List UInt8 → Nat
  | [] => 0
  | b :: rest => (if startsPlusEscape (b :: rest) then 1 else 0) + plusEscapes rest

/-- The check looks at three bytes. -/
theorem startsPlusEscape_iff (bs : List UInt8) :
    startsPlusEscape bs = true ↔ ∃ d, (hexValue d).isSome ∧ [0x25, 0x2B, d] <+: bs := by
  constructor
  · intro h
    rcases bs with _ | ⟨p, _ | ⟨q, _ | ⟨d, after⟩⟩⟩
    · cases h
    · cases h
    · cases h
    · simp only [startsPlusEscape, Bool.and_eq_true, beq_iff_eq] at h
      obtain ⟨⟨rfl, rfl⟩, hd⟩ := h
      exact ⟨d, hd, after, rfl⟩
  · rintro ⟨d, hd, after, rfl⟩
    simp [startsPlusEscape, hd]

/-- None is counted exactly if none is there. -/
theorem plusEscapes_eq_zero_iff (bs : List UInt8) :
    plusEscapes bs = 0 ↔ ∀ d, (hexValue d).isSome → ¬ [0x25, 0x2B, d] <:+: bs := by
  induction bs with
  | nil => simp [plusEscapes]
  | cons b rest ih =>
    rw [plusEscapes, Nat.add_eq_zero_iff, ih]
    have hstarts := startsPlusEscape_iff (b :: rest)
    constructor
    · rintro ⟨hhead, hrest⟩ d hd hinfix
      rcases List.infix_cons_iff.mp hinfix with hstart | hinfix
      · rw [if_pos (hstarts.mpr ⟨d, hd, hstart⟩)] at hhead
        cases hhead
      · exact hrest d hd hinfix
    · intro h
      refine ⟨if_neg fun hstart => ?_, fun d hd hinfix => h d hd (List.infix_cons_iff.mpr (.inr hinfix))⟩
      obtain ⟨d, hd, hstart⟩ := hstarts.mp hstart
      exact h d hd hstart.isInfix

/-- A byte that cannot be part of such an escape separates them. -/
theorem plusEscapes_append {sep : UInt8} (hpercent : sep ≠ 0x25) (hplus : sep ≠ 0x2B)
    (hdigit : hexValue sep = none) (a b : List UInt8) :
    plusEscapes (a ++ sep :: b) = plusEscapes a + plusEscapes b := by
  induction a with
  | nil =>
    have hstart : startsPlusEscape (sep :: b) = false := by
      rcases b with _ | ⟨q, _ | ⟨d, after⟩⟩ <;> simp [startsPlusEscape, hpercent]
    simp [plusEscapes, hstart]
  | cons x a ih =>
    -- the separator is none of the three bytes
    have hstart : startsPlusEscape (x :: (a ++ sep :: b)) = startsPlusEscape (x :: a) := by
      rcases a with _ | ⟨y, _ | ⟨z, after⟩⟩
      · rcases b with _ | ⟨d, after⟩ <;> simp [startsPlusEscape, hplus]
      · simp [startsPlusEscape, hdigit]
      · rfl
    rw [List.cons_append, plusEscapes, plusEscapes, hstart, ih, Nat.add_assoc]

/-- A query has those of its pieces. -/
theorem plusEscapes_intercalate (pieces : List (List UInt8)) :
    plusEscapes ([0x26].intercalate pieces) = (pieces.map plusEscapes).sum := by
  induction pieces with
  | nil => rfl
  | cons piece pieces ih =>
    cases pieces with
    | nil => simp
    | cons next pieces =>
      rw [List.intercalate_cons_cons, List.append_assoc, List.singleton_append,
        plusEscapes_append (by decide) (by decide) (by decide), ih, List.map_cons (a := piece),
        List.sum_cons]

/-! ### One escape -/

/-- Both sides read the same digits. -/
theorem toDigit_hexValue (b : UInt8) : toDigit 16 b = (hexValue b).map UInt8.toNat := by
  have hb := b.toNat_lt
  unfold toDigit hexValue
  simp only [UInt8.le_iff_toNat_le, UInt8.reduceToNat]
  split_ifs <;>
    simp only [Option.map_some, Option.map_none, Option.some.injEq, reduceCtorEq, UInt8.toNat_sub,
      UInt8.reduceToNat] <;>
    omega

/-- Digits are ASCII, -/
theorem isHex_ascii {b : UInt8} (h : (hexValue b).isSome) : b.toNat < 128 := by
  have hrange := hexValue_range h
  simp only [UInt8.le_iff_toNat_le, UInt8.reduceToNat] at hrange
  omega

/-- and neither a sign nor a percent sign. -/
theorem isHex_ne {b : UInt8} (h : (hexValue b).isSome) : b ≠ 0x2B ∧ b ≠ 0x2D ∧ b ≠ 0x25 := by
  have hrange := hexValue_range h
  simp only [UInt8.le_iff_toNat_le, UInt8.reduceToNat] at hrange
  simp only [ne_eq, ← UInt8.toNat_inj, UInt8.reduceToNat]
  omega

/-- Two ASCII bytes are a text. -/
theorem valid_two {h l : UInt8} (hh : h.toNat < 128) (hl : l.toNat < 128) :
    Utf8.valid 0 [h, l] = true := by
  rw [Utf8.valid_ascii hh, Utf8.valid_ascii hl]
  rfl

/-- Two bytes are read as a number, where the first may be a `+`. -/
theorem fromStrRadix_two (h l : UInt8) :
    fromStrRadix 16 256 [h, l] =
      if h = 0x2B then (hexValue l).map UInt8.toNat
      else (hexValue h).bind fun x => (hexValue l).map fun y => 16 * x.toNat + y.toNat := by
  have hdigit : ∀ {b x : UInt8}, hexValue b = some x → x.toNat < 256 := fun hb => by
    have := hexValue_lt hb
    omega
  show (if h = 0x2B then _ else _) = _
  -- a `+` is skipped, and the digit behind it is all there is
  split_ifs
  · cases hl : hexValue l with
    | none => simp [toDigit_hexValue, hl]
    | some y => simp [toDigit_hexValue, hl, hdigit hl]
  · cases hh : hexValue h with
    | none => simp [toDigit_hexValue, hh]
    | some x =>
      cases hl : hexValue l with
      | none => simp [toDigit_hexValue, hh, hl]
      | some y =>
        have hx := hexValue_lt hh
        have hy := hexValue_lt hl
        have hbound : 16 * x.toNat + y.toNat < 256 := by omega
        simp [toDigit_hexValue, hh, hl, hdigit hh, hbound, Nat.mul_comm]

/-- The number `decode` reads in the two bytes after a `%`. -/
def readEscape (h l : UInt8) : Option Nat :=
  fromStrRadix 16 256 (if Utf8.valid 0 [h, l] then [h, l] else [])

/-- Two digits, -/
theorem readEscape_hex {h l x y : UInt8} (hx : hexValue h = some x) (hy : hexValue l = some y) :
    readEscape h l = some (16 * x.toNat + y.toNat) := by
  have hh : (hexValue h).isSome := by rw [hx]; rfl
  have hl : (hexValue l).isSome := by rw [hy]; rfl
  rw [readEscape, if_pos (valid_two (isHex_ascii hh) (isHex_ascii hl)), fromStrRadix_two,
    if_neg (isHex_ne hh).1, hx, hy]
  rfl

/-- a sign and a digit, -/
theorem readEscape_plus {d y : UInt8} (hy : hexValue d = some y) :
    readEscape 0x2B d = some y.toNat := by
  have hd : (hexValue d).isSome := by rw [hy]; rfl
  rw [readEscape, if_pos (valid_two (by decide) (isHex_ascii hd)), fromStrRadix_two, if_pos rfl, hy]
  rfl

/-- and nothing else. -/
theorem readEscape_none {h l : UInt8} (hhex : ¬ ((hexValue h).isSome ∧ (hexValue l).isSome))
    (hplus : ¬ (h = 0x2B ∧ (hexValue l).isSome)) : readEscape h l = none := by
  unfold readEscape
  split_ifs
  · rw [fromStrRadix_two]
    split_ifs with hb
    · cases hl : hexValue l with
      | none => rfl
      | some y => exact absurd ⟨hb, by rw [hl]; rfl⟩ hplus
    · cases hh : hexValue h with
      | none => rfl
      | some x =>
        cases hl : hexValue l with
        | none => rfl
        | some y => exact absurd ⟨by rw [hh]; rfl, by rw [hl]; rfl⟩ hhex
  · rfl

/-! ### One step of the scan -/

/-- A byte that stands for itself, -/
theorem decodeBytes_plain {b : UInt8} (hplus : b ≠ 0x2B) (hpercent : b ≠ 0x25)
    (rest : List UInt8) : decodeBytes (b :: rest) = b :: decodeBytes rest := by
  rcases rest with _ | ⟨h, _ | ⟨l, after⟩⟩ <;> simp [decodeBytes, hplus, hpercent]

/-- a blank, -/
theorem decodeBytes_plus (rest : List UInt8) :
    decodeBytes (0x2B :: rest) = 0x20 :: decodeBytes rest := by
  rcases rest with _ | ⟨h, _ | ⟨l, after⟩⟩ <;> simp [decodeBytes]

/-- an escape that is read, -/
theorem decodeBytes_escape {h l : UInt8} {n : Nat} (hn : readEscape h l = some n)
    (after : List UInt8) :
    decodeBytes (0x25 :: h :: l :: after) = UInt8.ofNat n :: decodeBytes after := by
  unfold readEscape at hn
  rw [decodeBytes]
  simp [hn]

/-- and one that is not. -/
theorem decodeBytes_literal {h l : UInt8} (hn : readEscape h l = none) (after : List UInt8) :
    decodeBytes (0x25 :: h :: l :: after) = 0x25 :: decodeBytes (h :: l :: after) := by
  unfold readEscape at hn
  rw [decodeBytes]
  simp [hn]

/-- The reference leaves the same ones alone. -/
theorem unescape_literal {h l : UInt8} (hhex : ¬ ((hexValue h).isSome ∧ (hexValue l).isSome))
    (after : List UInt8) :
    unescape (0x25 :: h :: l :: after) = 0x25 :: unescape (h :: l :: after) := by
  cases hh : hexValue h with
  | none => simp [unescape, hh]
  | some x =>
    cases hl : hexValue l with
    | none => simp [unescape, hh, hl]
    | some y => exact absurd ⟨by rw [hh]; rfl, by rw [hl]; rfl⟩ hhex

/-- Where none begins, -/
theorem plusEscapes_cons {b : UInt8} {rest : List UInt8} (h : startsPlusEscape (b :: rest) = false) :
    plusEscapes (b :: rest) = plusEscapes rest := by
  simp [plusEscapes, h]

/-- as at every byte but a percent sign, the count goes on. -/
theorem startsPlusEscape_ne {b : UInt8} (h : b ≠ 0x25) (rest : List UInt8) :
    startsPlusEscape (b :: rest) = false := by
  rcases rest with _ | ⟨q, _ | ⟨d, after⟩⟩ <;> simp [startsPlusEscape, h]

/-- The scan of `decode` loses one percent sign at every escape that only it
sees, and agrees with the reference where there is none. -/
theorem decodeBytes_scan (bs : List UInt8) :
    (unescape bs).count 0x25 = (decodeBytes bs).count 0x25 + plusEscapes bs ∧
    (plusEscapes bs = 0 → decodeBytes bs = unescape bs) := by
  -- on the length: an escape takes three bytes
  induction hn : bs.length using Nat.strong_induction_on generalizing bs with
  | _ n ih =>
    cases bs with
    | nil => exact ⟨rfl, fun _ => rfl⟩
    | cons b rest =>
      rw [List.length_cons] at hn
      obtain ⟨hcount, hsame⟩ := ih _ (by omega) rest rfl
      by_cases hpercent : b = 0x25
      · subst hpercent
        rcases rest with _ | ⟨h, _ | ⟨l, after⟩⟩
        · exact ⟨rfl, fun _ => rfl⟩
        · have hdecode : decodeBytes [0x25, h] = 0x25 :: decodeBytes [h] := by simp [decodeBytes]
          have hunescape : unescape [0x25, h] = 0x25 :: unescape [h] := by simp [unescape]
          have hstart : plusEscapes [0x25, h] = plusEscapes [h] := plusEscapes_cons rfl
          rw [hdecode, hunescape, hstart, List.count_cons_self, List.count_cons_self]
          exact ⟨by omega, fun h0 => by rw [hsame h0]⟩
        · rw [List.length_cons, List.length_cons] at hn
          obtain ⟨hcount', hsame'⟩ := ih _ (by omega) after rfl
          by_cases hhex : (hexValue h).isSome ∧ (hexValue l).isSome
          · -- both read the same byte
            obtain ⟨x, hx⟩ := Option.isSome_iff_exists.mp hhex.1
            obtain ⟨y, hy⟩ := Option.isSome_iff_exists.mp hhex.2
            have hbyte : UInt8.ofNat (16 * x.toNat + y.toNat) = 16 * x + y := by
              simp
            have hplus : plusEscapes (0x25 :: h :: l :: after) = plusEscapes after := by
              rw [plusEscapes_cons, plusEscapes_cons (startsPlusEscape_ne (isHex_ne hhex.1).2.2 _),
                plusEscapes_cons (startsPlusEscape_ne (isHex_ne hhex.2).2.2 _)]
              simp [startsPlusEscape, (isHex_ne hhex.1).1]
            rw [unescape_hex hx hy, decodeBytes_escape (readEscape_hex hx hy), hbyte, hplus,
              List.count_cons, List.count_cons]
            exact ⟨by omega, fun h0 => by rw [hsame' h0]⟩
          · by_cases hsign : h = 0x2B ∧ (hexValue l).isSome
            · -- `decode` reads a control character, the reference `%`, a space and the digit
              obtain ⟨rfl, hl⟩ := hsign
              obtain ⟨y, hy⟩ := Option.isSome_iff_exists.mp hl
              have hylt := hexValue_lt hy
              have hne : (UInt8.ofNat y.toNat == 0x25) = false := by
                rw [UInt8.ofNat_toNat, beq_eq_false_iff_ne, ne_eq, ← UInt8.toNat_inj]
                show ¬ y.toNat = 37
                omega
              have hplus : plusEscapes (0x25 :: 0x2B :: l :: after) = 1 + plusEscapes after := by
                rw [plusEscapes, plusEscapes_cons (startsPlusEscape_ne (by decide) _),
                  plusEscapes_cons (startsPlusEscape_ne (isHex_ne hl).2.2 _)]
                simp [startsPlusEscape, hl]
              rw [unescape_literal hhex, unescape_plus,
                unescape_plain (isHex_ne hl).1 (isHex_ne hl).2.2,
                decodeBytes_escape (readEscape_plus hy), hplus, List.count_cons_self,
                List.count_cons_of_ne (by decide), List.count_cons_of_ne (isHex_ne hl).2.2,
                List.count_cons, hne]
              refine ⟨by simp only [Bool.false_eq_true, if_false]; omega, fun h0 => by omega⟩
            · have hstart : startsPlusEscape (0x25 :: h :: l :: after) = false := by
                by_contra htrue
                simp only [startsPlusEscape, Bool.not_eq_false, Bool.and_eq_true, beq_iff_eq] at htrue
                exact hsign ⟨htrue.1.2, htrue.2⟩
              rw [unescape_literal hhex, decodeBytes_literal (readEscape_none hhex hsign),
                plusEscapes_cons hstart, List.count_cons_self, List.count_cons_self]
              exact ⟨by omega, fun h0 => by rw [hsame h0]⟩
      · rw [plusEscapes_cons (startsPlusEscape_ne hpercent rest)]
        by_cases hplus : b = 0x2B
        · subst hplus
          rw [decodeBytes_plus, unescape_plus, List.count_cons_of_ne (by decide),
            List.count_cons_of_ne (by decide)]
          exact ⟨hcount, fun h0 => by rw [hsame h0]⟩
        · rw [decodeBytes_plain hplus hpercent, unescape_plain hplus hpercent,
            List.count_cons_of_ne hpercent, List.count_cons_of_ne hpercent]
          exact ⟨hcount, fun h0 => by rw [hsame h0]⟩

/-! ### Whole queries -/

/-- The percent signs of a text. -/
def percents (text : String) : Nat := text.toList.count '%'

/-- The reference keeps one for each `%+` that the source decodes. -/
theorem percents_readText (bs : List UInt8) :
    percents (readText bs) = percents (decode bs) + plusEscapes bs := by
  have hcount := fun out => Utf8.count_lossy (c := '%') (by decide) out
  simp only [percents, readText, decode, Utf8.fromUtf8Lossy, String.toList_ofList, hcount]
  exact (decodeBytes_scan bs).1

/-- Without any the texts are the same. -/
theorem decode_eq_readText {bs : List UInt8} (h : plusEscapes bs = 0) : decode bs = readText bs := by
  rw [decode, readText, (decodeBytes_scan bs).2 h]

/-- The percent signs of a pair. -/
def pairPercents (pair : String × String) : Nat := percents pair.1 + percents pair.2

/-- The same for a pair, -/
theorem pairPercents_readPair (piece : List UInt8) :
    pairPercents (readPair piece) = pairPercents (queryPair piece) + plusEscapes piece := by
  unfold readPair queryPair
  cases hsplit : splitOnce 0x3D piece with
  | none =>
    have hread := percents_readText piece
    simp only [pairPercents]
    omega
  | some kv =>
    -- the equals sign is no part of an escape
    obtain ⟨k, v⟩ := kv
    have hk := percents_readText k
    have hv := percents_readText v
    rw [splitOnce_eq_some hsplit, plusEscapes_append (by decide) (by decide) (by decide)]
    simp only [pairPercents]
    omega

/-- and for a pair without any. -/
theorem queryPair_eq_readPair {piece : List UInt8} (h : plusEscapes piece = 0) :
    queryPair piece = readPair piece := by
  unfold readPair queryPair
  cases hsplit : splitOnce 0x3D piece with
  | none => simp only [decode_eq_readText h]
  | some kv =>
    obtain ⟨k, v⟩ := kv
    rw [splitOnce_eq_some hsplit, plusEscapes_append (by decide) (by decide) (by decide)] at h
    have hk : plusEscapes k = 0 := by omega
    have hv : plusEscapes v = 0 := by omega
    simp only [decode_eq_readText hk, decode_eq_readText hv]

/-- The pieces between the ampersands that are not empty. -/
def queryPieces (raw : String) : List (List UInt8) :=
  ((Utf8.encode raw).splitOn 0x26).filter fun piece => !piece.isEmpty

/-- An empty piece has none. -/
theorem sum_queryPieces (raw : String) :
    ((queryPieces raw).map plusEscapes).sum = plusEscapes (Utf8.encode raw) := by
  have hraw := plusEscapes_intercalate ((Utf8.encode raw).splitOn 0x26)
  rw [List.intercalate_splitOn] at hraw
  rw [hraw, queryPieces]
  induction (Utf8.encode raw).splitOn 0x26 with
  | nil => rfl
  | cons piece rest ih =>
    cases piece with
    | nil => simpa [plusEscapes] using ih
    | cons b piece => simpa using ih

/-- The sums over all pairs. -/
theorem sum_pairPercents (ps : List (List UInt8)) :
    ((ps.map readPair).map pairPercents).sum =
      ((ps.map queryPair).map pairPercents).sum + (ps.map plusEscapes).sum := by
  induction ps with
  | nil => rfl
  | cons piece ps ih =>
    have hpiece := pairPercents_readPair piece
    simp only [List.map_cons, List.sum_cons]
    omega

/-- **Decoding.** Equal pairs have equally many percent signs, so there is no `%+` left over. -/
theorem queryPairs_eq_read_iff (raw : String) :
    queryPairs (some raw) = read raw ↔ plusEscapes (Utf8.encode raw) = 0 := by
  show (queryPieces raw).map queryPair = (queryPieces raw).map readPair ↔ _
  rw [← sum_queryPieces]
  constructor
  · intro h
    have hsum := sum_pairPercents (queryPieces raw)
    rw [h] at hsum
    omega
  · intro h
    refine List.map_congr_left fun piece hpiece => queryPair_eq_readPair ?_
    exact List.sum_eq_zero_iff.mp h _ (List.mem_map_of_mem hpiece)

/-- What the reference writes has none: -/
theorem plusEscapes_escape (bs : List UInt8) : plusEscapes (escape bs) = 0 := by
  induction bs with
  | nil => rfl
  | cons b bs ih =>
    have hcases := escaped b
    rw [escape, List.flatMap_cons]
    generalize escapeByte b = written at hcases
    cases hcases with
    | space hb => exact (plusEscapes_cons (startsPlusEscape_ne (by decide) _)).trans ih
    | plain hplus hpercent => exact (plusEscapes_cons (startsPlusEscape_ne hpercent _)).trans ih
    | hex h l x y hx hy hb =>
      have hh : (hexValue h).isSome := by rw [hx]; rfl
      have hl : (hexValue l).isSome := by rw [hy]; rfl
      -- behind a percent sign stand two digits
      have hstart : ∀ after, startsPlusEscape (0x25 :: h :: l :: after) = false := by
        simp [startsPlusEscape, (isHex_ne hh).1]
      show plusEscapes (0x25 :: h :: l :: escape bs) = 0
      rw [plusEscapes_cons (hstart _), plusEscapes_cons (startsPlusEscape_ne (isHex_ne hh).2.2 _),
        plusEscapes_cons (startsPlusEscape_ne (isHex_ne hl).2.2 _), ih]

/-- neither a text nor a query. -/
theorem plusEscapes_write (pairs : List (String × String)) :
    plusEscapes (Utf8.encode (write pairs)) = 0 := by
  rw [encode_write, plusEscapes_intercalate, List.sum_eq_zero_iff]
  intro n hn
  obtain ⟨piece, hpiece, rfl⟩ := List.mem_map.mp hn
  obtain ⟨pair, -, rfl⟩ := List.mem_map.mp hpiece
  rw [writePair, plusEscapes_append (by decide) (by decide) (by decide), plusEscapes_escape,
    plusEscapes_escape, Nat.add_zero]

/-- The query pairs are those of the reference unless `%`, `+` and one
hexadecimal digit follow one another; what the reference writes is read back. -/
theorem query_pairs_decoded (raw : String) (pairs : List (String × String)) :
    (queryPairs (some raw) = read raw ↔
      ∀ d, (hexValue d).isSome → ¬ [0x25, 0x2B, d] <:+: Utf8.encode raw) ∧
    queryPairs (some (write pairs)) = pairs ∧ queryPairs none = [] := by
  constructor
  · rw [queryPairs_eq_read_iff, plusEscapes_eq_zero_iff]
  · rw [(queryPairs_eq_read_iff _).mpr (plusEscapes_write pairs), read_write]
    exact ⟨rfl, rfl⟩

/-- The smallest such query. -/
theorem query_pairs_not_decoded : queryPairs (some "%+5") ≠ read "%+5" := by
  decide

end AnyStore

import AnyStore.Lib.Utf8

/-!
# Decimal numerals

Numbers in texts: a numeral is at least one ASCII digit and nothing else, and
`value` is the number that it stands for. `print` writes a number as its
shortest numeral, with a minus sign in front if it is negative.
-/

namespace Decimal

/-- One of the ten digits. -/
def isDigit (b : UInt8) : Bool := 0x30 ≤ b && b ≤ 0x39

/-- Digits read after the number `n`. -/
def valueFrom (n : Nat) (text : List UInt8) : Nat :=
  text.foldl (fun n b => n * 10 + (b.toNat - 0x30)) n

/-- The number that the digits write. -/
def value (text : List UInt8) : Nat := valueFrom 0 text

/-- The text is a numeral for `n`. -/
structure Numeral (text : List UInt8) (n : Nat) : Prop where
  nonempty : text ≠ []
  digits : ∀ b ∈ text, isDigit b = true
  value_eq : value text = n

/-- The bytes of the digits. -/
theorem isDigit_iff {b : UInt8} : isDigit b = true ↔ 0x30 ≤ b.toNat ∧ b.toNat ≤ 0x39 := by
  unfold isDigit
  rw [Bool.and_eq_true, decide_eq_true_eq, decide_eq_true_eq, UInt8.le_iff_toNat_le,
    UInt8.le_iff_toNat_le]
  rfl

/-- One digit more. -/
theorem valueFrom_cons (n : Nat) (b : UInt8) (text : List UInt8) :
    valueFrom n (b :: text) = valueFrom (n * 10 + (b.toNat - 0x30)) text := by
  unfold valueFrom
  rw [List.foldl_cons]

/-- Digits make a number no smaller. -/
theorem le_valueFrom (n : Nat) (text : List UInt8) : n ≤ valueFrom n text := by
  induction text generalizing n with
  | nil => exact Nat.le_refl n
  | cons b text ih =>
    rw [valueFrom_cons]
    have := ih (n * 10 + (b.toNat - 0x30))
    omega

/-- A text is the numeral of one number. -/
theorem Numeral.eq {text : List UInt8} {m n : Nat} (hm : Numeral text m) (hn : Numeral text n) :
    m = n := hm.value_eq.symm.trans hn.value_eq

/-! ## Printing -/

/-- The shortest numeral of a number, as bytes. -/
def print (n : Int) : List UInt8 := Utf8.encode (toString n)

/-- A digit is one byte. -/
theorem digit_bytes {c : Char} (h : c.isDigit = true) :
    String.utf8EncodeChar c = [UInt8.ofNat c.toNat] ∧ isDigit (UInt8.ofNat c.toNat) = true ∧
      (UInt8.ofNat c.toNat).toNat - 0x30 = c.toNat - '0'.toNat := by
  have hrange : 48 ≤ c.toNat ∧ c.toNat ≤ 57 := by
    simp only [Char.isDigit, Bool.and_eq_true, decide_eq_true_eq] at h
    exact ⟨UInt32.le_iff_toNat_le.mp h.1, UInt32.le_iff_toNat_le.mp h.2⟩
  have hbyte : (UInt8.ofNat c.toNat).toNat = c.toNat := by
    rw [UInt8.toNat_ofNat']
    omega
  refine ⟨Utf8.encodeChar_ascii (by omega), ?_, ?_⟩
  · rw [isDigit_iff, hbyte]
    exact hrange
  · rw [hbyte]
    rfl

/-- Bytes and characters write the same number. -/
theorem valueFrom_encode {cs : List Char} (h : ∀ c ∈ cs, c.isDigit = true) (n : Nat) :
    (∀ b ∈ cs.flatMap String.utf8EncodeChar, isDigit b = true) ∧
      valueFrom n (cs.flatMap String.utf8EncodeChar) = Nat.ofDigitChars 10 cs n := by
  induction cs generalizing n with
  | nil => exact ⟨fun b hb => absurd hb List.not_mem_nil, rfl⟩
  | cons c cs ih =>
    obtain ⟨hbytes, hdigit, hvalue⟩ := digit_bytes (h c (List.mem_cons_self ..))
    have hrest := ih (fun d hd => h d (List.mem_cons_of_mem _ hd)) (n * 10 + (c.toNat - '0'.toNat))
    rw [List.flatMap_cons, hbytes]
    constructor
    · intro b hb
      rcases List.mem_cons.mp hb with rfl | hb
      · exact hdigit
      · exact hrest.1 b hb
    · rw [List.singleton_append, valueFrom_cons, hvalue, hrest.2, Nat.ofDigitChars_cons,
        Nat.mul_comm]

/-- What `repr` writes is a numeral. -/
theorem numeral_repr (n : Nat) : Numeral (Utf8.encode n.repr) n := by
  have hdigits : ∀ c ∈ Nat.toDigits 10 n, c.isDigit = true :=
    fun c hc => Nat.isDigit_of_mem_toDigits (by omega) (by omega) hc
  obtain ⟨hall, hvalue⟩ := valueFrom_encode hdigits 0
  unfold Utf8.encode
  rw [Nat.toList_repr]
  refine ⟨?_, hall, ?_⟩
  · intro hnil
    rw [List.flatMap_eq_nil_iff] at hnil
    obtain ⟨c, hc⟩ := List.exists_mem_of_ne_nil _ (Nat.toDigits_ne_nil (n := n) (b := 10))
    exact String.utf8EncodeChar_ne_nil (hnil c hc)
  · rw [value, hvalue, Nat.ofDigitChars_ten_toDigits]

/-- A number is printed as a numeral or as a minus sign and a numeral. -/
theorem print_cases (n : Int) :
    (0 ≤ n ∧ Numeral (print n) n.toNat) ∨
      (n < 0 ∧ ∃ text, print n = 0x2D :: text ∧ Numeral text n.natAbs) := by
  unfold print
  cases n with
  | ofNat n => exact .inl ⟨Int.natCast_nonneg n, numeral_repr n⟩
  | negSucc n =>
    refine .inr ⟨Int.negSucc_lt_zero n, Utf8.encode (n + 1).repr, ?_, numeral_repr (n + 1)⟩
    show Utf8.encode ("-" ++ (n + 1).repr) = _
    unfold Utf8.encode
    rw [String.toList_append, List.flatMap_append]
    rfl

/-- A printed integer has digits, and a minus sign at most. -/
theorem print_bytes {n : Int} {b : UInt8} (h : b ∈ print n) : b = 0x2D ∨ isDigit b = true := by
  rcases print_cases n with ⟨_, htext⟩ | ⟨_, text, hprint, htext⟩
  · exact .inr (htext.digits b h)
  · rw [hprint] at h
    rcases List.mem_cons.mp h with rfl | h
    · exact .inl rfl
    · exact .inr (htext.digits b h)

/-- The same for its characters. -/
theorem toString_chars {n : Int} {c : Char} (h : c ∈ (toString n).toList) :
    c = '-' ∨ c.isDigit = true := by
  have hdigits : ∀ {m : Nat}, c ∈ m.repr.toList → c.isDigit = true := by
    intro m hc
    rw [Nat.toList_repr] at hc
    exact Nat.isDigit_of_mem_toDigits (by omega) (by omega) hc
  cases n with
  | ofNat n => exact .inr (hdigits h)
  | negSucc n =>
    have hminus : c ∈ ("-" ++ (n + 1).repr).toList := h
    rw [String.toList_append, List.mem_append] at hminus
    rcases hminus with hc | hc
    · exact .inl (List.mem_singleton.mp hc)
    · exact .inr (hdigits hc)

/-- Different integers are printed differently. -/
theorem print_injective : Function.Injective print := by
  intro m n h
  have hminus : ∀ {text : List UInt8} {k : Nat}, ¬ Numeral (0x2D :: text) k := by
    intro text k hnum
    exact absurd (hnum.digits _ (List.mem_cons_self ..)) (by decide)
  rcases print_cases m with ⟨hm, htext⟩ | ⟨hm, text, hprint, htext⟩ <;>
    rcases print_cases n with ⟨hn, htext'⟩ | ⟨hn, text', hprint', htext'⟩
  · have := htext.eq (h ▸ htext')
    omega
  · rw [h, hprint'] at htext
    exact absurd htext hminus
  · rw [← h, hprint] at htext'
    exact absurd htext' hminus
  · obtain rfl : text = text' := by
      rw [hprint, hprint'] at h
      exact (List.cons.inj h).2
    have := htext.eq htext'
    omega

end Decimal

import Mathlib.Data.List.Basic
import Mathlib.Data.Nat.Notation
import Mathlib.Order.Basic
import Mathlib.Algebra.Group.Nat.Defs

/-!
# Numerals of one width

`digits w n` are the last `w` decimal digits of `n`. Numerals of one width are
in lexicographic order as their numbers are (`digits_lt`), and a shortest
numeral that fits is one once it is filled up with zeros (`leftpad_toDigits`).
-/

namespace FixedWidth

/-- The last `w` digits. -/
def digits : ℕ → ℕ → List Char
  | 0, _ => []
  | w + 1, n => digits w (n / 10) ++ [(n % 10).digitChar]

@[simp] theorem length_digits (w n : ℕ) : (digits w n).length = w := by
  induction w generalizing n with
  | zero => rfl
  | succ w ih => simp [digits, ih]

/-- Digits are in the order of their characters. -/
theorem digitChar_lt {a b : ℕ} (ha : a < 10) (hb : b < 10) : a.digitChar < b.digitChar ↔ a < b := by
  have hall : ∀ a : Fin 10, ∀ b : Fin 10, a.1.digitChar < b.1.digitChar ↔ a.1 < b.1 := by decide
  exact hall ⟨a, ha⟩ ⟨b, hb⟩

theorem digitChar_inj {a b : ℕ} (ha : a < 10) (hb : b < 10) : a.digitChar = b.digitChar ↔ a = b := by
  have hall : ∀ a : Fin 10, ∀ b : Fin 10, a.1.digitChar = b.1.digitChar ↔ a.1 = b.1 := by decide
  exact hall ⟨a, ha⟩ ⟨b, hb⟩

/-- The last characters count only where the ones before them agree. -/
theorem append_lt_append {xs ys : List Char} {x y : Char} (h : xs.length = ys.length) :
    xs ++ [x] < ys ++ [y] ↔ xs < ys ∨ xs = ys ∧ x < y := by
  induction xs generalizing ys with
  | nil =>
    obtain rfl := List.length_eq_zero_iff.mp h.symm
    rw [List.nil_append, List.nil_append, List.cons_lt_cons_iff]
    simp
  | cons a xs ih =>
    cases ys with
    | nil => cases h
    | cons b ys =>
    have htail := @ih ys (Nat.succ.inj h)
    rw [List.cons_append, List.cons_append, List.cons_lt_cons_iff, List.cons_lt_cons_iff, htail,
      List.cons.injEq]
    tauto

/-- The same text in front does not matter. -/
theorem append_lt_append_left (front : List Char) {xs ys : List Char} :
    front ++ xs < front ++ ys ↔ xs < ys := by
  induction front with
  | nil => exact Iff.rfl
  | cons c front ih =>
    rw [List.cons_append, List.cons_append, List.cons_lt_cons_iff, ih]
    simp

/-- Numbers that fit have different numerals, -/
theorem digits_inj {w m n : ℕ} (hm : m < 10 ^ w) (hn : n < 10 ^ w) :
    digits w m = digits w n ↔ m = n := by
  induction w generalizing m n with
  | zero =>
    have hzero : m = n := by omega
    simp [digits, hzero]
  | succ w ih =>
    rw [Nat.pow_succ] at hm hn
    unfold digits
    constructor
    · intro h
      obtain ⟨hfront, hlast⟩ := List.append_inj' h rfl
      have hdiv := (ih (by omega) (by omega)).mp hfront
      have hmod := (digitChar_inj (by omega) (by omega)).mp (List.singleton_inj.mp hlast)
      omega
    · intro h
      rw [h]

/-- in the order of the numbers. -/
theorem digits_lt {w m n : ℕ} (hm : m < 10 ^ w) (hn : n < 10 ^ w) :
    digits w m < digits w n ↔ m < n := by
  induction w generalizing m n with
  | zero =>
    have hzero : m = n := by omega
    simp [digits, hzero]
  | succ w ih =>
    rw [Nat.pow_succ] at hm hn
    unfold digits
    rw [append_lt_append (by simp), ih (by omega) (by omega), digits_inj (by omega) (by omega),
      digitChar_lt (by omega) (by omega)]
    omega

/-- Zero is all zeros. -/
theorem digits_zero (w : ℕ) : digits w 0 = List.replicate w '0' := by
  induction w with
  | zero => rfl
  | succ w ih =>
    unfold digits
    rw [ih, List.replicate_succ']
    rfl

/-- Filling up with zeros. -/
theorem leftpad_toDigits {w n : ℕ} (hn : n < 10 ^ w) (hw : 0 < w) :
    List.leftpad w '0' (Nat.toDigits 10 n) = digits w n := by
  induction w generalizing n with
  | zero => omega
  | succ w ih =>
    unfold List.leftpad digits
    by_cases hlt : n < 10
    · rw [Nat.toDigits_of_lt_base hlt, Nat.div_eq_of_lt hlt, digits_zero, Nat.mod_eq_of_lt hlt]
      rfl
    · rw [Nat.pow_succ] at hn
      have hpos : 0 < w := by
        rcases Nat.eq_zero_or_pos w with rfl | hpos
        · omega
        · exact hpos
      rw [Nat.toDigits_of_base_le (by decide) (by omega), ← ih (by omega) hpos]
      unfold List.leftpad
      rw [List.length_append, List.append_assoc, List.length_singleton, Nat.add_sub_add_right]

end FixedWidth

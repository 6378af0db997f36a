import Mathlib.Algebra.Group.Nat.Defs
import Mathlib.Data.List.Basic
import Mathlib.Tactic.Common
import Mathlib.Tactic.SplitIfs

/-!
# Fields of a message

A length-prefixed field is its length in eight bytes, most significant first,
and then its bytes. What follows a field can be told from it, so two
concatenations of fields are equal only if the fields are, provided that no field
is longer than eight bytes can say.

Fields that are joined by a separator can be told apart only as long as the
separator does not occur in them (`separated_inj`).
-/

namespace Framing

/-- The last `width` bytes of a number, most significant first. -/
def bigEndian : Nat → Nat → List UInt8
  | 0, _ => []
  | width + 1, n => bigEndian width (n / 256) ++ [UInt8.ofNat n]

@[simp] theorem length_bigEndian (width n : Nat) : (bigEndian width n).length = width := by
  induction width generalizing n with
  | zero => rfl
  | succ width ih => rw [bigEndian, List.length_append, ih, List.length_singleton]

/-- Numbers that fit have different bytes. -/
theorem bigEndian_inj {width m n : Nat} (hm : m < 256 ^ width) (hn : n < 256 ^ width)
    (h : bigEndian width m = bigEndian width n) : m = n := by
  induction width generalizing m n with
  | zero => omega
  | succ width ih =>
    rw [Nat.pow_succ] at hm hn
    obtain ⟨hhigh, hlow⟩ := List.append_inj' h rfl
    have hdiv : m / 256 = n / 256 :=
      ih (Nat.div_lt_of_lt_mul (by omega)) (Nat.div_lt_of_lt_mul (by omega)) hhigh
    have hmod : m % 256 = n % 256 := by
      have := congrArg UInt8.toNat (List.singleton_inj.mp hlow)
      simpa only [UInt8.toNat_ofNat'] using this
    omega

/-- One field; the length is cast to 64 bits. -/
def field (bytes : List UInt8) : List UInt8 := bigEndian 8 (bytes.length % 2 ^ 64) ++ bytes

/-- Short enough for its length to be written. -/
def Fits (bytes : List UInt8) : Prop := bytes.length < 2 ^ 64

instance (bytes : List UInt8) : Decidable (Fits bytes) :=
  inferInstanceAs (Decidable (bytes.length < 2 ^ 64))

/-- The length tells where a field ends. -/
theorem field_append_inj {a b after after' : List UInt8} (ha : Fits a) (hb : Fits b)
    (h : field a ++ after = field b ++ after') : a = b ∧ after = after' := by
  unfold Fits at ha hb
  unfold field at h
  rw [List.append_assoc, List.append_assoc, Nat.mod_eq_of_lt ha, Nat.mod_eq_of_lt hb] at h
  obtain ⟨hlength, hrest⟩ := List.append_inj h (by rw [length_bigEndian, length_bigEndian])
  exact List.append_inj hrest (bigEndian_inj (by omega) (by omega) hlength)

/-- Equally many fields are equal when their concatenations are. -/
theorem fields_append_inj {as bs : List (List UInt8)} {after after' : List UInt8}
    (hlength : as.length = bs.length) (has : ∀ a ∈ as, Fits a) (hbs : ∀ b ∈ bs, Fits b)
    (h : as.flatMap field ++ after = bs.flatMap field ++ after') : as = bs ∧ after = after' := by
  induction as generalizing bs with
  | nil =>
    obtain rfl := List.length_eq_zero_iff.mp hlength.symm
    exact ⟨rfl, h⟩
  | cons a as ih =>
    cases bs with
    | nil => cases hlength
    | cons b bs =>
      rw [List.flatMap_cons, List.flatMap_cons, List.append_assoc, List.append_assoc] at h
      obtain ⟨rfl, hrest⟩ := field_append_inj (has a (List.mem_cons_self ..))
        (hbs b (List.mem_cons_self ..)) h
      obtain ⟨rfl, rfl⟩ := ih (Nat.succ.inj hlength)
        (fun x hx => has x (List.mem_cons_of_mem _ hx))
        (fun x hx => hbs x (List.mem_cons_of_mem _ hx)) hrest
      exact ⟨rfl, rfl⟩

/-! ## Separated fields -/

section Separated

variable {α : Type} {sep : α} {x x' y y' : List α}

/-- A message whose first field has no separator in it, read in another way: the
first field is longer there. -/
theorem separated_inj (hx : sep ∉ x) (h : x ++ sep :: y = x' ++ sep :: y') :
    x' = x ∧ y' = y ∨ ∃ z, x' = x ++ sep :: z ∧ y = z ++ sep :: y' := by
  rcases List.append_eq_append_iff.mp h with ⟨a, rfl, ha⟩ | ⟨c, rfl, hc⟩
  · cases a with
    | nil => exact .inl ⟨List.append_nil x, (List.cons.inj ha).2.symm⟩
    | cons b z =>
      obtain ⟨rfl, hz⟩ := List.cons.inj ha
      exact .inr ⟨z, rfl, hz⟩
  · cases c with
    | nil => exact .inl ⟨(List.append_nil x').symm, (List.cons.inj hc).2⟩
    | cons b z =>
      obtain ⟨rfl, _⟩ := List.cons.inj hc
      exact absurd (List.mem_append_right x' (List.mem_cons_self ..)) hx

/-- Neither side has the separator, so it is at the same place. -/
theorem separated_inj' (hx : sep ∉ x) (hx' : sep ∉ x') (h : x ++ sep :: y = x' ++ sep :: y') :
    x' = x ∧ y' = y := by
  rcases separated_inj hx h with h | ⟨z, rfl, _⟩
  · exact h
  · exact absurd (List.mem_append_right x (List.mem_cons_self ..)) hx'

end Separated

end Framing

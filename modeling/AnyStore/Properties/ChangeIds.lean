import AnyStore.Lib.FixedWidth
import AnyStore.Model.Domain

/-!
# The ids of Changes

The id of a Change is its sequence number as a numeral of 20 digits, which is
more than any sequence number has. So the ids come in the order of the numbers,
and the database renders the same ones as the application.

## Results

* `change_ids_ordered`: different numbers have different ids, the ids are in the
  order of the numbers, and `lpad` in the database gives the same text.

## Assumptions

A sequence number is a `bigint` that is not negative: it lies below 2^63.
-/

namespace AnyStore

variable {m n : Nat}

/-- A sequence number has at most 19 digits. -/
theorem seq_fits (h : n < 2 ^ 63) : n < 10 ^ 20 := by
  have hpow : 2 ^ 63 < 10 ^ 20 := by decide
  omega

/-- The shortest numeral, filled up with zeros on the left, is the numeral of 20 digits. -/
theorem leftpad_toString (h : n < 2 ^ 63) :
    List.leftpad 20 '0' (toString n).toList = FixedWidth.digits 20 n := by
  rw [Nat.toString_eq_ofList_toDigits, String.toList_ofList,
    FixedWidth.leftpad_toDigits (seq_fits h) (by decide)]

/-- The application's id. -/
theorem ChangeId.toList_fromSeq (h : n < 2 ^ 63) :
    (ChangeId.fromSeq n).toList = "chg_".toList ++ FixedWidth.digits 20 n := by
  unfold ChangeId.fromSeq
  rw [String.toList_append, leftpad_toString h]
  exact congrArg ("chg_".toList ++ ·) String.toList_ofList

/-- Behind one prefix, numerals of one width are in the order of their numbers. -/
theorem ChangeId.fromSeq_lt (hm : m < 2 ^ 63) (hn : n < 2 ^ 63) :
    ChangeId.fromSeq m < ChangeId.fromSeq n ↔ m < n := by
  rw [String.lt_iff, ChangeId.toList_fromSeq hm, ChangeId.toList_fromSeq hn,
    ← FixedWidth.digits_lt (seq_fits hm) (seq_fits hn)]
  exact FixedWidth.append_lt_append_left _

/-- Different numbers have different ids. -/
theorem ChangeId.fromSeq_inj (hm : m < 2 ^ 63) (hn : n < 2 ^ 63) :
    ChangeId.fromSeq m = ChangeId.fromSeq n ↔ m = n := by
  rw [← String.toList_inj, ChangeId.toList_fromSeq hm, ChangeId.toList_fromSeq hn,
    List.append_cancel_left_eq, FixedWidth.digits_inj (seq_fits hm) (seq_fits hn)]

/-- `lpad` cuts nothing off. -/
theorem ChangeId.appended_eq (h : n < 2 ^ 63) : ChangeId.appended n = ChangeId.fromSeq n := by
  unfold ChangeId.appended ChangeId.fromSeq lpad
  rw [leftpad_toString h, List.take_of_length_le (Nat.le_of_eq (FixedWidth.length_digits 20 n))]

/-- **Ids.** Injective, in order, and the same on both sides. -/
theorem change_ids_ordered (m n : Nat) (hm : m < 2 ^ 63) (hn : n < 2 ^ 63) :
    (ChangeId.fromSeq m = ChangeId.fromSeq n → m = n) ∧
      (ChangeId.fromSeq m < ChangeId.fromSeq n ↔ m < n) ∧
      ChangeId.appended n = ChangeId.fromSeq n :=
  ⟨(ChangeId.fromSeq_inj hm hn).mp, ChangeId.fromSeq_lt hm hn, ChangeId.appended_eq hn⟩

theorem change_ids_ordered_ten : (ChangeId.fromSeq 9 = ChangeId.fromSeq 10 → 9 = 10) ∧
    (ChangeId.fromSeq 9 < ChangeId.fromSeq 10 ↔ 9 < 10) ∧
    ChangeId.appended 10 = ChangeId.fromSeq 10 :=
  change_ids_ordered 9 10 (by decide) (by decide)

end AnyStore

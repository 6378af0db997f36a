import AnyStore.Lib.Decimal
import AnyStore.Model.Http

/-!
# Numerals in requests

What `str::parse` reads as a number, and digests in hexadecimal digits.
-/

namespace AnyStore

open Decimal

theorem toDigit_ten (b : UInt8) :
    toDigit 10 b = if isDigit b then some (b.toNat - 0x30) else none := by
  by_cases hdigit : isDigit b = true
  · have hrange := isDigit_iff.mp hdigit
    rw [if_pos hdigit]
    simp only [toDigit, UInt8.le_iff_toNat_le, UInt8.reduceToNat]
    rw [if_pos hrange, if_pos (by omega)]
  · rw [if_neg hdigit]
    rw [isDigit_iff] at hdigit
    simp only [toDigit, UInt8.le_iff_toNat_le, UInt8.reduceToNat]
    rw [if_neg hdigit]
    split_ifs
    all_goals first | rfl | omega

/-- Reading digits onto a number, each step of which is checked. -/
theorem foldlM_digits {bound n : Nat} (hn : n < bound) (text : List UInt8) (r : Nat) :
    text.foldlM (fun n b => do
      let n := n * 10 + (← toDigit 10 b)
      if n < bound then some n else none) n = some r ↔
      (∀ b ∈ text, isDigit b = true) ∧ valueFrom n text = r ∧ r < bound := by
  induction text generalizing n with
  | nil =>
    simp only [List.foldlM_nil, List.not_mem_nil, false_implies, implies_true, true_and]
    show some n = some r ↔ valueFrom n [] = r ∧ _
    rw [Option.some.injEq]
    show n = r ↔ n = r ∧ _
    constructor
    · rintro rfl
      exact ⟨rfl, hn⟩
    · exact And.left
  | cons b text ih =>
    rw [List.foldlM_cons, toDigit_ten, valueFrom_cons]
    by_cases hdigit : isDigit b = true
    · rw [if_pos hdigit]
      simp only [Option.bind_eq_bind, Option.bind_some, List.mem_cons, forall_eq_or_imp, hdigit,
        true_and]
      by_cases hbound : n * 10 + (b.toNat - 0x30) < bound
      · rw [if_pos hbound]
        exact ih hbound
      · rw [if_neg hbound]
        -- the number only grows
        have hle := le_valueFrom (n * 10 + (b.toNat - 0x30)) text
        constructor
        · intro h
          cases h
        · rintro ⟨_, hvalue, hr⟩
          omega
    · rw [if_neg hdigit]
      constructor
      · intro h
        cases h
      · rintro ⟨hall, _⟩
        exact absurd (hall b (List.mem_cons_self ..)) hdigit

theorem isDigit_plus : isDigit 0x2B = false := by decide

/-- `str::parse` reads a numeral, with or without a `+` in front. -/
theorem fromStrRadix_ten {bound : Nat} (hbound : 0 < bound) (text : List UInt8) (r : Nat) :
    fromStrRadix 10 bound text = some r ↔
      r < bound ∧ ∃ sign digits, text = sign ++ digits ∧ (sign = [] ∨ sign = [0x2B]) ∧
        Numeral digits r := by
  have hplain : ∀ digits : List UInt8, digits ≠ [] →
      (digits.foldlM (fun n b => do
        let n := n * 10 + (← toDigit 10 b)
        if n < bound then some n else none) 0 = some r ↔ r < bound ∧ Numeral digits r) := by
    intro digits hne
    rw [foldlM_digits hbound]
    constructor
    · rintro ⟨hdigits, hvalue, hr⟩
      exact ⟨hr, hne, hdigits, hvalue⟩
    · rintro ⟨hr, hnum⟩
      exact ⟨hnum.digits, hnum.value_eq, hr⟩
  -- a text that starts with no `+` has no sign
  have hunsigned : ∀ b rest, b ≠ 0x2B →
      ((∃ sign digits, (b :: rest : List UInt8) = sign ++ digits ∧ (sign = [] ∨ sign = [0x2B]) ∧
        Numeral digits r) ↔ Numeral (b :: rest) r) := by
    intro b rest hb
    constructor
    · rintro ⟨sign, digits, htext, rfl | rfl, hnum⟩
      · rw [htext]
        exact hnum
      · exact absurd (List.cons.inj htext).1 hb
    · intro hnum
      exact ⟨[], b :: rest, rfl, .inl rfl, hnum⟩
  have hsigned : ∀ rest : List UInt8,
      ((∃ sign digits, (0x2B :: rest : List UInt8) = sign ++ digits ∧
        (sign = [] ∨ sign = [0x2B]) ∧ Numeral digits r) ↔ Numeral rest r) := by
    intro rest
    constructor
    · rintro ⟨sign, digits, htext, rfl | rfl, hnum⟩
      · have hplus := hnum.digits 0x2B (by
          rw [← List.nil_append digits, ← htext]
          exact List.mem_cons_self ..)
        rw [isDigit_plus] at hplus
        cases hplus
      · rw [(List.cons.inj htext).2]
        exact hnum
    · intro hnum
      exact ⟨[0x2B], rest, rfl, .inr rfl, hnum⟩
  have hempty : ∀ {n : Nat}, ¬ Numeral [] n := fun hnum => hnum.nonempty rfl
  rcases text with _ | ⟨b, _ | ⟨c, rest⟩⟩
  · simp only [fromStrRadix]
    constructor
    · intro h
      cases h
    · rintro ⟨_, sign, digits, htext, _, hnum⟩
      obtain ⟨rfl, rfl⟩ := List.append_eq_nil_iff.mp htext.symm
      exact absurd hnum hempty
  · simp only [fromStrRadix]
    by_cases hplus : b = 0x2B
    · rw [if_pos (.inl hplus), hplus, hsigned]
      constructor
      · intro h
        cases h
      · exact fun h => absurd h.2 hempty
    · rw [hunsigned b [] hplus]
      by_cases hminus : b = 0x2D
      · rw [if_pos (.inr hminus), hminus]
        constructor
        · intro h
          cases h
        · exact fun h => absurd (h.2.digits _ (List.mem_cons_self ..)) (by decide)
      · rw [if_neg (not_or.mpr ⟨hplus, hminus⟩)]
        exact hplain [b] (List.cons_ne_nil _ _)
  · simp only [fromStrRadix]
    by_cases hplus : b = 0x2B
    · rw [if_pos hplus, hplus, hsigned]
      exact hplain _ (List.cons_ne_nil _ _)
    · rw [if_neg hplus, hunsigned _ _ hplus]
      exact hplain _ (List.cons_ne_nil _ _)

/-! ## Hexadecimal texts -/

theorem digitChar_inj {m n : Nat} (hm : m < 16) (hn : n < 16)
    (h : Nat.digitChar m = Nat.digitChar n) : m = n := by
  have hall : ∀ i j : Fin 16, Nat.digitChar i = Nat.digitChar j → i = j := by decide
  exact congrArg Fin.val (hall ⟨m, hm⟩ ⟨n, hn⟩ h)

theorem hexEncode_injective : Function.Injective hexEncode := by
  intro as bs h
  have htext := String.ofList_injective h
  clear h
  induction as generalizing bs with
  | nil =>
    cases bs with
    | nil => rfl
    | cons b bs => cases htext
  | cons a as ih =>
    cases bs with
    | nil => cases htext
    | cons b bs =>
      obtain ⟨hhigh, htext⟩ := List.cons.inj htext
      obtain ⟨hlow, htext⟩ := List.cons.inj htext
      have ha := a.toNat_lt
      have hb := b.toNat_lt
      have hdiv := digitChar_inj (by omega) (by omega) hhigh
      have hmod := digitChar_inj (by omega) (by omega) hlow
      have hbyte : a = b := by
        rw [← UInt8.toNat_inj]
        omega
      rw [hbyte, ih htext]

theorem hexEncode_chars {bytes : List UInt8} {c : Char} (h : c ∈ (hexEncode bytes).toList) :
    c ≠ '%' ∧ c ≠ '&' ∧ c ≠ '#' := by
  have hall : ∀ i : Fin 16, Nat.digitChar i ≠ '%' ∧ Nat.digitChar i ≠ '&' ∧
      Nat.digitChar i ≠ '#' := by decide
  unfold hexEncode at h
  rw [String.toList_ofList] at h
  obtain ⟨b, _, hc⟩ := List.mem_flatMap.mp h
  have hb := b.toNat_lt
  simp only [List.mem_cons, List.not_mem_nil, or_false] at hc
  rcases hc with rfl | rfl
  · exact hall ⟨b.toNat / 16, by omega⟩
  · exact hall ⟨b.toNat % 16, by omega⟩

/-! ## Signed integers -/

/-- Digits below a sign. -/
theorem foldlM_signed {sign : Int} (hsign : sign = 1 ∨ sign = -1) {text : List UInt8} (k : Nat)
    (hdigits : ∀ b ∈ text, isDigit b = true)
    (hlow : -(2 ^ 63) ≤ sign * valueFrom k text)
    (hhigh : sign * valueFrom k text < 2 ^ 63) :
    text.foldlM (fun n b => do
      let n := n * 10 + sign * (← toDigit 10 b)
      if -(2 ^ 63) ≤ n ∧ n < 2 ^ 63 then some n else none) (sign * k) =
      some (sign * (valueFrom k text : Int)) := by
  induction text generalizing k with
  | nil => rfl
  | cons b text ih =>
    rw [valueFrom_cons] at hlow hhigh ⊢
    have hdigit := hdigits b (List.mem_cons_self ..)
    have hle := le_valueFrom (k * 10 + (b.toNat - 0x30)) text
    have hstep : sign * (k : Int) * 10 + sign * ((b.toNat - 0x30 : Nat) : Int) =
        sign * ((k * 10 + (b.toNat - 0x30) : Nat) : Int) := by
      rw [Int.mul_assoc, ← Int.mul_add]
      congr 1
    -- the prefixes of a number lie between zero and the number
    have hrange : -(2 ^ 63) ≤ sign * ((k * 10 + (b.toNat - 0x30) : Nat) : Int) ∧
        sign * ((k * 10 + (b.toNat - 0x30) : Nat) : Int) < 2 ^ 63 := by
      rcases hsign with rfl | rfl <;> omega
    rw [List.foldlM_cons, toDigit_ten, if_pos hdigit]
    simp only [Option.bind_eq_bind, Option.bind_some]
    rw [hstep, if_pos hrange]
    exact ih _ (fun a ha => hdigits a (List.mem_cons_of_mem _ ha)) hlow hhigh

theorem parseI64_print {e : Int} (hlow : -(2 ^ 63) ≤ e) (hhigh : e < 2 ^ 63) :
    parseI64 (print e) = some e := by
  rcases print_cases e with ⟨hnonneg, hnum⟩ | ⟨hneg, text, hprint, hnum⟩
  · have hvalue : ((value (print e) : Nat) : Int) = e := by
      rw [hnum.value_eq]
      omega
    have hsigned : (1 : Int) * ((value (print e) : Nat) : Int) = e := by
      rw [Int.one_mul, hvalue]
    have hread := foldlM_signed (.inl rfl) 0 hnum.digits (hlow.trans_eq hsigned.symm)
      (hsigned.trans_lt hhigh)
    have hresult := hread.trans (congrArg some hsigned)
    have hfirst : ∀ b ∈ print e, b ≠ 0x2B ∧ b ≠ 0x2D := by
      intro b hb
      have hdigit := hnum.digits b hb
      constructor <;> rintro rfl <;> exact absurd hdigit (by decide)
    have hne := hnum.nonempty
    generalize print e = bytes at hresult hfirst hne
    rcases bytes with _ | ⟨b, _ | ⟨c, rest⟩⟩
    · exact absurd rfl hne
    · obtain ⟨hplus, hminus⟩ := hfirst b (List.mem_cons_self ..)
      simp only [parseI64]
      rw [if_neg (not_or.mpr ⟨hplus, hminus⟩)]
      exact hresult
    · obtain ⟨hplus, hminus⟩ := hfirst b (List.mem_cons_self ..)
      simp only [parseI64]
      rw [if_neg hplus, if_neg hminus]
      exact hresult
  · have hvalue : (-1 : Int) * ((value text : Nat) : Int) = e := by
      rw [hnum.value_eq]
      omega
    have hread := foldlM_signed (.inr rfl) 0 hnum.digits (hlow.trans_eq hvalue.symm)
      (hvalue.trans_lt hhigh)
    have hresult := hread.trans (congrArg some hvalue)
    rw [hprint]
    rcases text with _ | ⟨c, rest⟩
    · exact absurd rfl hnum.nonempty
    · simp only [parseI64]
      rw [if_neg (by decide), if_pos trivial]
      exact hresult

/-- What is read fits into 64 bits. -/
theorem parseI64_range {text : List UInt8} {e : Int} (h : parseI64 text = some e) :
    -(2 ^ 63) ≤ e ∧ e < 2 ^ 63 := by
  have hfold : ∀ (sign : Int) (text : List UInt8) (n : Int), -(2 ^ 63) ≤ n ∧ n < 2 ^ 63 →
      text.foldlM (fun n b => do
        let n := n * 10 + sign * (← toDigit 10 b)
        if -(2 ^ 63) ≤ n ∧ n < 2 ^ 63 then some n else none) n = some e →
      -(2 ^ 63) ≤ e ∧ e < 2 ^ 63 := by
    intro sign text
    induction text with
    | nil =>
      intro n hn h
      rw [← Option.some.inj h]
      exact hn
    | cons b text ih =>
      intro n hn h
      rw [List.foldlM_cons] at h
      obtain ⟨m, hm, hrest⟩ := Option.bind_eq_some_iff.mp h
      obtain ⟨d, _, hd⟩ := Option.bind_eq_some_iff.mp hm
      have hd' : (if -(2 ^ 63) ≤ n * 10 + sign * (d : Int) ∧ n * 10 + sign * (d : Int) < 2 ^ 63 then
          some (n * 10 + sign * (d : Int)) else none) = some m := hd
      split_ifs at hd' with hrange
      obtain rfl := Option.some.inj hd'
      exact ih _ hrange hrest
  rcases text with _ | ⟨b, _ | ⟨c, rest⟩⟩ <;> simp only [parseI64] at h
  · cases h
  · split_ifs at h
    exact hfold _ _ 0 (by decide) h
  · split_ifs at h
    all_goals exact hfold _ _ 0 (by decide) h

end AnyStore

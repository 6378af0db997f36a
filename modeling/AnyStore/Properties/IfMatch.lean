import AnyStore.Refinement.Numerals

/-!
# Reading `If-Match`

Which header values name a revision, and which ones are read as one.

## Results

* `if_match_read`: a value is read as the revision that it names, and no other
  value is read as one, exactly if it is not a numeral that is written loosely,
  with a sign or between other quotes than one pair.
* `if_match_misread`: `+7` is read as 7.

## Assumptions

The header is there, and its value is not blank: a blank one is a missing one.
-/

namespace AnyStore

open Decimal

/-! ## Quotes -/

abbrev quote : UInt8 := 0x22

/-- `text` is `inner` between so many quotes, and `inner` is bare. -/
structure Quoted (text : List UInt8) (before : Nat) (inner : List UInt8) (after : Nat) : Prop where
  text_eq : text = List.replicate before quote ++ (inner ++ List.replicate after quote)
  nonempty : inner ≠ []
  bare : quote ∉ inner

/-- Quotes in front of something else are dropped. -/
theorem dropWhile_replicate_append (n : Nat) {b : UInt8} {rest : List UInt8} (hb : b ≠ quote) :
    (List.replicate n quote ++ b :: rest).dropWhile (· == quote) = b :: rest := by
  induction n with
  | zero =>
    show (b :: rest).dropWhile _ = _
    rw [List.dropWhile_cons_of_neg (by simpa using hb)]
  | succ n ih =>
    rw [List.replicate_succ, List.cons_append, List.dropWhile_cons_of_pos (by simp)]
    exact ih

/-- What is dropped are quotes only. -/
theorem exists_replicate_dropWhile (text : List UInt8) :
    ∃ n, text = List.replicate n quote ++ text.dropWhile (· == quote) := by
  induction text with
  | nil => exact ⟨0, rfl⟩
  | cons b text ih =>
    by_cases hb : b = quote
    · obtain ⟨n, hn⟩ := ih
      refine ⟨n + 1, ?_⟩
      rw [List.dropWhile_cons_of_pos (by simpa using hb), List.replicate_succ, List.cons_append,
        ← hn, hb]
    · refine ⟨0, ?_⟩
      rw [List.dropWhile_cons_of_neg (by simpa using hb)]
      rfl

/-- Trimming leaves what is between the quotes. -/
theorem Quoted.trimMatches_eq {text inner : List UInt8} {before after : Nat}
    (h : Quoted text before inner after) : trimMatches (· == quote) text = inner := by
  obtain ⟨first, rest, hfirst⟩ := List.exists_cons_of_ne_nil h.nonempty
  have hfirst_ne : first ≠ quote := by
    rintro rfl
    exact h.bare (hfirst ▸ List.mem_cons_self ..)
  -- the same from the other end
  obtain ⟨last, front, hlast⟩ := List.exists_cons_of_ne_nil (List.reverse_ne_nil_iff.mpr h.nonempty)
  have hlast_ne : last ≠ quote := by
    rintro rfl
    exact h.bare (List.mem_reverse.mp (hlast ▸ List.mem_cons_self ..))
  unfold trimMatches
  rw [h.text_eq, hfirst, List.cons_append, dropWhile_replicate_append before hfirst_ne,
    ← List.cons_append, ← hfirst, List.rdropWhile, List.reverse_append, List.reverse_replicate,
    hlast, dropWhile_replicate_append after hlast_ne, ← hlast, List.reverse_reverse]

/-- A text without its quotes, when something is left. -/
theorem quoted_trimMatches {text : List UInt8} (hne : trimMatches (· == quote) text ≠ [])
    (hbare : quote ∉ trimMatches (· == quote) text) :
    ∃ before after, Quoted text before (trimMatches (· == quote) text) after := by
  obtain ⟨before, hbefore⟩ := exists_replicate_dropWhile text
  obtain ⟨after, hafter⟩ := exists_replicate_dropWhile (text.dropWhile (· == quote)).reverse
  refine ⟨before, after, ?_, hne, hbare⟩
  rw [← List.reverse_inj, List.reverse_reverse, List.reverse_append, List.reverse_replicate] at hafter
  unfold trimMatches List.rdropWhile
  rw [← hafter]
  exact hbefore

/-- A text is quoted in one way only. -/
theorem Quoted.unique {text inner inner' : List UInt8} {before before' after after' : Nat}
    (h : Quoted text before inner after) (h' : Quoted text before' inner' after') :
    inner = inner' ∧ before = before' ∧ after = after' := by
  have hinner : inner = inner' := h.trimMatches_eq.symm.trans h'.trimMatches_eq
  subst hinner
  obtain ⟨first, rest, hfirst⟩ := List.exists_cons_of_ne_nil h.nonempty
  have hne : first ≠ quote := by
    rintro rfl
    exact h.bare (hfirst ▸ List.mem_cons_self ..)
  -- the quotes in front can be counted, as the next byte is none
  have htake : ∀ {k m : Nat}, text = List.replicate k quote ++ (inner ++ List.replicate m quote) →
      (text.takeWhile (· == quote)).length = k := by
    intro k m htext
    rw [htext, hfirst, List.cons_append, List.takeWhile_append_of_pos (by simp),
      List.takeWhile_cons_of_neg (by simpa using hne), List.append_nil, List.length_replicate]
  have hbefore : before = before' := (htake h.text_eq).symm.trans (htake h'.text_eq)
  -- and those behind it by the length of the text
  have hlength := congrArg List.length (h.text_eq.symm.trans h'.text_eq)
  simp only [List.length_append, List.length_replicate] at hlength
  exact ⟨rfl, hbefore, by omega⟩

/-! ## `If-Match` -/

/-- The text is a revision: a numeral below 2^64, bare or in one pair of
quotes. -/
def NamesRevision (text : List UInt8) (r : Nat) : Prop :=
  r < 2 ^ 64 ∧ (Numeral text r ∨ ∃ inner, text = quote :: (inner ++ [quote]) ∧ Numeral inner r)

/-- The header is read as the revision that its value names. A value that names
none is an error, and none is taken for a missing header. -/
def NeverMisread (headers : HeaderMap) (value : HeaderValue) : Prop :=
  (∀ r, parseIfMatch headers = .ok (some r) ↔ NamesRevision (trim value.bytes) r) ∧
    parseIfMatch headers ≠ .ok none

/-- A numeral with a sign, or in other quotes than one pair. -/
def LooselyWritten (text : List UInt8) : Prop :=
  ∃ before sign digits after r, Quoted text before (sign ++ digits) after ∧ Numeral digits r ∧
    r < 2 ^ 64 ∧ (sign = [0x2B] ∨ sign = [] ∧ ¬ (before = after ∧ before ≤ 1))

/-- A numeral has no quotes. -/
theorem Numeral.bare {text : List UInt8} {n : Nat} (h : Numeral text n) : quote ∉ text :=
  fun hmem => absurd (h.digits _ hmem) (by decide)

/-- Neither has a numeral with a sign. -/
theorem quoted_sign {sign digits : List UInt8} {r : Nat} (hsign : sign = [] ∨ sign = [0x2B])
    (hnum : Numeral digits r) : sign ++ digits ≠ [] ∧ quote ∉ sign ++ digits := by
  refine ⟨List.append_ne_nil_of_right_ne_nil _ hnum.nonempty, ?_⟩
  rw [List.mem_append, not_or]
  refine ⟨?_, Numeral.bare hnum⟩
  rcases hsign with rfl | rfl <;> decide

/-- What is read: quotes do not matter, and neither does a `+`. -/
theorem read_quoted (text : List UInt8) (r : Nat) :
    fromStrRadix 10 (2 ^ 64) (trimMatches (· == quote) text) = some r ↔ r < 2 ^ 64 ∧
      ∃ before sign digits after, Quoted text before (sign ++ digits) after ∧
        (sign = [] ∨ sign = [0x2B]) ∧ Numeral digits r := by
  rw [fromStrRadix_ten (by decide)]
  refine and_congr_right fun _ => ?_
  constructor
  · rintro ⟨sign, digits, htext, hsign, hnum⟩
    obtain ⟨hne, hbare⟩ := quoted_sign hsign hnum
    rw [← htext] at hne hbare
    obtain ⟨before, after, hquoted⟩ := quoted_trimMatches hne hbare
    exact ⟨before, sign, digits, after, htext ▸ hquoted, hsign, hnum⟩
  · rintro ⟨before, sign, digits, after, hquoted, hsign, hnum⟩
    exact ⟨sign, digits, hquoted.trimMatches_eq, hsign, hnum⟩

/-- A revision is a numeral in no quotes or in one pair of them. -/
theorem namesRevision_iff (text : List UInt8) (r : Nat) :
    NamesRevision text r ↔ r < 2 ^ 64 ∧
      ∃ n digits, n ≤ 1 ∧ Quoted text n digits n ∧ Numeral digits r := by
  refine and_congr_right fun _ => ?_
  constructor
  · rintro (hnum | ⟨inner, htext, hnum⟩)
    · exact ⟨0, text, by omega, ⟨by simp, hnum.nonempty, Numeral.bare hnum⟩, hnum⟩
    · exact ⟨1, inner, by omega, ⟨htext, hnum.nonempty, Numeral.bare hnum⟩, hnum⟩
  · rintro ⟨n, digits, hn, hquoted, hnum⟩
    obtain rfl | rfl : n = 0 ∨ n = 1 := by omega
    · left
      have htext := hquoted.text_eq
      simp only [List.replicate_zero, List.nil_append, List.append_nil] at htext
      rwa [htext]
    · exact .inr ⟨digits, hquoted.text_eq, hnum⟩

section Parse

variable {headers : HeaderMap} {value : HeaderValue}

/-- A value that is not visible ASCII is refused. -/
theorem parseIfMatch_opaque (hvalue : headers.get ifMatchHeader = some value)
    (hascii : value.bytes.all isVisibleAscii = false) :
    parseIfMatch headers = .error (.invalidRequest "if-match must be ASCII.") := by
  unfold parseIfMatch headerValue HeaderValue.toStr
  rw [hvalue]
  simp only [hascii]
  rfl

/-- Another value is read without its quotes. -/
theorem parseIfMatch_visible (hvalue : headers.get ifMatchHeader = some value)
    (hblank : trim value.bytes ≠ []) (hascii : value.bytes.all isVisibleAscii = true) :
    parseIfMatch headers = (fromStrRadix 10 (2 ^ 64) (trimMatches (· == quote) (trim value.bytes))).elim
      (.error (.invalidRequest "If-Match must be an object revision number."))
      fun n => .ok (some n) := by
  have hnonempty : (trim value.bytes).isEmpty = false := by simpa using hblank
  unfold parseIfMatch headerValue HeaderValue.toStr
  rw [hvalue]
  simp only [hascii, hnonempty, if_true, Bool.false_eq_true, if_false, bind, Except.bind, quote]
  cases fromStrRadix 10 (2 ^ 64) (trimMatches (· == 0x22) (trim value.bytes)) <;> rfl

/-- What is not left was trimmed. -/
theorem mem_trimMatches {p : UInt8 → Bool} {text : List UInt8} {b : UInt8} (h : b ∈ text) :
    b ∈ trimMatches p text ∨ p b = true := by
  have hdrop : ∀ {l : List UInt8}, b ∈ l → b ∈ l.dropWhile p ∨ p b = true := by
    intro l hl
    rw [← List.takeWhile_append_dropWhile (p := p) (l := l), List.mem_append] at hl
    rcases hl with hl | hl
    · exact .inr (List.mem_takeWhile_imp hl)
    · exact .inl hl
  rcases hdrop h with h | h
  · rcases hdrop (List.mem_reverse.mpr h) with h | h
    · exact .inl (List.mem_reverse.mpr h)
    · exact .inr h
  · exact .inr h

/-- What is trimmed off a header value is visible. -/
theorem visible_of_trim (h : ∀ b ∈ trim value.bytes, isVisibleAscii b = true) :
    value.bytes.all isVisibleAscii = true := by
  rw [List.all_eq_true]
  intro b hb
  rcases mem_trimMatches (p := isWhitespace) hb with htrim | hspace
  · exact h b htrim
  · have hvalid := value.valid b hb
    simp only [isWhitespace, isVisibleAscii, Bool.or_eq_true, Bool.and_eq_true, beq_iff_eq,
      decide_eq_true_eq, UInt8.le_iff_toNat_le, UInt8.lt_iff_toNat_lt, ← UInt8.toNat_inj,
      UInt8.reduceToNat, ne_eq] at hvalid hspace ⊢
    omega

/-- A numeral between quotes is visible ASCII. -/
theorem quoted_visible {text sign digits : List UInt8} {before after r : Nat}
    (h : Quoted text before (sign ++ digits) after) (hsign : sign = [] ∨ sign = [0x2B])
    (hnum : Numeral digits r) : ∀ b ∈ text, isVisibleAscii b = true := by
  intro b hb
  rw [h.text_eq] at hb
  simp only [List.mem_append, List.mem_replicate] at hb
  -- quotes, a sign, digits, quotes
  rcases hb with ⟨_, rfl⟩ | (hb | hb) | ⟨_, rfl⟩
  · decide
  · rcases hsign with rfl | rfl
    · cases hb
    · obtain rfl := List.mem_singleton.mp hb
      decide
  · have hdigit := isDigit_iff.mp (hnum.digits b hb)
    simp only [isVisibleAscii, Bool.or_eq_true, Bool.and_eq_true, decide_eq_true_eq,
      UInt8.le_iff_toNat_le, UInt8.lt_iff_toNat_lt, UInt8.reduceToNat]
    omega
  · decide

/-- So is what names a revision, -/
theorem NamesRevision.visible {text : List UInt8} {r : Nat} (h : NamesRevision text r) :
    ∀ b ∈ text, isVisibleAscii b = true := by
  obtain ⟨_, n, digits, _, hquoted, hnum⟩ := (namesRevision_iff text r).mp h
  exact quoted_visible (hquoted : Quoted text n ([] ++ digits) n) (.inl rfl) hnum

/-- and what is written loosely. -/
theorem LooselyWritten.visible {text : List UInt8} (h : LooselyWritten text) :
    ∀ b ∈ text, isVisibleAscii b = true := by
  obtain ⟨before, sign, digits, after, r, hquoted, hnum, _, hsign⟩ := h
  exact quoted_visible hquoted (hsign.symm.imp_left And.left) hnum

/-- `If-Match` is read as it is meant, unless the value is a numeral that is
written loosely. -/
theorem if_match_read (hvalue : headers.get ifMatchHeader = some value)
    (hblank : trim value.bytes ≠ []) :
    NeverMisread headers value ↔ ¬ LooselyWritten (trim value.bytes) := by
  by_cases hascii : value.bytes.all isVisibleAscii = true
  · have hparse := parseIfMatch_visible hvalue hblank hascii
    have hsome : ∀ r, parseIfMatch headers = .ok (some r) ↔
        fromStrRadix 10 (2 ^ 64) (trimMatches (· == quote) (trim value.bytes)) = some r := by
      intro r
      rw [hparse]
      cases fromStrRadix 10 (2 ^ 64) (trimMatches (· == quote) (trim value.bytes)) <;> simp
    have hnone : parseIfMatch headers ≠ .ok none := by
      rw [hparse]
      cases fromStrRadix 10 (2 ^ 64) (trimMatches (· == quote) (trim value.bytes)) <;> simp
    constructor
    · -- a loosely written numeral is read, so it would have to name the revision
      rintro ⟨hread, _⟩ ⟨before, sign, digits, after, r, hquoted, hnum, hr, hloose⟩
      have hsign : sign = [] ∨ sign = [0x2B] := hloose.symm.imp_left And.left
      have hnames := (hread r).mp ((hsome r).mpr
        ((read_quoted _ r).mpr ⟨hr, before, sign, digits, after, hquoted, hsign, hnum⟩))
      -- the value has one reading only
      obtain ⟨_, n, digits', hn, hquoted', hnum'⟩ := (namesRevision_iff _ r).mp hnames
      obtain ⟨hinner, rfl, rfl⟩ := hquoted.unique hquoted'
      rcases hloose with rfl | ⟨_, hcounts⟩
      · have hplus := hnum'.digits 0x2B (hinner ▸ List.mem_cons_self ..)
        rw [isDigit_plus] at hplus
        cases hplus
      · exact hcounts ⟨rfl, hn⟩
    · intro hloose
      refine ⟨fun r => ?_, hnone⟩
      rw [hsome, read_quoted, namesRevision_iff]
      refine and_congr_right fun hr => ?_
      constructor
      · -- what is read and not loose has no sign, and no quotes or one pair
        rintro ⟨before, sign, digits, after, hquoted, hsign, hnum⟩
        rcases hsign with rfl | rfl
        · have hcounts : before = after ∧ before ≤ 1 := by
            by_contra hne
            exact hloose ⟨before, [], digits, after, r, hquoted, hnum, hr, .inr ⟨rfl, hne⟩⟩
          obtain ⟨rfl, hle⟩ := hcounts
          exact ⟨before, digits, hle, hquoted, hnum⟩
        · exact absurd ⟨before, [0x2B], digits, after, r, hquoted, hnum, hr, .inl rfl⟩ hloose
      · rintro ⟨n, digits, _, hquoted, hnum⟩
        exact ⟨n, [], digits, n, hquoted, .inl rfl, hnum⟩
  · -- such a value is an error, and names no revision
    rw [Bool.not_eq_true] at hascii
    have hparse := parseIfMatch_opaque hvalue hascii
    have hinvisible : ∃ b ∈ trim value.bytes, isVisibleAscii b ≠ true := by
      by_contra hall
      push Not at hall
      rw [visible_of_trim hall] at hascii
      cases hascii
    obtain ⟨b, hb, hinvisible⟩ := hinvisible
    constructor
    · exact fun _ hloose => hinvisible (hloose.visible b hb)
    · intro _
      refine ⟨fun r => ?_, fun h => ?_⟩
      · rw [hparse]
        constructor
        · intro h
          cases h
        · exact fun h => absurd (h.visible b hb) hinvisible
      · rw [hparse] at h
        cases h

end Parse

def quotedSeven : HeaderValue := ⟨[0x22, 0x37, 0x22], List.all_iff_forall_prop.mp (by decide)⟩

/-- `"7"` is not written loosely. -/
theorem if_match_read_quotedSeven :
    NeverMisread [(ifMatchHeader, quotedSeven)] quotedSeven ↔
      ¬ LooselyWritten (trim quotedSeven.bytes) :=
  if_match_read rfl (by decide)

def plusSeven : HeaderValue := ⟨[0x2B, 0x37], List.all_iff_forall_prop.mp (by decide)⟩

/-- `+7` is read as 7. -/
theorem if_match_misread : ¬ NeverMisread [(ifMatchHeader, plusSeven)] plusSeven := by
  intro h
  have hparse : parseIfMatch [(ifMatchHeader, plusSeven)] = .ok (some 7) := by rfl
  have hnames : NamesRevision [0x2B, 0x37] 7 := (h.1 7).mp hparse
  rcases hnames.2 with hnum | ⟨inner, htext, _⟩
  · exact absurd (hnum.digits 0x2B (List.mem_cons_self ..)) (by decide)
  · exact absurd (List.cons.inj htext).1 (by decide)

end AnyStore

import AnyStore.Lib.Decimal
import AnyStore.Lib.Framing
import AnyStore.Lib.Percent

/-!
# `Content-Disposition`

The grammar of the header (RFC 6266) with the extended values of RFC 8187, as
relations between a text and what it says. A value `'`-separated into a charset,
a language and percent-encoded characters can be read in one way only, so a
header that ends in one delivers a name exactly if the characters are allowed.

* `delivers_iff` — which names survive an encoder.
-/

namespace Disposition

open FormUrl (hexValue hexDigit)

/-! ## Characters -/

/-- Letters and digits. -/
def isAlphanum (b : UInt8) : Bool :=
  Decimal.isDigit b || (0x41 ≤ b && b ≤ 0x5A) || (0x61 ≤ b && b ≤ 0x7A)

/-- `attr-char`. -/
def isAttrChar (b : UInt8) : Bool :=
  isAlphanum b ||
    [0x21, 0x23, 0x24, 0x26, 0x2B, 0x2D, 0x2E, 0x5E, 0x5F, 0x60, 0x7C, 0x7E].contains b

-- a token may also have `%`, `'` and `*`
/-- `token` has three characters more. -/
def isTokenChar (b : UInt8) : Bool := isAttrChar b || [0x25, 0x27, 0x2A].contains b

/-- The characters of a charset name, -/
def isCharsetChar (b : UInt8) : Bool :=
  isAlphanum b ||
    [0x21, 0x23, 0x24, 0x25, 0x26, 0x2B, 0x2D, 0x5E, 0x5F, 0x60, 0x7B, 0x7D, 0x7E].contains b

/-- and of a language tag. -/
def isLanguageChar (b : UInt8) : Bool := isAlphanum b || b == 0x2D

/-- A space or a tab. -/
def isBlank (b : UInt8) : Bool := b == 0x20 || b == 0x09

/-! ## Grammar -/

/-- Optional white space. -/
def Blanks (text : List UInt8) : Prop := ∀ b ∈ text, isBlank b = true

/-- A word of token characters. -/
structure Token (text : List UInt8) : Prop where
  nonempty : text ≠ []
  chars : ∀ b ∈ text, isTokenChar b = true

/-- The characters of an extended value, and the bytes that they stand for. -/
inductive ValueChars : List UInt8 → List UInt8 → Prop
  | nil : ValueChars [] []
  | char {b : UInt8} {text bytes : List UInt8} : isAttrChar b = true → ValueChars text bytes →
      ValueChars (b :: text) (b :: bytes)
  | escape {h l x y : UInt8} {text bytes : List UInt8} : hexValue h = some x →
      hexValue l = some y → ValueChars text bytes →
      ValueChars (0x25 :: h :: l :: text) ((16 * x + y) :: bytes)

/-- `charset'language'characters`. -/
structure ExtValue (text charset language bytes : List UInt8) : Prop where
  nonempty : charset ≠ []
  charsetChars : ∀ b ∈ charset, isCharsetChar b = true
  languageChars : ∀ b ∈ language, isLanguageChar b = true
  parts : ∃ chars, text = charset ++ 0x27 :: (language ++ 0x27 :: chars) ∧ ValueChars chars bytes

/-- The inside of a quoted string. -/
inductive Quoted : List UInt8 → List UInt8 → Prop
  | nil : Quoted [] []
  | char {b : UInt8} {text bytes : List UInt8} : b ≠ 0x22 → b ≠ 0x5C → (0x20 ≤ b ∨ b = 0x09) →
      b ≠ 0x7F → Quoted text bytes → Quoted (b :: text) (b :: bytes)
  | pair {b : UInt8} {text bytes : List UInt8} : b.toNat < 128 → Quoted text bytes →
      Quoted (0x5C :: b :: text) (b :: bytes)

/-- The value of a parameter: plain, or with a charset and a language. -/
inductive Value
  | plain (bytes : List UInt8)
  | ext (charset language bytes : List UInt8)

def Value.isExt : Value → Bool
  | .plain _ => false
  | .ext .. => true

/-- A parameter; the name of one with an extended value ends in `*`, which is not
part of the name here. -/
inductive Parameter : List UInt8 → List UInt8 → Value → Prop
  | token {name before after value : List UInt8} : Token name → name.getLast? ≠ some 0x2A →
      Blanks before → Blanks after → Token value →
      Parameter (name ++ before ++ 0x3D :: (after ++ value)) name (.plain value)
  | quoted {name before after text value : List UInt8} : Token name →
      name.getLast? ≠ some 0x2A → Blanks before → Blanks after → Quoted text value →
      Parameter (name ++ before ++ 0x3D :: (after ++ 0x22 :: (text ++ [0x22]))) name (.plain value)
  | ext {name before after text charset language bytes : List UInt8} : Token name →
      Blanks before → Blanks after → ExtValue text charset language bytes →
      Parameter (name ++ 0x2A :: before ++ 0x3D :: (after ++ text)) name
        (.ext charset language bytes)

/-- What follows the type: parameters, each behind a semicolon. -/
inductive Parameters : List UInt8 → List (List UInt8 × Value) → Prop
  | nil {blanks : List UInt8} : Blanks blanks → Parameters blanks []
  | cons {before after text name rest : List UInt8} {value : Value}
      {params : List (List UInt8 × Value)} : Blanks before → Blanks after →
      Parameter text name value → Parameters rest params →
      Parameters (before ++ 0x3B :: (after ++ (text ++ rest))) ((name, value) :: params)

/-- A well-formed header value. No parameter occurs twice; `filename` and
`filename*` are two. -/
structure Header (text kind : List UInt8) (params : List (List UInt8 × Value)) : Prop where
  kindToken : Token kind
  parts : ∃ rest, text = kind ++ rest ∧ Parameters rest params
  nodup : (params.map fun p => (p.1, p.2.isExt)).Nodup

def utf8Charset : List UInt8 := [0x55, 0x54, 0x46, 0x2D, 0x38]

def filename : List UInt8 := [0x66, 0x69, 0x6C, 0x65, 0x6E, 0x61, 0x6D, 0x65]

/-- The header is well formed, and its `filename*` is the name. -/
def Delivers (text : List UInt8) (name : String) : Prop :=
  ∃ kind params language, Header text kind params ∧
    (filename, .ext utf8Charset language (Utf8.encode name)) ∈ params

/-! ## Extended values -/

section ExtValues

variable {set : Percent.AsciiSet} {text bytes : List UInt8}

/-- What stands in an extended value. -/
theorem ValueChars.mem (h : ValueChars text bytes) {b : UInt8} (hb : b ∈ text) :
    b = 0x25 ∨ isAttrChar b = true := by
  -- a hexadecimal digit may stand anywhere
  have hhex : ∀ {d x : UInt8}, hexValue d = some x → isAttrChar d = true := by
    intro d x hd
    have hrange := FormUrl.hexValue_range (Option.isSome_iff_exists.mpr ⟨x, hd⟩)
    unfold isAttrChar isAlphanum Decimal.isDigit
    simp only [Bool.or_eq_true, Bool.and_eq_true, decide_eq_true_eq, UInt8.le_iff_toNat_le,
      UInt8.reduceToNat] at hrange ⊢
    omega
  induction h with
  | nil => cases hb
  | char hattr _ ih =>
    rcases List.mem_cons.mp hb with rfl | hb
    · exact .inr hattr
    · exact ih hb
  | escape hx hy _ ih =>
    simp only [List.mem_cons] at hb
    rcases hb with rfl | rfl | rfl | hb
    · exact .inl rfl
    · exact .inr (hhex hx)
    · exact .inr (hhex hy)
    · exact ih hb

/-- What an encoder writes is an extended value if what it leaves alone may
stand there. -/
theorem ValueChars.encode {bs : List UInt8}
    (h : ∀ b ∈ bs, Percent.escapes set b = false → isAttrChar b = true) :
    ValueChars (Percent.encode set bs) bs := by
  unfold Percent.encode
  induction bs with
  | nil => exact .nil
  | cons b bs ih =>
    have hrest := ih fun a ha => h a (List.mem_cons_of_mem _ ha)
    rw [List.flatMap_cons]
    unfold Percent.encodeByte
    by_cases hb : Percent.escapes set b = true
    · obtain ⟨hhigh, hlow, hsum⟩ := Percent.hexDigits b
      rw [if_pos hb]
      have hescape := ValueChars.escape hhigh hlow hrest
      rwa [hsum] at hescape
    · rw [if_neg hb]
      exact .char (h b (List.mem_cons_self ..) (Bool.eq_false_iff.mpr hb)) hrest

/-- A byte that was not escaped may stand in it. -/
theorem ValueChars.of_encode (hpercent : set 0x25 = true) {bs : List UInt8}
    (h : ValueChars (Percent.encode set bs) bytes) {b : UInt8} (hb : b ∈ bs)
    (hplain : Percent.escapes set b = false) : isAttrChar b = true := by
  rcases h.mem (Percent.mem_encode hb hplain) with rfl | hattr
  · have hescaped : Percent.escapes set 0x25 = true := Bool.or_eq_true_iff.mpr (.inr hpercent)
    rw [hescaped] at hplain
    cases hplain
  · exact hattr

/-- No charset has a quote. -/
theorem isCharsetChar_ne {b : UInt8} (h : isCharsetChar b = true) : b ≠ 0x27 := by
  rintro rfl
  exact absurd h (by decide)

/-- An extended value can be read in one way. -/
theorem ExtValue.unique {charset language chars : List UInt8}
    (h : ExtValue (utf8Charset ++ 0x27 :: 0x27 :: chars) charset language bytes) :
    charset = utf8Charset ∧ language = [] ∧ ValueChars chars bytes := by
  obtain ⟨chars', htext, hchars⟩ := h.parts
  have hquote : (0x27 : UInt8) ∉ charset := fun hmem => isCharsetChar_ne (h.charsetChars _ hmem) rfl
  obtain ⟨hcharset, hrest⟩ := Framing.separated_inj' (by decide) hquote htext
  have hlanguage : (0x27 : UInt8) ∉ language := by
    intro hmem
    exact absurd (h.languageChars _ hmem) (by decide)
  have hsep : [] ++ 0x27 :: chars = language ++ 0x27 :: chars' := hrest.symm
  obtain ⟨hnil, hsame⟩ := Framing.separated_inj' List.not_mem_nil hlanguage hsep
  exact ⟨hcharset, hnil, hsame ▸ hchars⟩

end ExtValues

/-! ## Headers with one parameter -/

section OneParameter

variable {text name : List UInt8} {value : Value} {params : List (List UInt8 × Value)}

/-- Blanks are no equals signs. -/
theorem Blanks.equals (h : Blanks text) : 0x3D ∉ text := fun hmem => absurd (h _ hmem) (by decide)

/-- Neither are tokens. -/
theorem Token.equals (h : Token text) : 0x3D ∉ text :=
  fun hmem => absurd (h.chars _ hmem) (by decide)

/-- Every parameter has an equals sign. -/
theorem Parameter.count (h : Parameter text name value) : 1 ≤ text.count 0x3D := by
  rw [Nat.succ_le_iff, List.count_pos_iff]
  cases h
  all_goals exact List.mem_append_right _ (List.mem_cons_self ..)

/-- There are as many equals signs as parameters, at least. -/
theorem Parameters.count (h : Parameters text params) : params.length ≤ text.count 0x3D := by
  induction h with
  | nil _ => exact Nat.zero_le _
  | cons _ _ hparam _ ih =>
    have hone := hparam.count
    rw [List.length_cons, List.count_append, List.count_cons, List.count_append, List.count_append]
    omega

/-- A header whose one equals sign stands before an extended value. -/
theorem Header.single {kind front after : List UInt8} (h : Header (front ++ 0x3D :: after) kind params)
    (hfront : 0x3D ∉ front) (hafter : 0x3D ∉ after) {charset language bytes : List UInt8}
    (hmem : (name, .ext charset language bytes) ∈ params) :
    ∃ before text rest, Blanks before ∧ Blanks rest ∧ after = before ++ (text ++ rest) ∧
      ExtValue text charset language bytes := by
  obtain ⟨body, hbody, hparams⟩ := h.parts
  have hone : body.count 0x3D = 1 := by
    have htotal := congrArg (List.count 0x3D) hbody
    rw [List.count_append, List.count_append, List.count_cons_self, List.count_eq_zero.mpr hfront,
      List.count_eq_zero.mpr hafter, List.count_eq_zero.mpr h.kindToken.equals] at htotal
    omega
  have hlength := hparams.count
  cases hparams with
  | nil _ => cases hmem
  | cons hbefore hmiddle hparam hrest =>
    rename_i before middle ptext pname rest value params
    -- there is no second parameter
    obtain rfl : params = [] := by
      rw [List.length_cons] at hlength
      exact List.length_eq_zero_iff.mp (by omega)
    have hblanks : Blanks rest := by
      cases hrest
      assumption
    rw [List.mem_singleton, Prod.mk.injEq] at hmem
    obtain ⟨rfl, rfl⟩ := hmem
    cases hparam with
    | ext htoken hleft hright hext =>
      rename_i left right text
      have hnoeq : (0x3D : UInt8) ∉ kind ++ before ++ 0x3B :: (middle ++ (name ++ 0x2A :: left)) := by
        simp only [List.mem_append, List.mem_cons, not_or]
        exact ⟨⟨h.kindToken.equals, hbefore.equals⟩, by decide, hmiddle.equals, htoken.equals,
          by decide, hleft.equals⟩
      have hsplit : front ++ 0x3D :: after =
          (kind ++ before ++ 0x3B :: (middle ++ (name ++ 0x2A :: left))) ++
            0x3D :: (right ++ (text ++ rest)) := by
        rw [hbody]
        simp only [List.append_assoc, List.cons_append]
      obtain ⟨_, hsame⟩ := Framing.separated_inj' hfront hnoeq hsplit
      exact ⟨right, text, rest, hright, hblanks, hsame.symm, hext⟩

end OneParameter

/-! ## Attachments -/

/-- The header of an attachment whose name is written by a percent-encoder. -/
def attachment (set : Percent.AsciiSet) (name : String) : List UInt8 :=
  [0x61, 0x74, 0x74, 0x61, 0x63, 0x68, 0x6D, 0x65, 0x6E, 0x74, 0x3B, 0x20] ++ filename ++ [0x2A] ++
    0x3D :: (utf8Charset ++ 0x27 :: 0x27 :: Percent.encode set (Utf8.encode name))

section Attachments

variable {set : Percent.AsciiSet} {name : String}

/-- What has to be escaped for the header to have one parameter. -/
structure Separates (set : Percent.AsciiSet) : Prop where
  percent : set 0x25 = true
  equals : set 0x3D = true
  space : set 0x20 = true
  tab : set 0x09 = true

/-- What is escaped has neither blanks nor equals signs. -/
theorem Separates.not_blank (h : Separates set) {bs : List UInt8} {b : UInt8}
    (hb : b ∈ Percent.encode set bs) : isBlank b = false ∧ b ≠ 0x3D := by
  have hescaped : ∀ {b : UInt8}, set b = true → Percent.escapes set b = true :=
    fun hb => Bool.or_eq_true_iff.mpr (.inr hb)
  constructor
  · rw [Bool.eq_false_iff]
    intro hblank
    unfold isBlank at hblank
    rw [Bool.or_eq_true, beq_iff_eq, beq_iff_eq] at hblank
    rcases hblank with rfl | rfl
    · exact Percent.not_mem_encode (hescaped h.space) (by decide) (by decide) (by decide) hb
    · exact Percent.not_mem_encode (hescaped h.tab) (by decide) (by decide) (by decide) hb
  · rintro rfl
    exact Percent.not_mem_encode (hescaped h.equals) (by decide) (by decide) (by decide) hb

/-- A name of characters that may stand there is delivered. -/
theorem delivers_of_attrChars
    (h : ∀ b ∈ Utf8.encode name, Percent.escapes set b = false → isAttrChar b = true) :
    Delivers (attachment set name) name := by
  have hext : ExtValue (utf8Charset ++ 0x27 :: 0x27 :: Percent.encode set (Utf8.encode name))
      utf8Charset [] (Utf8.encode name) :=
    ⟨by decide, List.all_eq_true.mp (by decide), List.all_eq_true.mp (by decide), _, rfl,
      ValueChars.encode h⟩
  have hblank : Blanks [0x20] := by
    intro b hb
    rw [List.mem_singleton.mp hb]
    decide
  have hnone : Blanks [] := fun b hb => absurd hb List.not_mem_nil
  have htoken : Token filename := ⟨by decide, List.all_eq_true.mp (by decide)⟩
  have hparam := Parameter.ext htoken hnone hnone hext
  have hparams := Parameters.cons hnone hblank hparam (.nil hnone)
  refine ⟨[0x61, 0x74, 0x74, 0x61, 0x63, 0x68, 0x6D, 0x65, 0x6E, 0x74], _, [],
    ⟨⟨by decide, List.all_eq_true.mp (by decide)⟩, ⟨_, ?_, hparams⟩, by simp⟩,
    List.mem_singleton.mpr rfl⟩
  rw [List.append_nil]
  rfl

/-- A name survives exactly if every byte that is not escaped may stand in an
extended value. -/
theorem delivers_iff (hset : Separates set) : Delivers (attachment set name) name ↔
    ∀ b ∈ Utf8.encode name, Percent.escapes set b = false → isAttrChar b = true := by
  constructor
  · rintro ⟨kind, params, language, hheader, hmem⟩ b hb hplain
    have hafter : (0x3D : UInt8) ∉
        utf8Charset ++ 0x27 :: 0x27 :: Percent.encode set (Utf8.encode name) := by
      simp only [List.mem_append, List.mem_cons, not_or]
      exact ⟨by decide, by decide, by decide, fun hmem => (hset.not_blank hmem).2 rfl⟩
    obtain ⟨before, text, rest, hbefore, hrest, hvalue, hext⟩ :=
      hheader.single (by decide) hafter hmem
    -- no blanks stand around the value
    have hcharset : ∀ c ∈ utf8Charset, isBlank c = false :=
      List.all_iff_forall_prop.mp (by decide)
    obtain rfl : before = [] := by
      cases before with
      | nil => rfl
      | cons c before =>
        have hc := hbefore c (List.mem_cons_self ..)
        rw [← (List.cons.inj hvalue).1] at hc
        exact absurd hc (by decide)
    obtain rfl : rest = [] := by
      rw [List.eq_nil_iff_forall_not_mem]
      intro c hc
      have hblank := hrest c hc
      have hmem : c ∈ utf8Charset ++ 0x27 :: 0x27 :: Percent.encode set (Utf8.encode name) := by
        rw [hvalue]
        exact List.mem_append_right _ (List.mem_append_right _ hc)
      simp only [List.mem_append, List.mem_cons] at hmem
      rcases hmem with hmem | rfl | rfl | hmem
      · rw [hcharset c hmem] at hblank
        cases hblank
      · exact absurd hblank (by decide)
      · exact absurd hblank (by decide)
      · rw [(hset.not_blank hmem).1] at hblank
        cases hblank
    rw [List.nil_append, List.append_nil] at hvalue
    rw [← hvalue] at hext
    exact hext.unique.2.2.of_encode hset.percent hb hplain
  · exact delivers_of_attrChars

end Attachments

end Disposition

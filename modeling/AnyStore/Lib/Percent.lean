import AnyStore.Lib.FormUrl

/-!
# Percent-encoding

`encode` replaces the bytes of a set, and all bytes beyond ASCII, by a percent
sign and two hexadecimal digits, and leaves the others alone; `decode` reads such
escapes and leaves a percent sign that starts none alone. Whenever the percent
sign is in the set, decoding undoes encoding. Texts are read back from the
decoded bytes as UTF-8.

* `decode_encode`, `readText_write` — the round trips.
* `encode_bytes` — what an encoded text consists of.
-/

namespace Percent

open FormUrl (hexValue hexDigit)

/-- A set of ASCII bytes to be escaped. -/
abbrev AsciiSet := UInt8 → Bool

/-- A byte is escaped if it is in the set, or no ASCII. -/
def escapes (set : AsciiSet) (b : UInt8) : Bool := 0x80 ≤ b || set b

/-- One byte. -/
def encodeByte (set : AsciiSet) (b : UInt8) : List UInt8 :=
  if escapes set b then [0x25, hexDigit (b / 16), hexDigit (b % 16)] else [b]

/-- All of them. -/
def encode (set : AsciiSet) (bs : List UInt8) : List UInt8 := bs.flatMap (encodeByte set)

/-- Escapes are read, and everything else is left as it is. -/
def decode : List UInt8 → List UInt8
  | b :: h :: l :: after =>
    if b = 0x25 then
      match hexValue h, hexValue l with
      | some x, some y => (16 * x + y) :: decode after
      | _, _ => b :: decode (h :: l :: after)
    else b :: decode (h :: l :: after)
  | b :: rest => b :: decode rest
  | [] => []

/-- `percent_decode_str` and `decode_utf8_lossy`. -/
def readText (bs : List UInt8) : String := Utf8.fromUtf8Lossy (decode bs)

/-- `utf8_percent_encode`. -/
def write (set : AsciiSet) (s : String) : String := Utf8.ofAscii (encode set (Utf8.encode s))

/-! ## The round trip -/

theorem decode_plain {b : UInt8} (hb : b ≠ 0x25) (rest : List UInt8) :
    decode (b :: rest) = b :: decode rest := by
  rcases rest with _ | ⟨h, _ | ⟨l, after⟩⟩ <;> simp [decode, hb]

theorem decode_hex {h l x y : UInt8} (hx : hexValue h = some x) (hy : hexValue l = some y)
    (after : List UInt8) : decode (0x25 :: h :: l :: after) = (16 * x + y) :: decode after := by
  simp [decode, hx, hy]

/-- The two digits of a byte. -/
theorem hexDigits (b : UInt8) : hexValue (hexDigit (b / 16)) = some (b / 16) ∧
    hexValue (hexDigit (b % 16)) = some (b % 16) ∧ 16 * (b / 16) + b % 16 = b := by
  have hlow : (b % 16).toNat < 16 := by
    rw [UInt8.toNat_mod]
    exact Nat.mod_lt _ (by decide)
  have hhigh : (b / 16).toNat < 16 := by
    have := b.toNat_lt
    rw [UInt8.toNat_div]
    show b.toNat / 16 < 16
    omega
  refine ⟨FormUrl.hexValue_hexDigit hhigh, FormUrl.hexValue_hexDigit hlow, ?_⟩
  rw [← UInt8.toNat_inj, UInt8.toNat_add, UInt8.toNat_mul, UInt8.toNat_div, UInt8.toNat_mod]
  show (16 * (b.toNat / 16) % 256 + b.toNat % 16) % 256 = b.toNat
  have := b.toNat_lt
  omega

variable {set : AsciiSet}

/-- A byte comes back, whatever is behind it. -/
theorem decode_encodeByte (hset : set 0x25 = true) (b : UInt8) (rest : List UInt8) :
    decode (encodeByte set b ++ rest) = b :: decode rest := by
  unfold encodeByte
  by_cases hb : escapes set b = true
  · obtain ⟨hhigh, hlow, hsum⟩ := hexDigits b
    rw [if_pos hb]
    show decode (0x25 :: hexDigit (b / 16) :: hexDigit (b % 16) :: rest) = _
    rw [decode_hex hhigh hlow, hsum]
  · have hne : b ≠ 0x25 := by
      rintro rfl
      exact hb (Bool.or_eq_true_iff.mpr (.inr hset))
    rw [if_neg hb]
    exact decode_plain hne rest

/-- So do all of them. -/
theorem decode_encode_append (hset : set 0x25 = true) (bs rest : List UInt8) :
    decode (encode set bs ++ rest) = bs ++ decode rest := by
  unfold encode
  induction bs with
  | nil => rfl
  | cons b bs ih =>
    rw [List.flatMap_cons, List.append_assoc, decode_encodeByte hset, ih, List.cons_append]

/-- **Round trip.** The percent sign has to be in the set. -/
theorem decode_encode (hset : set 0x25 = true) (bs : List UInt8) :
    decode (encode set bs) = bs := by
  have h := decode_encode_append hset bs []
  rwa [List.append_nil, show decode [] = [] from rfl, List.append_nil] at h

/-- Bytes without percent signs say themselves. -/
theorem decode_plain_append {bs : List UInt8} (h : (0x25 : UInt8) ∉ bs) (rest : List UInt8) :
    decode (bs ++ rest) = bs ++ decode rest := by
  induction bs with
  | nil => rfl
  | cons b bs ih =>
    rw [List.mem_cons, not_or] at h
    rw [List.cons_append, decode_plain (Ne.symm h.1), ih h.2, List.cons_append]

/-- Without percent signs nothing is read. -/
theorem decode_eq_self {bs : List UInt8} (h : (0x25 : UInt8) ∉ bs) : decode bs = bs := by
  have happend := decode_plain_append h []
  rwa [List.append_nil, show decode [] = [] from rfl, List.append_nil] at happend

/-- The same for a text. -/
theorem readText_plain {s : String} (h : '%' ∉ s.toList) : readText (Utf8.encode s) = s := by
  have hbytes : (0x25 : UInt8) ∉ Utf8.encode s :=
    fun hmem => h ((Utf8.mem_encode_ascii (by decide)).mp hmem)
  unfold readText
  rw [decode_eq_self hbytes, Utf8.fromUtf8Lossy_encode]

/-! ## What is written -/

/-- Digits are decimal, or capital letters up to F. -/
theorem isHexDigit {n : UInt8} (h : n.toNat < 16) :
    (0x30 ≤ (hexDigit n).toNat ∧ (hexDigit n).toNat ≤ 0x39) ∨
      (0x41 ≤ (hexDigit n).toNat ∧ (hexDigit n).toNat ≤ 0x46) := by
  have hall : ∀ k : Fin 16, (0x30 ≤ (hexDigit (UInt8.ofNat k)).toNat ∧
      (hexDigit (UInt8.ofNat k)).toNat ≤ 0x39) ∨ (0x41 ≤ (hexDigit (UInt8.ofNat k)).toNat ∧
      (hexDigit (UInt8.ofNat k)).toNat ≤ 0x46) := by decide
  have hn := hall ⟨n.toNat, h⟩
  rwa [UInt8.ofNat_toNat] at hn

/-- Percent signs, digits and letters, and the bytes that are not escaped. -/
theorem encode_bytes {bs : List UInt8} {b : UInt8} (h : b ∈ encode set bs) :
    (b ∈ bs ∧ escapes set b = false) ∨ b = 0x25 ∨ (0x30 ≤ b.toNat ∧ b.toNat ≤ 0x39) ∨
      (0x41 ≤ b.toNat ∧ b.toNat ≤ 0x46) := by
  obtain ⟨a, ha, hb⟩ := List.mem_flatMap.mp h
  unfold encodeByte at hb
  split_ifs at hb with hescape
  · have hlow : (a % 16).toNat < 16 := by
      rw [UInt8.toNat_mod]
      exact Nat.mod_lt _ (by decide)
    have hhigh : (a / 16).toNat < 16 := by
      have := a.toNat_lt
      rw [UInt8.toNat_div]
      show a.toNat / 16 < 16
      omega
    simp only [List.mem_cons, List.not_mem_nil, or_false] at hb
    rcases hb with rfl | rfl | rfl
    · exact .inr (.inl rfl)
    · exact .inr (.inr (isHexDigit hhigh))
    · exact .inr (.inr (isHexDigit hlow))
  · obtain rfl := List.mem_singleton.mp hb
    exact .inl ⟨ha, Bool.eq_false_iff.mpr hescape⟩

/-- What was encoded is ASCII. -/
theorem encode_ascii {bs : List UInt8} {b : UInt8} (h : b ∈ encode set bs) : b.toNat < 128 := by
  rcases encode_bytes h with ⟨_, hb⟩ | rfl | hb | hb
  · have hlow := (Bool.or_eq_false_iff.mp hb).1
    rw [decide_eq_false_iff_not, UInt8.le_iff_toNat_le] at hlow
    exact Nat.lt_of_not_le hlow
  · decide
  · omega
  · omega

/-- An escaped byte that is no percent sign, digit or capital letter does not
occur. -/
theorem not_mem_encode {bs : List UInt8} {b : UInt8} (hescape : escapes set b = true)
    (hpercent : b ≠ 0x25) (hdigit : ¬ (0x30 ≤ b.toNat ∧ b.toNat ≤ 0x39))
    (hletter : ¬ (0x41 ≤ b.toNat ∧ b.toNat ≤ 0x46)) : b ∉ encode set bs := by
  intro h
  rcases encode_bytes h with ⟨_, hb⟩ | hb | hb | hb
  · rw [hescape] at hb
    cases hb
  · exact hpercent hb
  · exact hdigit hb
  · exact hletter hb

/-- A byte that is not escaped stays where it is. -/
theorem mem_encode {bs : List UInt8} {b : UInt8} (h : b ∈ bs) (hb : escapes set b = false) :
    b ∈ encode set bs := by
  refine List.mem_flatMap.mpr ⟨b, h, ?_⟩
  unfold encodeByte
  rw [hb]
  exact List.mem_singleton.mpr rfl

/-- Nothing is escaped that need not be. -/
theorem encode_eq_self {bs : List UInt8} (h : ∀ b ∈ bs, escapes set b = false) :
    encode set bs = bs := by
  unfold encode
  induction bs with
  | nil => rfl
  | cons b bs ih =>
    rw [List.flatMap_cons, ih fun a ha => h a (List.mem_cons_of_mem _ ha), encodeByte,
      if_neg (by rw [h b (List.mem_cons_self ..)]; decide), List.singleton_append]

/-- The bytes of what was written. -/
theorem encode_write (s : String) : Utf8.encode (write set s) = encode set (Utf8.encode s) :=
  Utf8.encode_ofAscii fun _ hb => encode_ascii hb

/-- **Round trip.** The same for a text. -/
theorem readText_write (hset : set 0x25 = true) (s : String) :
    readText (Utf8.encode (write set s)) = s := by
  rw [encode_write, readText, decode_encode hset, Utf8.fromUtf8Lossy_encode]

end Percent

import AnyStore.Lib.Utf8

/-!
# `application/x-www-form-urlencoded`

The reference codec. Reading splits at `&`, drops empty pieces, splits each at
its first `=` and unescapes both sides: `+` is a space, `%` with two
hexadecimal digits after it is the byte they name, any other `%` stands for
itself, and the bytes are read as UTF-8. Writing escapes every byte that is not
a letter, a digit or one of `*-._`. Reading what was written gives the pairs
back.
-/

namespace FormUrl

/-- The value of a hexadecimal digit. -/
def hexValue (b : UInt8) : Option UInt8 :=
  if 0x30 ≤ b ∧ b ≤ 0x39 then some (b - 0x30)
  else if 0x41 ≤ b ∧ b ≤ 0x46 then some (b - 0x37)
  else if 0x61 ≤ b ∧ b ≤ 0x66 then some (b - 0x57)
  else none

/-- The digit of a number below 16. -/
def hexDigit (n : UInt8) : UInt8 := if n < 10 then 0x30 + n else 0x37 + n

/-- Reading, byte by byte. -/
def unescape : List UInt8 → List UInt8
  | b :: h :: l :: after =>
    if b = 0x2B then 0x20 :: unescape (h :: l :: after)
    else if b = 0x25 then
      match hexValue h, hexValue l with
      | some x, some y => (16 * x + y) :: unescape after
      | _, _ => b :: unescape (h :: l :: after)
    else b :: unescape (h :: l :: after)
  -- too short for an escape
  | b :: rest => (if b = 0x2B then 0x20 else b) :: unescape rest
  | [] => []

/-- `split_once`. -/
def splitOnce (sep : UInt8) : List UInt8 → Option (List UInt8 × List UInt8)
  | [] => none
  | b :: rest =>
    if b = sep then some ([], rest)
    else (splitOnce sep rest).map fun (front, back) => (b :: front, back)

/-- The text of what was escaped. -/
def readText (bs : List UInt8) : String := Utf8.fromUtf8Lossy (unescape bs)

/-- A piece is split at its first `=`. -/
def readPair (piece : List UInt8) : String × String :=
  match splitOnce 0x3D piece with
  | some (k, v) => (readText k, readText v)
  | none => (readText piece, "")

/-- The pairs of a query. -/
def read (raw : String) : List (String × String) :=
  (((Utf8.encode raw).splitOn 0x26).filter fun piece => !piece.isEmpty).map readPair

/-! ## Writing -/

/-- Letters, digits and `*-._`. -/
def isUnreserved (b : UInt8) : Bool :=
  (0x30 ≤ b && b ≤ 0x39) || (0x41 ≤ b && b ≤ 0x5A) || (0x61 ≤ b && b ≤ 0x7A) ||
    b == 0x2A || b == 0x2D || b == 0x2E || b == 0x5F

/-- Writing one byte. -/
def escapeByte (b : UInt8) : List UInt8 :=
  if b = 0x20 then [0x2B]
  else if isUnreserved b then [b]
  else [0x25, hexDigit (b / 16), hexDigit (b % 16)]

/-- Writing bytes. -/
def escape (bs : List UInt8) : List UInt8 := bs.flatMap escapeByte

/-- Both sides escaped, and `=` between them. -/
def writePair (pair : String × String) : List UInt8 :=
  escape (Utf8.encode pair.1) ++ 0x3D :: escape (Utf8.encode pair.2)

/-- The pairs with `&` between them. -/
def write (pairs : List (String × String)) : String :=
  Utf8.ofAscii ([0x26].intercalate (pairs.map writePair))

/-! ## One byte -/

/-- What a byte is written as, in the three cases. -/
inductive Escaped (b : UInt8) : List UInt8 → Prop
  | space : b = 0x20 → Escaped b [0x2B]
  | plain : b ≠ 0x2B → b ≠ 0x25 → b ≠ 0x26 → b ≠ 0x3D → b.toNat < 128 → Escaped b [b]
  | hex (h l x y : UInt8) : hexValue h = some x → hexValue l = some y → 16 * x + y = b →
      Escaped b [0x25, h, l]

/-- A digit that was written is read. -/
theorem hexValue_hexDigit {n : UInt8} (h : n.toNat < 16) : hexValue (hexDigit n) = some n := by
  have hall : ∀ k : Fin 16, hexValue (hexDigit (UInt8.ofNat k)) = some (UInt8.ofNat k) := by decide
  have hn := hall ⟨n.toNat, h⟩
  rwa [UInt8.ofNat_toNat] at hn

/-- The three ways in which a byte is written. -/
theorem escaped (b : UInt8) : Escaped b (escapeByte b) := by
  unfold escapeByte
  split_ifs with hspace hplain
  · exact .space hspace
  · simp only [isUnreserved, Bool.or_eq_true, Bool.and_eq_true, decide_eq_true_eq, beq_iff_eq,
      UInt8.le_iff_toNat_le, ← UInt8.toNat_inj, UInt8.reduceToNat] at hplain
    refine .plain ?_ ?_ ?_ ?_ (by omega)
    all_goals
      rintro rfl
      simp at hplain
  · -- the digits of a byte are below 16, and make it up again
    have hlow : (b % 16).toNat < 16 := by
      rw [UInt8.toNat_mod]
      exact Nat.mod_lt _ (by decide)
    have hhigh : (b / 16).toNat < 16 := by
      have := b.toNat_lt
      rw [UInt8.toNat_div]
      show b.toNat / 16 < 16
      omega
    refine .hex _ _ _ _ (hexValue_hexDigit hhigh) (hexValue_hexDigit hlow) ?_
    rw [← UInt8.toNat_inj, UInt8.toNat_add, UInt8.toNat_mul, UInt8.toNat_div, UInt8.toNat_mod]
    show (16 * (b.toNat / 16) % 256 + b.toNat % 16) % 256 = b.toNat
    have := b.toNat_lt
    omega

/-- A digit is below 16. -/
theorem hexValue_lt {b x : UInt8} (h : hexValue b = some x) : x.toNat < 16 := by
  unfold hexValue at h
  split_ifs at h with h₁ h₂ h₃
  all_goals
    obtain rfl := Option.some.inj h
    simp only [UInt8.le_iff_toNat_le, UInt8.reduceToNat, UInt8.toNat_sub] at *
    omega

/-- Digits are decimal, or letters up to F. -/
theorem hexValue_range {b : UInt8} (h : (hexValue b).isSome) :
    (0x30 ≤ b ∧ b ≤ 0x39) ∨ (0x41 ≤ b ∧ b ≤ 0x46) ∨ (0x61 ≤ b ∧ b ≤ 0x66) := by
  unfold hexValue at h
  split_ifs at h with h₁ h₂ h₃
  · exact .inl h₁
  · exact .inr (.inl h₂)
  · exact .inr (.inr h₃)
  · cases h

/-- A byte that is no `+` and no `%` is left as it is. -/
theorem unescape_plain {b : UInt8} (hplus : b ≠ 0x2B) (hpercent : b ≠ 0x25) (rest : List UInt8) :
    unescape (b :: rest) = b :: unescape rest := by
  rcases rest with _ | ⟨h, _ | ⟨l, after⟩⟩ <;> simp [unescape, hplus, hpercent]

theorem unescape_plus (rest : List UInt8) : unescape (0x2B :: rest) = 0x20 :: unescape rest := by
  rcases rest with _ | ⟨h, _ | ⟨l, after⟩⟩ <;> simp [unescape]

theorem unescape_hex {h l x y : UInt8} (hx : hexValue h = some x) (hy : hexValue l = some y)
    (after : List UInt8) : unescape (0x25 :: h :: l :: after) = (16 * x + y) :: unescape after := by
  simp [unescape, hx, hy]

/-- A byte comes back, whatever is behind it. -/
theorem unescape_escapeByte (b : UInt8) (rest : List UInt8) :
    unescape (escapeByte b ++ rest) = b :: unescape rest := by
  have hcases := escaped b
  generalize escapeByte b = bs at hcases
  cases hcases with
  | space hb => rw [hb]; exact unescape_plus rest
  | plain hplus hpercent => exact unescape_plain hplus hpercent rest
  | hex h l x y hx hy hb => rw [← hb]; exact unescape_hex hx hy rest

/-- So do all of them, -/
theorem unescape_escape (bs : List UInt8) : unescape (escape bs) = bs := by
  unfold escape
  induction bs with
  | nil => rfl
  | cons b bs ih => rw [List.flatMap_cons, unescape_escapeByte, ih]

/-- and the text that they encode. -/
theorem readText_escape (s : String) : readText (escape (Utf8.encode s)) = s := by
  rw [readText, unescape_escape, Utf8.fromUtf8Lossy_encode]

/-! ## The separators -/

/-- What was escaped has neither `&` nor `=`, and is ASCII. -/
theorem escape_bytes {bs : List UInt8} {b : UInt8} (h : b ∈ escape bs) :
    b ≠ 0x26 ∧ b ≠ 0x3D ∧ b.toNat < 128 := by
  obtain ⟨a, _, ha⟩ := List.mem_flatMap.mp h
  -- no digit is one of the two
  have hdigit : ∀ {d x : UInt8}, hexValue d = some x → d ≠ 0x26 ∧ d ≠ 0x3D ∧ d.toNat < 128 := by
    intro d x hd
    have hrange := hexValue_range (b := d) (by rw [hd]; rfl)
    simp only [UInt8.le_iff_toNat_le, UInt8.reduceToNat, ne_eq, ← UInt8.toNat_inj] at hrange ⊢
    omega
  have hcases := escaped a
  generalize escapeByte a = written at hcases ha
  cases hcases with
  | space hb => obtain rfl := List.mem_singleton.mp ha; decide
  | plain hplus hpercent hamp heq hlow => obtain rfl := List.mem_singleton.mp ha; exact ⟨hamp, heq, hlow⟩
  | hex h l x y hx hy hb =>
    simp only [List.mem_cons, List.not_mem_nil, or_false] at ha
    rcases ha with rfl | rfl | rfl
    · decide
    · exact hdigit hx
    · exact hdigit hy

/-- Splitting loses nothing but the separator. -/
theorem splitOnce_eq_some {sep : UInt8} {bs k v : List UInt8} (h : splitOnce sep bs = some (k, v)) :
    bs = k ++ sep :: v := by
  induction bs generalizing k with
  | nil => cases h
  | cons b bs ih =>
    unfold splitOnce at h
    split_ifs at h with hb
    · cases h
      rw [hb]
      rfl
    · obtain ⟨⟨front, back⟩, hsplit, hpair⟩ := Option.map_eq_some_iff.mp h
      cases hpair
      rw [List.cons_append, ih hsplit]

/-- The split is at the first separator. -/
theorem splitOnce_append {sep : UInt8} {k v : List UInt8} (h : sep ∉ k) :
    splitOnce sep (k ++ sep :: v) = some (k, v) := by
  induction k with
  | nil => simp [splitOnce]
  | cons b k ih =>
    rw [List.mem_cons, not_or] at h
    rw [List.cons_append, splitOnce, if_neg (fun he => h.1 he.symm), ih h.2]
    rfl

/-- A written pair has its separator behind the key. -/
theorem splitOnce_writePair (pair : String × String) :
    splitOnce 0x3D (writePair pair) =
      some (escape (Utf8.encode pair.1), escape (Utf8.encode pair.2)) :=
  splitOnce_append fun hmem => (escape_bytes hmem).2.1 rfl

/-- A pair comes back. -/
theorem readPair_writePair (pair : String × String) : readPair (writePair pair) = pair := by
  unfold readPair
  rw [splitOnce_writePair]
  show (readText _, readText _) = pair
  rw [readText_escape, readText_escape]

/-- A written pair has no `&` and is ASCII. -/
theorem writePair_bytes {pair : String × String} {b : UInt8} (h : b ∈ writePair pair) :
    b ≠ 0x26 ∧ b.toNat < 128 := by
  rw [writePair, List.mem_append, List.mem_cons] at h
  rcases h with h | rfl | h
  · exact ⟨(escape_bytes h).1, (escape_bytes h).2.2⟩
  · decide
  · exact ⟨(escape_bytes h).1, (escape_bytes h).2.2⟩

/-- It is not empty. -/
theorem writePair_ne_nil (pair : String × String) : writePair pair ≠ [] :=
  List.append_ne_nil_of_right_ne_nil _ (List.cons_ne_nil _ _)

/-- What is in the whole is in a piece, or is a separator. -/
theorem mem_intercalate {α : Type} {sep b : α} {pieces : List (List α)}
    (h : b ∈ [sep].intercalate pieces) : b = sep ∨ ∃ piece ∈ pieces, b ∈ piece := by
  induction pieces with
  | nil => cases h
  | cons piece pieces ih =>
    cases pieces with
    | nil => exact .inr ⟨piece, List.mem_cons_self .., by simpa using h⟩
    | cons next pieces =>
      rw [List.intercalate_cons_cons, List.mem_append, List.mem_append, List.mem_singleton] at h
      rcases h with (h | h) | h
      · exact .inr ⟨piece, List.mem_cons_self .., h⟩
      · exact .inl h
      · rcases ih h with hsep | ⟨p, hp, hb⟩
        · exact .inl hsep
        · exact .inr ⟨p, List.mem_cons_of_mem _ hp, hb⟩

/-- The bytes of what was written. -/
theorem encode_write (pairs : List (String × String)) :
    Utf8.encode (write pairs) = [0x26].intercalate (pairs.map writePair) := by
  refine Utf8.encode_ofAscii fun b hb => ?_
  rcases mem_intercalate hb with rfl | ⟨piece, hpiece, hb⟩
  · decide
  · obtain ⟨pair, _, rfl⟩ := List.mem_map.mp hpiece
    exact (writePair_bytes hb).2

/-- The pieces of a written text are the pairs it was written from. -/
theorem pieces_write (pairs : List (String × String)) :
    ((Utf8.encode (write pairs)).splitOn 0x26).filter (fun piece => !piece.isEmpty) =
      pairs.map writePair := by
  rw [encode_write]
  cases pairs with
  | nil => rfl
  | cons pair pairs =>
    -- no piece has the separator in it, so the whole falls apart at the ones between
    have hsep : ∀ piece ∈ (pair :: pairs).map writePair, (0x26 : UInt8) ∉ piece := by
      intro piece hpiece hmem
      obtain ⟨p, _, rfl⟩ := List.mem_map.mp hpiece
      exact (writePair_bytes hmem).1 rfl
    rw [List.splitOn_intercalate _ hsep (by simp), List.filter_eq_self]
    intro piece hpiece
    obtain ⟨p, _, rfl⟩ := List.mem_map.mp hpiece
    simp [writePair_ne_nil]

/-- Reading what was written gives the pairs back. -/
theorem read_write (pairs : List (String × String)) : read (write pairs) = pairs := by
  unfold read
  rw [pieces_write, List.map_map]
  exact (List.map_congr_left fun pair _ => readPair_writePair pair).trans (List.map_id _)

end FormUrl

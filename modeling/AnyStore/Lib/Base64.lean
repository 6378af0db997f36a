import Mathlib.Data.Bool.AllAny
import Mathlib.Data.List.Basic
import Mathlib.Data.Nat.Init
import Mathlib.Tactic.Common

/-!
# Base64

The standard alphabet with padding. `encode` writes three bytes as four
symbols, and `decode` reads nothing but what it writes. `lines` breaks the text
every 76 symbols, and `loose` passes over blanks and reads on after padding. Both
readers undo the writer, and the text without its breaks is the unbroken one.
-/

namespace Base64

/-! ## Symbols -/

/-- The 64 symbols. -/
def alphabet : List Char :=
  ['A', 'B', 'C', 'D', 'E', 'F', 'G', 'H', 'I', 'J', 'K', 'L', 'M',
    'N', 'O', 'P', 'Q', 'R', 'S', 'T', 'U', 'V', 'W', 'X', 'Y', 'Z',
    'a', 'b', 'c', 'd', 'e', 'f', 'g', 'h', 'i', 'j', 'k', 'l', 'm',
    'n', 'o', 'p', 'q', 'r', 's', 't', 'u', 'v', 'w', 'x', 'y', 'z',
    '0', '1', '2', '3', '4', '5', '6', '7', '8', '9', '+', '/']

/-- The symbol of a value. -/
def symbol (v : Nat) : Char := alphabet.getD v '='

/-- The value of a symbol. -/
def value? (c : Char) : Option Nat :=
  if c ∈ alphabet then some (alphabet.idxOf c) else none

/-- The blanks that a loose decoder skips. -/
def isBlank (c : Char) : Bool := c == ' ' || c == '\t' || c == '\n' || c == '\r'

/-- A symbol comes back, -/
theorem value?_symbol : ∀ v < 64, value? (symbol v) = some v := by decide +kernel

/-- and is neither the padding nor a blank. -/
theorem symbol_ne : ∀ v < 64, symbol v ≠ '=' ∧ isBlank (symbol v) = false := by decide +kernel

/-! ## Writing -/

/-- The number that three bytes make. -/
def triple (a b c : UInt8) : Nat := a.toNat * 65536 + b.toNat * 256 + c.toNat

/-- Three bytes make four symbols; what is missing at the end is padded. -/
def encode : List UInt8 → List Char
  | [] => []
  | [a] => [symbol (triple a 0 0 / 262144), symbol (triple a 0 0 / 4096 % 64), '=', '=']
  | [a, b] =>
    [symbol (triple a b 0 / 262144), symbol (triple a b 0 / 4096 % 64),
      symbol (triple a b 0 / 64 % 64), '=']
  | a :: b :: c :: rest =>
    symbol (triple a b c / 262144) :: symbol (triple a b c / 4096 % 64) ::
      symbol (triple a b c / 64 % 64) :: symbol (triple a b c % 64) :: encode rest

/-- A line is broken as soon as it is full; `column` symbols stand on it already. -/
def lines : Nat → List UInt8 → List Char
  | column, a :: b :: c :: rest =>
    encode [a, b, c] ++
      (if column + 4 < 76 then lines (column + 4) rest else '\n' :: lines 0 rest)
  | _, rest => encode rest

/-! ## Reading -/

/-- The bytes of a number, the first `n` of three. -/
def bytes (n v : Nat) : List UInt8 :=
  [UInt8.ofNat (v / 65536), UInt8.ofNat (v / 256), UInt8.ofNat v].take n

/-- The first `n` bytes of a number that has nothing below them. -/
def exactBytes (n below v : Nat) : Option (List UInt8) :=
  if v % below = 0 then some (bytes n v) else none

/-- The last group, which padding fills up; bits that no byte has are refused. -/
def decodeLast (x y z : Char) : Option (List UInt8) :=
  (value? x).bind fun a => (value? y).bind fun b =>
    if z = '=' then exactBytes 1 65536 (a * 262144 + b * 4096)
    else (value? z).bind fun c => exactBytes 2 256 (a * 262144 + b * 4096 + c * 64)

/-- Blanks and missing or misplaced padding are refused. -/
def decode : List Char → Option (List UInt8)
  | [] => some []
  | x :: y :: z :: w :: rest =>
    if w = '=' then if rest = [] then decodeLast x y z else none
    else
      (value? x).bind fun a => (value? y).bind fun b => (value? z).bind fun c =>
        (value? w).bind fun d =>
          (decode rest).map (bytes 3 (a * 262144 + b * 4096 + c * 64 + d) ++ ·)
  | _ => none

/-- Reads symbol by symbol: `buffer` holds the last `count` of them, and `kept`
bytes of a group are kept, which is less than three from the first `=` on. -/
def loose (buffer count kept : Nat) : List Char → Option (List UInt8)
  | [] => if count = 0 then some [] else none
  | c :: rest =>
    if isBlank c then loose buffer count kept rest
    else if c = '=' then
      if kept = 3 ∧ count ≠ 2 ∧ count ≠ 3 then none
      else
        let kept := if kept = 3 then count - 1 else kept
        if count = 3 then (loose 0 0 kept rest).map (bytes kept (buffer * 64) ++ ·)
        else loose (buffer * 64) (count + 1) kept rest
    else
      (value? c).bind fun v =>
        if count = 3 then (loose 0 0 kept rest).map (bytes kept (buffer * 64 + v) ++ ·)
        else loose (buffer * 64 + v) (count + 1) kept rest

/-! ## Groups -/

/-- Three bytes are 24 bits. -/
theorem triple_lt (a b c : UInt8) : triple a b c < 16777216 := by
  have ha := a.toNat_lt
  have hb := b.toNat_lt
  have hc := c.toNat_lt
  unfold triple
  omega

/-- The bytes come back from their number. -/
theorem bytes_triple (a b c : UInt8) : bytes 3 (triple a b c) = [a, b, c] := by
  have ha := a.toNat_lt
  have hb := b.toNat_lt
  have hc := c.toNat_lt
  have hofNat : ∀ (x : UInt8) (v : Nat), v % 256 = x.toNat → UInt8.ofNat v = x := by
    intro x v hv
    apply UInt8.toNat_inj.mp
    rw [UInt8.toNat_ofNat']
    exact hv
  show [UInt8.ofNat _, UInt8.ofNat _, UInt8.ofNat _] = _
  unfold triple
  rw [hofNat a _ (by omega), hofNat b _ (by omega), hofNat c _ (by omega)]

/-- The four symbols of a number are worth it. -/
theorem quad_value (v : Nat) :
    v / 262144 * 262144 + v / 4096 % 64 * 4096 + v / 64 % 64 * 64 + v % 64 = v := by
  omega

/-- The four symbols of a number. -/
theorem value?_quad {v : Nat} (h : v < 16777216) :
    value? (symbol (v / 262144)) = some (v / 262144) ∧
      value? (symbol (v / 4096 % 64)) = some (v / 4096 % 64) ∧
      value? (symbol (v / 64 % 64)) = some (v / 64 % 64) ∧
      value? (symbol (v % 64)) = some (v % 64) :=
  ⟨value?_symbol _ (by omega), value?_symbol _ (by omega), value?_symbol _ (by omega),
    value?_symbol _ (by omega)⟩

/-- A symbol that is read moves on in its group. -/
theorem loose_symbol {v : Nat} (hv : v < 64) (buffer count kept : Nat) (rest : List Char) :
    loose buffer count kept (symbol v :: rest) =
      if count = 3 then (loose 0 0 kept rest).map (bytes kept (buffer * 64 + v) ++ ·)
      else loose (buffer * 64 + v) (count + 1) kept rest := by
  obtain ⟨hpad, hblank⟩ := symbol_ne v hv
  rw [loose, if_neg (by rw [hblank]; exact Bool.false_ne_true), if_neg hpad, value?_symbol v hv]
  rfl

/-! ## The readers undo the writer -/

/-- One byte of a padded group, -/
theorem bytes_one (a : UInt8) : bytes 1 (triple a 0 0) = [a] := by
  show (bytes 3 (triple a 0 0)).take 1 = _
  rw [bytes_triple]
  rfl

/-- or two. -/
theorem bytes_two (a b : UInt8) : bytes 2 (triple a b 0) = [a, b] := by
  show (bytes 3 (triple a b 0)).take 2 = _
  rw [bytes_triple]
  rfl

/-- What padding stands for is zero. -/
theorem triple_padded (a b : UInt8) : triple a b 0 % 256 = 0 ∧ triple a 0 0 % 65536 = 0 := by
  have hzero : (0 : UInt8).toNat = 0 := rfl
  unfold triple
  omega

/-- The last group with two paddings, -/
theorem decodeLast_one {v : Nat} (h : v < 16777216) (hpadded : v % 65536 = 0) :
    decodeLast (symbol (v / 262144)) (symbol (v / 4096 % 64)) '=' = some (bytes 1 v) := by
  obtain ⟨hx, hy, -, -⟩ := value?_quad h
  have hv : v / 262144 * 262144 + v / 4096 % 64 * 4096 = v := by omega
  rw [decodeLast, hx, hy, Option.bind_some, Option.bind_some, if_pos rfl, hv, exactBytes,
    if_pos hpadded]

/-- or with one. -/
theorem decodeLast_two {v : Nat} (h : v < 16777216) (hpadded : v % 256 = 0) :
    decodeLast (symbol (v / 262144)) (symbol (v / 4096 % 64)) (symbol (v / 64 % 64)) =
      some (bytes 2 v) := by
  obtain ⟨hx, hy, hz, -⟩ := value?_quad h
  have hne := (symbol_ne (v / 64 % 64) (by omega)).1
  have hv : v / 262144 * 262144 + v / 4096 % 64 * 4096 + v / 64 % 64 * 64 = v := by omega
  rw [decodeLast, hx, hy, hz, Option.bind_some, Option.bind_some, if_neg hne, Option.bind_some, hv,
    exactBytes, if_pos hpadded]

/-- A full group in front of others. -/
theorem decode_three {v : Nat} (h : v < 16777216) (rest : List Char) :
    decode (symbol (v / 262144) :: symbol (v / 4096 % 64) :: symbol (v / 64 % 64) ::
      symbol (v % 64) :: rest) = (decode rest).map (bytes 3 v ++ ·) := by
  obtain ⟨hx, hy, hz, hw⟩ := value?_quad h
  have hne := (symbol_ne (v % 64) (by omega)).1
  rw [decode, if_neg hne, hx, hy, hz, hw, Option.bind_some, Option.bind_some, Option.bind_some,
    Option.bind_some, quad_value]

/-- **Round trip.** Whatever the length of the last group. -/
theorem decode_encode (bs : List UInt8) : decode (encode bs) = some bs := by
  fun_induction encode bs with
  | case1 => rfl
  | case2 a =>
    rw [decode, if_pos rfl, if_pos rfl, decodeLast_one (triple_lt a 0 0) (triple_padded a 0).2,
      bytes_one]
  | case3 a b =>
    rw [decode, if_pos rfl, if_pos rfl, decodeLast_two (triple_lt a b 0) (triple_padded a b).1,
      bytes_two]
  | case4 a b c rest ih =>
    rw [decode_three (triple_lt a b c), bytes_triple, ih]
    rfl

/-- The loose reader passes over what the writer never leaves out. -/
theorem loose_encode (bs : List UInt8) : loose 0 0 3 (encode bs) = some bs := by
  fun_induction encode bs with
  | case1 => rfl
  | case2 a =>
    have hlt := triple_lt a 0 0
    have hpadded := (triple_padded a 0).2
    have hbytes := bytes_one a
    generalize triple a 0 0 = v at *
    -- the symbols are collected again, and the padding stands for zeros
    have hv : ((v / 262144 * 64 + v / 4096 % 64) * 64) * 64 = v := by omega
    rw [loose_symbol (by omega), if_neg (by decide), loose_symbol (by omega), if_neg (by decide),
      Nat.zero_mul, Nat.zero_add]
    show (some []).map (bytes 1 (((v / 262144 * 64 + v / 4096 % 64) * 64) * 64) ++ ·) = _
    rw [hv, hbytes]
    rfl
  | case3 a b =>
    have hlt := triple_lt a b 0
    have hpadded := (triple_padded a b).1
    have hbytes := bytes_two a b
    generalize triple a b 0 = v at *
    have hv : ((v / 262144 * 64 + v / 4096 % 64) * 64 + v / 64 % 64) * 64 = v := by omega
    rw [loose_symbol (by omega), if_neg (by decide), loose_symbol (by omega), if_neg (by decide),
      loose_symbol (by omega), if_neg (by decide), Nat.zero_mul, Nat.zero_add]
    show (some []).map
      (bytes 2 (((v / 262144 * 64 + v / 4096 % 64) * 64 + v / 64 % 64) * 64) ++ ·) = _
    rw [hv, hbytes]
    rfl
  | case4 a b c rest ih =>
    have hlt := triple_lt a b c
    have hbytes := bytes_triple a b c
    generalize triple a b c = v at *
    have hv : ((v / 262144 * 64 + v / 4096 % 64) * 64 + v / 64 % 64) * 64 + v % 64 = v := by omega
    rw [loose_symbol (by omega), if_neg (by decide), loose_symbol (by omega), if_neg (by decide),
      loose_symbol (by omega), if_neg (by decide), loose_symbol (by omega), if_pos rfl,
      Nat.zero_mul, Nat.zero_add, hv, hbytes, ih]
    rfl

/-! ## Lines -/

/-- The text is of symbols and paddings. -/
theorem mem_encode (bs : List UInt8) : ∀ c ∈ encode bs, c ∈ '=' :: alphabet := by
  have hsymbol : ∀ v < 64, symbol v ∈ '=' :: alphabet := by decide +kernel
  have hpad : '=' ∈ '=' :: alphabet := List.mem_cons_self ..
  fun_induction encode bs with
  | case1 => exact fun c hc => absurd hc List.not_mem_nil
  | case2 a =>
    have hlt := triple_lt a 0 0
    intro c hc
    simp only [List.mem_cons, List.not_mem_nil, or_false] at hc
    rcases hc with rfl | rfl | rfl | rfl
    · exact hsymbol _ (by omega)
    · exact hsymbol _ (by omega)
    · exact hpad
    · exact hpad
  | case3 a b =>
    have hlt := triple_lt a b 0
    intro c hc
    simp only [List.mem_cons, List.not_mem_nil, or_false] at hc
    rcases hc with rfl | rfl | rfl | rfl
    · exact hsymbol _ (by omega)
    · exact hsymbol _ (by omega)
    · exact hsymbol _ (by omega)
    · exact hpad
  | case4 a b c rest ih =>
    have hlt := triple_lt a b c
    intro d hd
    simp only [List.mem_cons] at hd
    rcases hd with rfl | rfl | rfl | rfl | hd
    · exact hsymbol _ (by omega)
    · exact hsymbol _ (by omega)
    · exact hsymbol _ (by omega)
    · exact hsymbol _ (by omega)
    · exact ih d hd

/-- Only line feeds have been put in between. -/
theorem filter_lines {p : Char → Bool} (hline : p '\n' = false)
    (hkeep : ∀ c ∈ '=' :: alphabet, p c = true) (column : Nat) (bs : List UInt8) :
    (lines column bs).filter p = encode bs := by
  have hself : ∀ bs, (encode bs).filter p = encode bs := by
    intro bs
    rw [List.filter_eq_self]
    exact fun c hc => hkeep c (mem_encode bs c hc)
  fun_induction lines column bs with
  | case1 column a b c rest hroom hfull =>
    rw [List.filter_append, hself]
    by_cases h : column + 4 < 76
    · rw [if_pos h, hroom]
      rfl
    · rw [if_neg h, List.filter_cons_of_neg (by rw [hline]; exact Bool.false_ne_true), hfull]
      rfl
  | case2 column rest hshort => exact hself rest

end Base64

import Mathlib.Data.Bool.AllAny
import Mathlib.Data.List.Basic
import Mathlib.Data.Nat.Init
import Mathlib.Tactic.Common

/-!
# XML documents

A reader for documents made of elements and text: tags must nest, names and
characters must be legal, and references are replaced by what they stand for.
Attributes, comments, processing instructions, sections and document types are
refused, so what it reads is well formed. `Node.render` writes a tree, with the
markup in its texts escaped, and the reader undoes it.
-/

namespace Xml

/-! ## Characters and names -/

/-- The code points that a document may contain. -/
def isCharCode (n : Nat) : Bool :=
  n == 0x9 || n == 0xA || n == 0xD || (0x20 ≤ n && n ≤ 0xD7FF) ||
    (0xE000 ≤ n && n ≤ 0xFFFD) || (0x10000 ≤ n && n ≤ 0x10FFFF)

/-- A character that a document may have. -/
def isChar (c : Char) : Bool := isCharCode c.toNat

/-- White space. -/
def isSpace (c : Char) : Bool := c == ' ' || c == '\t' || c == '\n' || c == '\r'

def nameStartRanges : List (Nat × Nat) :=
  [(0x3A, 0x3A), (0x41, 0x5A), (0x5F, 0x5F), (0x61, 0x7A), (0xC0, 0xD6), (0xD8, 0xF6),
    (0xF8, 0x2FF), (0x370, 0x37D), (0x37F, 0x1FFF), (0x200C, 0x200D), (0x2070, 0x218F),
    (0x2C00, 0x2FEF), (0x3001, 0xD7FF), (0xF900, 0xFDCF), (0xFDF0, 0xFFFD), (0x10000, 0xEFFFF)]

def nameRanges : List (Nat × Nat) :=
  nameStartRanges ++ [(0x2D, 0x2E), (0x30, 0x39), (0xB7, 0xB7), (0x300, 0x36F), (0x203F, 0x2040)]

/-- The character is in one of the ranges. -/
def inRanges (ranges : List (Nat × Nat)) (c : Char) : Bool :=
  ranges.any fun range => range.1 ≤ c.toNat && c.toNat ≤ range.2

/-- A name: its first character is of fewer kinds. -/
def isName : List Char → Bool
  | [] => false
  | c :: rest => inRanges nameStartRanges c && rest.all (inRanges nameRanges)

/-- Every line end becomes a line feed. -/
def normalizeLines : List Char → List Char
  | [] => []
  | '\r' :: '\n' :: rest => '\n' :: normalizeLines rest
  | '\r' :: rest => '\n' :: normalizeLines rest
  | c :: rest => c :: normalizeLines rest

/-! ## Texts -/

/-- The digit in a base. -/
def digit? (base : Nat) (c : Char) : Option Nat :=
  let n :=
    if '0' ≤ c ∧ c ≤ '9' then c.toNat - 0x30
    else if 'a' ≤ c ∧ c ≤ 'f' then c.toNat - 0x57
    else if 'A' ≤ c ∧ c ≤ 'F' then c.toNat - 0x37
    else base
  if n < base then some n else none

/-- A reference by number must name a legal character. -/
def numbered (base : Nat) (digits : List Char) : Option Char := do
  let values ← digits.mapM (digit? base)
  let n := values.foldl (fun n d => n * base + d) 0
  if values ≠ [] ∧ isCharCode n then some (Char.ofNat n) else none

/-- What stands between `&` and `;`. -/
def reference : List Char → Option Char
  | '#' :: 'x' :: digits => numbered 16 digits
  | '#' :: digits => numbered 10 digits
  | name =>
    if name = "amp".toList then some '&'
    else if name = "lt".toList then some '<'
    else if name = "gt".toList then some '>'
    else if name = "quot".toList then some '"'
    else if name = "apos".toList then some '\''
    else none

/-- A text with its references replaced; `some name` is a reference that has begun. -/
def decode : Option (List Char) → List Char → Option (List Char)
  | none, [] => some []
  | some _, [] => none
  | none, c :: rest => if c = '&' then decode (some []) rest else (decode none rest).map (c :: ·)
  | some name, c :: rest =>
    if c = ';' then (reference name).bind fun char => (decode none rest).map (char :: ·)
    else decode (some (name ++ [c])) rest

/-- The end mark of a section may not stand in a text. -/
def closesSection : List Char → Bool
  | [] => false
  | ']' :: ']' :: '>' :: _ => true
  | _ :: rest => closesSection rest

def readText (raw : List Char) : Option (List Char) :=
  if closesSection raw then none else decode none raw

/-! ## Elements -/

/-- Texts and elements. -/
inductive Node where
  | text (cs : List Char)
  | element (name : List Char) (children : List Node)

/-- What the lexer finds. -/
inductive Token where
  | text (raw : List Char)
  | tag (raw : List Char)
deriving DecidableEq

/-- The document cut at its marks: `<` ends a text and `>` ends a tag. -/
def lexFrom : Bool → List Char → List Char → Option (List Token)
  | inTag, piece, [] => if inTag then none else some [.text piece]
  | inTag, piece, c :: rest =>
    if c = '<' then
      if inTag then none else (lexFrom true [] rest).map (.text piece :: ·)
    else if c = '>' ∧ inTag then (lexFrom false [] rest).map (.tag piece :: ·)
    else lexFrom inTag (piece ++ [c]) rest

/-- What a tag says. -/
inductive Tag where
  | start (name : List Char)
  | close (name : List Char)
  | empty (name : List Char)

/-- Spaces may follow the name. -/
def trimEnd (cs : List Char) : List Char := (cs.reverse.dropWhile isSpace).reverse

/-- A tag without attributes. -/
def readTag : List Char → Option Tag
  | '/' :: raw => if isName (trimEnd raw) then some (.close (trimEnd raw)) else none
  | raw =>
    if raw.getLast? = some '/' then
      if isName (trimEnd raw.dropLast) then some (.empty (trimEnd raw.dropLast)) else none
    else if isName (trimEnd raw) then some (.start (trimEnd raw))
    else none

/-- An open element, with the nodes that stand before it. -/
structure Open where
  name : List Char
  before : List Node

/-- The nodes of the innermost open element, read on from the tokens. -/
def build : List Open → List Node → List Token → Option (List Node)
  | [], nodes, [] => some nodes
  | _ :: _, _, [] => none
  | [], nodes, .text raw :: rest => if raw.all isSpace then build [] nodes rest else none
  | opened :: outer, nodes, .text raw :: rest =>
    (readText raw).bind fun cs =>
      build (opened :: outer) (if cs = [] then nodes else nodes ++ [.text cs]) rest
  | opened, nodes, .tag raw :: rest =>
    (readTag raw).bind fun tag =>
      match tag, opened with
      | .start name, opened => build (⟨name, nodes⟩ :: opened) [] rest
      | .empty name, opened => build opened (nodes ++ [.element name []]) rest
      | .close _, [] => none
      | .close name, inner :: outer =>
        if inner.name = name then build outer (inner.before ++ [.element name nodes]) rest else none

/-- Read from here on, in these elements. -/
def scan (opened : List Open) (nodes : List Node) (text : List Char) : Option (List Node) :=
  (lexFrom false [] text).bind (build opened nodes)

/-- A document is one element. -/
def parse (text : List Char) : Option Node :=
  if text.all isChar then
    match scan [] [] (normalizeLines text) with
    | some [.element name children] => some (.element name children)
    | _ => none
  else none

/-! ## Writing -/

/-- What is written for a character. -/
def escapeChar : Char → List Char
  | '&' => "&amp;".toList
  | '<' => "&lt;".toList
  | '>' => "&gt;".toList
  | '"' => "&quot;".toList
  | c => [c]

mutual

def Node.render : Node → List Char
  | .text cs => cs.flatMap escapeChar
  | .element name children => '<' :: (name ++ '>' :: (renderAll children ++ '<' :: '/' :: (name ++ ['>'])))

/-- One node after the other. -/
def renderAll : List Node → List Char
  | [] => []
  | node :: rest => node.render ++ renderAll rest

end

def startsText : List Node → Bool
  | .text _ :: _ => true
  | _ => false

/-- A character that is read as it is written. -/
def isPlainChar (c : Char) : Bool := isChar c && c != '\r'

mutual

/-- Texts are not empty and do not touch each other, and what is written is legal. -/
def Node.regular : Node → Bool
  | .text cs => !cs.isEmpty && cs.all isPlainChar
  | .element name children => isName name && regularAll children

def regularAll : List Node → Bool
  | [] => true
  | .text cs :: rest => (Node.text cs).regular && !startsText rest && regularAll rest
  | .element name children :: rest => (Node.element name children).regular && regularAll rest

end

/-! ## The reader undoes the writer -/

section Texts

variable {c : Char} {cs raw : List Char}

/-- Other characters stand for themselves. -/
theorem escapeChar_of_ne (hamp : c ≠ '&') (hlt : c ≠ '<') (hgt : c ≠ '>') (hquot : c ≠ '"') :
    escapeChar c = [c] := by
  unfold escapeChar
  split
  · exact absurd rfl hamp
  · exact absurd rfl hlt
  · exact absurd rfl hgt
  · exact absurd rfl hquot
  · rfl

/-- A reference is read up to its semicolon. -/
theorem decode_begun {more : List Char} (h : ';' ∉ more) (name rest : List Char) :
    decode (some name) (more ++ ';' :: rest) =
      (reference (name ++ more)).bind fun char => (decode none rest).map (char :: ·) := by
  induction more generalizing name with
  | nil => rw [List.nil_append, decode, if_pos rfl, List.append_nil]
  | cons c more ih =>
    have hc : c ≠ ';' := by
      rintro rfl
      exact h (List.mem_cons_self ..)
    rw [List.cons_append, decode, if_neg hc, ih fun hmem => h (List.mem_cons_of_mem c hmem),
      List.append_assoc, List.singleton_append]

/-- A reference is read as its character. -/
theorem decode_reference {name : List Char} {char : Char} (hname : ';' ∉ name)
    (h : reference name = some char) (rest : List Char) :
    decode none ('&' :: (name ++ ';' :: rest)) = (decode none rest).map (char :: ·) := by
  rw [decode, if_pos rfl, decode_begun hname, List.nil_append, h, Option.bind_some]

/-- What is written for a character is read as it. -/
theorem decode_escapeChar (c : Char) (rest : List Char) :
    decode none (escapeChar c ++ rest) = (decode none rest).map (c :: ·) := by
  by_cases hamp : c = '&'
  · subst hamp
    exact @decode_reference "amp".toList '&' (by decide) (by decide) rest
  by_cases hlt : c = '<'
  · subst hlt
    exact @decode_reference "lt".toList '<' (by decide) (by decide) rest
  by_cases hgt : c = '>'
  · subst hgt
    exact @decode_reference "gt".toList '>' (by decide) (by decide) rest
  by_cases hquot : c = '"'
  · subst hquot
    exact @decode_reference "quot".toList '"' (by decide) (by decide) rest
  rw [escapeChar_of_ne hamp hlt hgt hquot, List.singleton_append, decode, if_neg hamp]

/-- What the writer produces is never escaped again, and is read as it was. -/
theorem decode_escape (cs : List Char) : decode none (cs.flatMap escapeChar) = some cs := by
  induction cs with
  | nil => rfl
  | cons c cs ih =>
    rw [List.flatMap_cons, decode_escapeChar, ih]
    rfl

/-- The characters of an escaped text are its own, or those of an entity. -/
theorem mem_escapeChar {d : Char} (h : d ∈ escapeChar c) :
    d ≠ '<' ∧ d ≠ '>' ∧ (d = c ∨ d ∈ "&;ampltgquo".toList) := by
  by_cases hmarkup : c ∈ ['&', '<', '>', '"']
  · have hentities : ['&', '<', '>', '"'].all (fun c =>
        (escapeChar c).all fun d => decide (d ∈ "&;ampltgquo".toList)) = true := by decide
    have hentity := List.all_eq_true.mp (List.all_eq_true.mp hentities c hmarkup) d h
    rw [decide_eq_true_eq] at hentity
    refine ⟨?_, ?_, Or.inr hentity⟩
    all_goals
      rintro rfl
      exact absurd hentity (by decide)
  · simp only [List.mem_cons, List.not_mem_nil, or_false, not_or] at hmarkup
    obtain ⟨hamp, hlt, hgt, hquot⟩ := hmarkup
    rw [escapeChar_of_ne hamp hlt hgt hquot, List.mem_singleton] at h
    subst h
    exact ⟨hlt, hgt, Or.inl rfl⟩

/-- Escaped text has no angle brackets. -/
theorem not_mem_escape (cs : List Char) :
    '<' ∉ cs.flatMap escapeChar ∧ '>' ∉ cs.flatMap escapeChar := by
  constructor
  · intro hmem
    obtain ⟨c, -, hc⟩ := List.mem_flatMap.mp hmem
    exact (mem_escapeChar hc).1 rfl
  · intro hmem
    obtain ⟨c, -, hc⟩ := List.mem_flatMap.mp hmem
    exact (mem_escapeChar hc).2.1 rfl

/-- So nothing in it closes a section. -/
theorem closesSection_of_not_mem (h : '>' ∉ raw) : closesSection raw = false := by
  induction raw with
  | nil => rfl
  | cons c rest ih =>
    have hrest := ih fun hmem => h (List.mem_cons_of_mem c hmem)
    unfold closesSection
    split
    · rfl
    · rename_i heq
      rw [heq] at h
      exact absurd (by simp) h
    · rename_i heq
      rw [List.cons.injEq] at heq
      rw [← heq.2]
      exact hrest

/-- A text comes back. -/
theorem readText_escape (cs : List Char) : readText (cs.flatMap escapeChar) = some cs := by
  unfold readText
  rw [closesSection_of_not_mem (not_mem_escape cs).2, decode_escape]
  rfl

end Texts

section Tags

variable {name piece xs rest : List Char}

/-- A character of a name belongs to no mark and is no space, and it is legal. -/
theorem ne_of_inRanges {c : Char} (h : inRanges nameRanges c = true) :
    c ≠ '<' ∧ c ≠ '>' ∧ c ≠ '/' ∧ isSpace c = false ∧ isPlainChar c = true := by
  unfold inRanges at h
  rw [List.any_eq_true] at h
  obtain ⟨range, hmem, hrange⟩ := h
  rw [Bool.and_eq_true, decide_eq_true_eq, decide_eq_true_eq] at hrange
  have hbounds : ∀ r ∈ nameRanges, 0x2D ≤ r.1 ∧ r.2 ≤ 0xEFFFF ∧
      (r.2 ≤ 0x2E ∨ 0x30 ≤ r.1 ∧ r.2 ≤ 0x3A ∨ 0x41 ≤ r.1 ∧ r.2 ≤ 0xD7FF ∨
        0xF900 ≤ r.1 ∧ r.2 ≤ 0xFFFD ∨ 0x10000 ≤ r.1) := by decide
  have hbound := hbounds range hmem
  have hne : ∀ d : Char, c.toNat ≠ d.toNat → c ≠ d := fun d hd hcd => hd (congrArg Char.toNat hcd)
  have hcr : c ≠ '\r' := hne _ (by show c.toNat ≠ 0x0D; omega)
  refine ⟨hne _ ?_, hne _ ?_, hne _ ?_, ?_, ?_⟩
  · show c.toNat ≠ 0x3C
    omega
  · show c.toNat ≠ 0x3E
    omega
  · show c.toNat ≠ 0x2F
    omega
  · have hspace : c ≠ ' ' := hne _ (by show c.toNat ≠ 0x20; omega)
    have htab : c ≠ '\t' := hne _ (by show c.toNat ≠ 0x09; omega)
    have hline : c ≠ '\n' := hne _ (by show c.toNat ≠ 0x0A; omega)
    simp [isSpace, hspace, htab, hline, hcr]
  · have hlegal : isChar c = true := by
      simp only [isChar, isCharCode, Bool.or_eq_true, Bool.and_eq_true, decide_eq_true_eq,
        beq_iff_eq]
      omega
    simp [isPlainChar, hlegal, hcr]

/-- The characters of a name. -/
theorem isName_chars (h : isName name = true) : ∀ c ∈ name, inRanges nameRanges c = true := by
  cases name with
  | nil => cases h
  | cons first rest =>
    rw [isName, Bool.and_eq_true] at h
    obtain ⟨hfirst, hrest⟩ := h
    intro c hc
    rcases List.mem_cons.mp hc with rfl | hc
    · unfold inRanges at hfirst ⊢
      rw [nameRanges, List.any_append, hfirst, Bool.true_or]
    · exact List.all_eq_true.mp hrest c hc

/-- None of them has a meaning in a tag. -/
theorem not_mem_name (h : isName name = true) : '<' ∉ name ∧ '>' ∉ name ∧ '/' ∉ name := by
  refine ⟨?_, ?_, ?_⟩
  · intro hmem
    exact (ne_of_inRanges (isName_chars h _ hmem)).1 rfl
  · intro hmem
    exact (ne_of_inRanges (isName_chars h _ hmem)).2.1 rfl
  · intro hmem
    exact (ne_of_inRanges (isName_chars h _ hmem)).2.2.1 rfl

/-- Names do not end in blanks. -/
theorem trimEnd_name (h : isName name = true) : trimEnd name = name := by
  have hspace : ∀ c ∈ name.reverse, isSpace c = false := by
    intro c hc
    exact (ne_of_inRanges (isName_chars h c (List.mem_reverse.mp hc))).2.2.2.1
  unfold trimEnd
  cases hrev : name.reverse with
  | nil => rw [List.reverse_eq_nil_iff.mp hrev]; rfl
  | cons c rest =>
    have hc := hspace c (by rw [hrev]; exact List.mem_cons_self ..)
    rw [List.dropWhile_cons, hc, if_neg Bool.false_ne_true, ← hrev, List.reverse_reverse]

/-- A start tag, -/
theorem readTag_start (h : isName name = true) : readTag name = some (.start name) := by
  obtain ⟨-, -, hslash⟩ := not_mem_name h
  unfold readTag
  split
  · exact absurd (List.mem_cons_self ..) hslash
  · rw [if_neg fun hlast => hslash (List.mem_of_getLast? hlast), trimEnd_name h, if_pos h]

/-- and an end tag. -/
theorem readTag_close (h : isName name = true) : readTag ('/' :: name) = some (.close name) := by
  rw [readTag, trimEnd_name h, if_pos h]

/-- Text goes on to the next tag. -/
theorem lexFrom_text (h : '<' ∉ xs) (piece rest : List Char) :
    lexFrom false piece (xs ++ rest) = lexFrom false (piece ++ xs) rest := by
  induction xs generalizing piece with
  | nil => rw [List.nil_append, List.append_nil]
  | cons c xs ih =>
    have hc : c ≠ '<' := by
      rintro rfl
      exact h (List.mem_cons_self ..)
    rw [List.cons_append, lexFrom, if_neg hc, if_neg (by simp),
      ih fun hmem => h (List.mem_cons_of_mem c hmem), List.append_assoc]
    rfl

/-- A tag goes on to its bracket. -/
theorem lexFrom_tag (hlt : '<' ∉ xs) (hgt : '>' ∉ xs) (piece rest : List Char) :
    lexFrom true piece (xs ++ '>' :: rest) =
      (lexFrom false [] rest).map (.tag (piece ++ xs) :: ·) := by
  induction xs generalizing piece with
  | nil => rw [List.nil_append, List.append_nil, lexFrom, if_neg (by decide), if_pos (by simp)]
  | cons c xs ih =>
    have hc : c ≠ '<' := by
      rintro rfl
      exact hlt (List.mem_cons_self ..)
    have hc' : c ≠ '>' := by
      rintro rfl
      exact hgt (List.mem_cons_self ..)
    rw [List.cons_append, lexFrom, if_neg hc, if_neg fun h => hc' h.1,
      ih (fun hmem => hlt (List.mem_cons_of_mem c hmem))
        (fun hmem => hgt (List.mem_cons_of_mem c hmem)), List.append_assoc]
    rfl

end Tags

section Trees

variable {opened : List Open} {nodes : List Node} {name rest : List Char}

/-- A tag ends the empty text before it. -/
theorem scan_mark (opened : List Open) (nodes : List Node) (rest : List Char) :
    scan opened nodes ('<' :: rest) = (lexFrom true [] rest).bind (build opened nodes) := by
  have hempty : ∀ tokens, build opened nodes (.text [] :: tokens) = build opened nodes tokens := by
    intro tokens
    cases opened with
    | nil => rfl
    | cons inner outer => rfl
  unfold scan
  rw [lexFrom, if_pos rfl, if_neg Bool.false_ne_true]
  cases lexFrom true [] rest with
  | none => rfl
  | some tokens => exact hempty tokens

/-- A tag is a token of its own. -/
theorem scan_tag {raw : List Char} (hlt : '<' ∉ raw) (hgt : '>' ∉ raw) :
    scan opened nodes ('<' :: (raw ++ '>' :: rest)) =
      (lexFrom false [] rest).bind fun tokens => build opened nodes (.tag raw :: tokens) := by
  rw [scan_mark, lexFrom_tag hlt hgt, List.nil_append]
  cases lexFrom false [] rest with
  | none => rfl
  | some tokens => rfl

/-- A start tag opens an element, -/
theorem scan_start (h : isName name = true) :
    scan opened nodes ('<' :: (name ++ '>' :: rest)) = scan (⟨name, nodes⟩ :: opened) [] rest := by
  obtain ⟨hlt, hgt, -⟩ := not_mem_name h
  rw [scan_tag hlt hgt]
  unfold scan
  congr 1
  funext tokens
  rw [build, readTag_start h]
  rfl

/-- and an end tag closes it. -/
theorem scan_close (h : isName name = true) (before : List Node) :
    scan (⟨name, before⟩ :: opened) nodes ('<' :: '/' :: (name ++ '>' :: rest)) =
      scan opened (before ++ [.element name nodes]) rest := by
  obtain ⟨hlt, hgt, -⟩ := not_mem_name h
  have htag := @scan_tag (⟨name, before⟩ :: opened) nodes rest ('/' :: name)
    (by simpa using hlt) (by simpa using hgt)
  rw [List.cons_append] at htag
  rw [htag]
  unfold scan
  congr 1
  funext tokens
  rw [build, readTag_close h]
  exact if_pos rfl

/-- A text is read when the next mark ends it. -/
theorem scan_text {cs : List Char} (hne : cs ≠ []) (inner : Open) (outer : List Open)
    (nodes : List Node) (rest : List Char) :
    scan (inner :: outer) nodes (cs.flatMap escapeChar ++ '<' :: rest) =
      scan (inner :: outer) (nodes ++ [.text cs]) ('<' :: rest) := by
  rw [scan_mark]
  unfold scan
  rw [lexFrom_text (not_mem_escape cs).1, List.nil_append, lexFrom, if_pos rfl,
    if_neg Bool.false_ne_true]
  cases lexFrom true [] rest with
  | none => rfl
  | some tokens =>
    show build _ _ (.text _ :: tokens) = build _ _ tokens
    rw [build, readText_escape]
    show build _ (if cs = [] then _ else _) _ = _
    rw [if_neg hne]

/-- What follows a text begins with a mark. -/
theorem renderAll_mark {children : List Node} (h : startsText children = false) (rest : List Char) :
    ∃ tail, renderAll children ++ '<' :: rest = '<' :: tail := by
  match children, h with
  | [], _ => exact ⟨rest, rfl⟩
  | .element name inner :: more, _ =>
    rw [renderAll, Node.render, List.cons_append, List.cons_append]
    exact ⟨_, rfl⟩

mutual

/-- **Elements.** By induction on the tree, together with the lists of children. -/
theorem scan_element : ∀ (node : Node), node.regular = true → startsText [node] = false →
    ∀ (opened : List Open) (nodes : List Node) (rest : List Char),
      scan opened nodes (node.render ++ rest) = scan opened (nodes ++ [node]) rest
  | .text _, _, htext, _, _, _ => absurd (show true = false from htext) (by decide)
  | .element name children, hregular, _, opened, nodes, rest => by
    rw [Node.regular, Bool.and_eq_true] at hregular
    obtain ⟨hname, hchildren⟩ := hregular
    have htext : (Node.element name children).render ++ rest =
        '<' :: (name ++ '>' :: (renderAll children ++ '<' :: '/' :: (name ++ '>' :: rest))) := by
      rw [Node.render]
      simp
    rw [htext, scan_start hname, scan_children children hchildren, scan_close hname,
      List.nil_append]

/-- The children of an open element, up to the mark after them. -/
theorem scan_children : ∀ (children : List Node), regularAll children = true →
    ∀ (inner : Open) (outer : List Open) (nodes : List Node) (rest : List Char),
      scan (inner :: outer) nodes (renderAll children ++ '<' :: rest) =
        scan (inner :: outer) (nodes ++ children) ('<' :: rest)
  | [], _, inner, outer, nodes, rest => by
    rw [renderAll, List.nil_append, List.append_nil]
  | .text cs :: more, hregular, inner, outer, nodes, rest => by
    simp only [regularAll, Node.regular, Bool.and_eq_true, Bool.not_eq_true'] at hregular
    obtain ⟨⟨⟨hempty, -⟩, hstarts⟩, hmore⟩ := hregular
    have hne : cs ≠ [] := by
      rintro rfl
      cases hempty
    obtain ⟨tail, htail⟩ := renderAll_mark hstarts rest
    have hrest := scan_children more hmore inner outer (nodes ++ [.text cs]) rest
    rw [renderAll, Node.render, List.append_assoc]
    rw [htail] at hrest ⊢
    rw [scan_text hne, hrest, List.append_assoc]
    rfl
  | .element name children :: more, hregular, inner, outer, nodes, rest => by
    rw [regularAll, Bool.and_eq_true] at hregular
    obtain ⟨hnode, hmore⟩ := hregular
    rw [renderAll, List.append_assoc, scan_element _ hnode rfl, scan_children more hmore,
      List.append_assoc]
    rfl

end

/-! ## Documents -/

/-- Without carriage returns the lines are as they are. -/
theorem normalizeLines_eq {text : List Char} (h : '\r' ∉ text) : normalizeLines text = text := by
  induction text with
  | nil => rfl
  | cons c rest ih =>
    have hrest := ih fun hmem => h (List.mem_cons_of_mem c hmem)
    unfold normalizeLines
    split
    · rename_i heq
      cases heq
    · rename_i heq
      rw [heq] at h
      exact absurd (List.mem_cons_self ..) h
    · rename_i heq
      rw [heq] at h
      exact absurd (List.mem_cons_self ..) h
    · rename_i heq
      rw [List.cons.injEq] at heq
      rw [heq.1, ← heq.2, hrest]

/-- Escaping makes plain text of plain text. -/
theorem escape_plain {cs : List Char} (h : cs.all isPlainChar = true) :
    (cs.flatMap escapeChar).all isPlainChar = true := by
  rw [List.all_eq_true] at h ⊢
  intro d hd
  obtain ⟨c, hc, hdc⟩ := List.mem_flatMap.mp hd
  rcases (mem_escapeChar hdc).2.2 with rfl | hentity
  · exact h _ hc
  · have hall : ∀ d ∈ "&;ampltgquo".toList, isPlainChar d = true :=
      List.all_eq_true.mp (by decide)
    exact hall d hentity

/-- Names are plain text. -/
theorem name_plain (h : isName name = true) : name.all isPlainChar = true := by
  rw [List.all_eq_true]
  intro c hc
  exact (ne_of_inRanges (isName_chars h c hc)).2.2.2.2

mutual

/-- So is a whole element. -/
theorem render_plain : ∀ node : Node, node.regular = true → node.render.all isPlainChar = true
  | .text cs, h => by
    rw [Node.regular, Bool.and_eq_true] at h
    rw [Node.render]
    exact escape_plain h.2
  | .element name children, h => by
    rw [Node.regular, Bool.and_eq_true] at h
    have hname := name_plain h.1
    have hchildren := renderAll_plain children h.2
    have hmarks : isPlainChar '<' = true ∧ isPlainChar '>' = true ∧ isPlainChar '/' = true := by
      decide
    rw [Node.render]
    simp only [List.all_cons, List.all_append, List.all_nil, hname, hchildren, hmarks.1, hmarks.2.1,
      hmarks.2.2, Bool.and_true]

theorem renderAll_plain : ∀ children : List Node, regularAll children = true →
    (renderAll children).all isPlainChar = true
  | [], _ => rfl
  | .text cs :: more, h => by
    rw [regularAll, Bool.and_eq_true, Bool.and_eq_true] at h
    rw [renderAll, List.all_append, render_plain _ h.1.1, renderAll_plain more h.2]
    rfl
  | .element name children :: more, h => by
    rw [regularAll, Bool.and_eq_true] at h
    rw [renderAll, List.all_append, render_plain _ h.1, renderAll_plain more h.2]
    rfl

end

/-- **Round trip.** A regular element is read as it was written. -/
theorem parse_render {children : List Node} (h : (Node.element name children).regular = true) :
    parse (Node.element name children).render = some (.element name children) := by
  have hplain := List.all_eq_true.mp (render_plain _ h)
  have hlegal : (Node.element name children).render.all isChar = true := by
    rw [List.all_eq_true]
    intro c hc
    have hc := hplain c hc
    unfold isPlainChar at hc
    rw [Bool.and_eq_true] at hc
    exact hc.1
  have hlines : '\r' ∉ (Node.element name children).render := by
    intro hmem
    exact absurd (hplain _ hmem) (by decide)
  have hscan := scan_element _ h rfl [] [] []
  rw [List.append_nil] at hscan
  unfold parse
  rw [if_pos hlegal, normalizeLines_eq hlines, hscan]
  rfl

end Trees

end Xml

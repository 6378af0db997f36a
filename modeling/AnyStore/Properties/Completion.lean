import AnyStore.Lib.Utf8
import AnyStore.Lib.Xml
import AnyStore.Refinement.Assembly

/-!
# The completion document

What a server that reads XML finds in the body that completes an upload at COS.
The body is the rendering of a tree, so the general round trip applies, and what
is left is to read the parts back from the tree.

## Results

* `completion_round_trip`: a server that reads the body finds the parts that were
  given, in the order of their numbers, parts of one number in the order in which
  they were given.

## Assumptions

The etags are of characters that XML allows, without a carriage return, which a
reader of XML takes for a line feed.
-/

namespace AnyStore.Cos

/-! ## Escaping -/

/-- No replacement touches what an earlier one has written. -/
theorem replaced (c : Char) :
    (((if c = '&' then "&amp;".toList else [c]).flatMap
      (fun c => if c = '<' then "&lt;".toList else [c])).flatMap
      (fun c => if c = '>' then "&gt;".toList else [c])).flatMap
      (fun c => if c = '"' then "&quot;".toList else [c]) = Xml.escapeChar c := by
  -- the four characters one by one; each replacement leaves the others alone
  by_cases hamp : c = '&'
  · subst hamp
    decide
  by_cases hlt : c = '<'
  · subst hlt
    decide
  by_cases hgt : c = '>'
  · subst hgt
    decide
  by_cases hquot : c = '"'
  · subst hquot
    decide
  rw [Xml.escapeChar_of_ne hamp hlt hgt hquot, if_neg hamp, List.flatMap_singleton, if_neg hlt,
    List.flatMap_singleton, if_neg hgt, List.flatMap_singleton, if_neg hquot]

/-- The four replacements one after the other are the escaping of the library. -/
theorem toList_escapeXml (value : String) :
    (escapeXml value).toList = value.toList.flatMap Xml.escapeChar := by
  unfold escapeXml replaceChar
  simp only [String.toList_ofList, List.flatMap_assoc]
  congr 1
  funext c
  rw [← replaced c]
  simp only [List.flatMap_assoc]

/-! ## The tree -/

/-- An empty text is no node at all. -/
def textNodes (text : List Char) : List Xml.Node := if text = [] then [] else [.text text]

/-- The element of one part. -/
def partNode (part : CompletedPart) : Xml.Node :=
  .element "Part".toList
    [.element "PartNumber".toList (textNodes (toString part.partNumber).toList),
      .element "ETag".toList (textNodes part.etag.toList)]

/-- The whole document. -/
def completionNode (listed : List CompletedPart) : Xml.Node :=
  .element "CompleteMultipartUpload".toList (listed.map partNode)

/-- A text is rendered escaped. -/
theorem renderAll_textNodes (text : List Char) :
    Xml.renderAll (textNodes text) = text.flatMap Xml.escapeChar := by
  unfold textNodes
  by_cases h : text = []
  · rw [if_pos h, h]
    rfl
  · rw [if_neg h, Xml.renderAll, Xml.Node.render, Xml.renderAll, List.append_nil]

/-- A number has nothing to escape. -/
theorem digits_unescaped (n : Nat) :
    (toString n).toList.flatMap Xml.escapeChar = (toString n).toList := by
  have hdigit : ∀ c ∈ (toString n).toList, Xml.escapeChar c = [c] := by
    intro c hc
    rw [Nat.toString_eq_ofList_toDigits, String.toList_ofList] at hc
    have hdigit := Nat.isDigit_of_mem_toDigits (by omega) (by omega) hc
    refine Xml.escapeChar_of_ne ?_ ?_ ?_ ?_
    all_goals
      rintro rfl
      exact absurd hdigit (by decide)
  rw [List.flatMap_congr hdigit, List.flatMap_singleton']

/-- The element of a part is rendered as the source writes it. -/
theorem render_partNode (part : CompletedPart) :
    (partNode part).render = (partXml part).toList := by
  -- the tags, letter by letter
  have hopen : "<Part><PartNumber>".toList =
      '<' :: ("Part".toList ++ '>' :: '<' :: ("PartNumber".toList ++ ['>'])) := by decide
  have hnext : "</PartNumber><ETag>".toList =
      '<' :: '/' :: ("PartNumber".toList ++ '>' :: '<' :: ("ETag".toList ++ ['>'])) := by decide
  have hclose : "</ETag></Part>".toList =
      '<' :: '/' :: ("ETag".toList ++ '>' :: '<' :: '/' :: ("Part".toList ++ ['>'])) := by decide
  unfold partNode partXml
  simp only [Xml.Node.render, Xml.renderAll, renderAll_textNodes, digits_unescaped,
    String.toList_append, toList_escapeXml, hopen, hnext, hclose, List.append_assoc,
    List.cons_append, List.nil_append, List.append_nil]

/-- The elements of all parts, one behind the other. -/
theorem renderAll_partNodes (listed : List CompletedPart) :
    Xml.renderAll (listed.map partNode) = (String.join (listed.map partXml)).toList := by
  induction listed with
  | nil => rfl
  | cons part listed ih =>
    rw [List.map_cons, List.map_cons, Xml.renderAll, render_partNode, ih, String.join_cons,
      String.toList_append]

/-- **Rendering.** The body is the rendering of the tree. -/
theorem render_completionNode (listed : List CompletedPart) :
    (completionNode listed).render = (completionXml listed).toList := by
  unfold completionNode completionXml
  have hopen : "<CompleteMultipartUpload>".toList =
      '<' :: ("CompleteMultipartUpload".toList ++ ['>']) := by decide
  have hclose : "</CompleteMultipartUpload>".toList =
      '<' :: '/' :: ("CompleteMultipartUpload".toList ++ ['>']) := by decide
  rw [Xml.Node.render, renderAll_partNodes, String.toList_append, String.toList_append, hopen, hclose,
    List.cons_append, List.cons_append, List.append_assoc, List.append_assoc, List.singleton_append]

/-! ## Reading the parts back -/

/-- The text of an element that has nothing else. -/
def textOf : List Xml.Node → Option (List Char)
  | [] => some []
  | [.text cs] => some cs
  | _ => none

/-- A number is read from a text of digits only. -/
def numberOf (digits : List Char) : Option Nat :=
  if digits ≠ [] ∧ digits.all Char.isDigit then some (Nat.ofDigitChars 10 digits 0) else none

/-- A part is read from an element with a number and an etag, in this order. -/
def partOf : Xml.Node → Option CompletedPart
  | .element name [.element numberName number, .element etagName etag] =>
    if name = "Part".toList ∧ numberName = "PartNumber".toList ∧ etagName = "ETag".toList then do
      let number ← numberOf (← textOf number)
      let etag ← textOf etag
      return ⟨number, String.ofList etag⟩
    else none
  | _ => none

/-- The parts are read from the children of the root element. -/
def partsOf : Xml.Node → Option (List CompletedPart)
  | .element name children =>
    if name = "CompleteMultipartUpload".toList then children.mapM partOf else none
  | _ => none

/-- What a server reads in the body of a completion. -/
def readCompletion (body : List UInt8) : Option (List CompletedPart) :=
  (Xml.parse (Utf8.fromUtf8Lossy body).toList).bind partsOf

/-- The text comes back, also the empty one. -/
theorem textOf_textNodes (text : List Char) : textOf (textNodes text) = some text := by
  unfold textNodes
  by_cases h : text = []
  · rw [if_pos h, h]
    rfl
  · rw [if_neg h]
    rfl

/-- The digits of a number. -/
theorem toList_toString (n : Nat) : (toString n).toList = Nat.toDigits 10 n := by
  rw [Nat.toString_eq_ofList_toDigits, String.toList_ofList]

/-- A number comes back from its digits. -/
theorem numberOf_toString (n : Nat) : numberOf (toString n).toList = some n := by
  have hdigits : (Nat.toDigits 10 n).all Char.isDigit = true := by
    rw [List.all_eq_true]
    intro c hc
    exact Nat.isDigit_of_mem_toDigits (by omega) (by omega) hc
  unfold numberOf
  rw [toList_toString, if_pos ⟨Nat.toDigits_ne_nil, hdigits⟩, Nat.ofDigitChars_ten_toDigits]

/-- A part comes back from its element. -/
theorem partOf_partNode (part : CompletedPart) : partOf (partNode part) = some part := by
  unfold partNode
  rw [partOf, if_pos ⟨rfl, rfl, rfl⟩, textOf_textNodes, textOf_textNodes]
  show (numberOf (toString part.partNumber).toList).bind _ = _
  rw [numberOf_toString]
  show some (CompletedPart.mk _ (String.ofList part.etag.toList)) = _
  rw [String.ofList_toList]

/-- The parts come back from the document. -/
theorem partsOf_completionNode (listed : List CompletedPart) :
    partsOf (completionNode listed) = some listed := by
  unfold completionNode
  rw [partsOf, if_pos rfl]
  induction listed with
  | nil => rfl
  | cons part listed ih =>
    rw [List.map_cons, List.mapM_cons, partOf_partNode, ih]
    rfl

/-- Characters of a document, other than a carriage return. -/
def LegalEtag (part : CompletedPart) : Prop :=
  ∀ c ∈ part.etag.toList, Xml.isChar c = true ∧ c ≠ '\r'

/-- The same condition as a check. -/
theorem legalEtag_iff {part : CompletedPart} :
    LegalEtag part ↔ part.etag.toList.all Xml.isPlainChar = true := by
  unfold LegalEtag Xml.isPlainChar
  simp only [List.all_eq_true, Bool.and_eq_true, bne_iff_ne]

instance decidableLegalEtag (part : CompletedPart) : Decidable (LegalEtag part) :=
  decidable_of_iff _ legalEtag_iff.symm

/-- The nodes of a text are regular: no two texts next to each other, and none empty. -/
theorem regular_textNodes {text : List Char} (h : text.all Xml.isPlainChar = true) :
    Xml.regularAll (textNodes text) = true := by
  unfold textNodes
  by_cases hempty : text = []
  · rw [if_pos hempty]
    rfl
  · rw [if_neg hempty]
    simp [Xml.regularAll, Xml.Node.regular, Xml.startsText, hempty, h]

/-- Digits are legal characters. -/
theorem digits_plain (n : Nat) : (toString n).toList.all Xml.isPlainChar = true := by
  rw [toList_toString, List.all_eq_true]
  intro c hc
  have hdigit := Nat.isDigit_of_mem_toDigits (by omega) (by omega) hc
  simp only [Char.isDigit, Bool.and_eq_true, decide_eq_true_eq] at hdigit
  have hlow : 48 ≤ c.toNat := UInt32.le_iff_toNat_le.mp hdigit.1
  have hhigh : c.toNat ≤ 57 := UInt32.le_iff_toNat_le.mp hdigit.2
  refine (Xml.ne_of_inRanges ?_).2.2.2.2
  unfold Xml.inRanges
  rw [List.any_eq_true]
  refine ⟨(0x30, 0x39), by decide, ?_⟩
  rw [Bool.and_eq_true, decide_eq_true_eq, decide_eq_true_eq]
  exact ⟨hlow, hhigh⟩

/-- The element of a part is regular. -/
theorem regular_partNode {part : CompletedPart} (h : LegalEtag part) :
    (partNode part).regular = true := by
  have hetag := legalEtag_iff.mp h
  have hnames : Xml.isName "Part".toList = true ∧ Xml.isName "PartNumber".toList = true ∧
      Xml.isName "ETag".toList = true := by decide
  unfold partNode
  simp only [Xml.Node.regular, Xml.regularAll, regular_textNodes hetag,
    regular_textNodes (digits_plain _), hnames.1, hnames.2.1, hnames.2.2, Bool.and_true]

/-- The document is regular, so that it can be read back. -/
theorem regular_completionNode {listed : List CompletedPart}
    (h : ∀ part ∈ listed, LegalEtag part) : (completionNode listed).regular = true := by
  have hname : Xml.isName "CompleteMultipartUpload".toList = true := by decide
  unfold completionNode
  rw [Xml.Node.regular, hname, Bool.true_and]
  induction listed with
  | nil => rfl
  | cons part listed ih =>
    have hpart := regular_partNode (h part (List.mem_cons_self ..))
    have hrest := ih fun p hp => h p (List.mem_cons_of_mem _ hp)
    unfold partNode at hpart
    rw [List.map_cons, partNode, Xml.regularAll, hpart, hrest]
    rfl

/-- **Reading.** The server reads the parts as they were listed. -/
theorem readCompletion_completionXml {listed : List CompletedPart}
    (h : ∀ part ∈ listed, LegalEtag part) :
    readCompletion (Utf8.encode (completionXml listed)) = some listed := by
  unfold readCompletion
  rw [Utf8.fromUtf8Lossy_encode, ← render_completionNode, completionNode,
    Xml.parse_render (regular_completionNode h)]
  exact partsOf_completionNode listed

/-! ## The order of the parts -/

/-- Parts of one number keep their order. -/
theorem inOrder_stable (parts : List CompletedPart) (n : Nat) :
    (inOrder parts).filter (·.partNumber = n) = parts.filter (·.partNumber = n) := by
  -- parts of one number are in order already, so a stable sort keeps them as a sublist
  have hpairs : (parts.filter (·.partNumber = n)).Pairwise
      fun a b => decide (a.partNumber ≤ b.partNumber) = true := by
    refine List.pairwise_of_forall_mem_list (fun a ha b hb => ?_)
    have ha : a.partNumber = n := by simpa using (List.mem_filter.mp ha).2
    have hb : b.partNumber = n := by simpa using (List.mem_filter.mp hb).2
    rw [decide_eq_true_eq]
    omega
  have hsub : (parts.filter (·.partNumber = n)).Sublist (inOrder parts) :=
    List.sublist_mergeSort partNumber_trans partNumber_total hpairs List.filter_sublist
  have hfiltered := hsub.filter (·.partNumber = n)
  rw [List.filter_filter] at hfiltered
  simp only [Bool.and_self] at hfiltered
  -- a sublist of the same length is the whole list
  have hlength := ((inOrder_perm parts).filter (·.partNumber = n)).length_eq
  exact (hfiltered.eq_of_length hlength.symm).symm

/-- Whatever the parts, a server that reads the body as XML finds them in the
order of their numbers, those of one number in the order in which they were
given, and with the etags that they have. -/
theorem completion_round_trip (parts : List CompletedPart) (h : ∀ part ∈ parts, LegalEtag part) :
    ∃ listed, readCompletion (Utf8.encode (completeMultipartBody parts)) = some listed ∧
      listed.Perm parts ∧ listed.Pairwise (·.partNumber ≤ ·.partNumber) ∧
      ∀ n, listed.filter (·.partNumber = n) = parts.filter (·.partNumber = n) := by
  refine ⟨inOrder parts, ?_, inOrder_perm parts, inOrder_pairwise parts, inOrder_stable parts⟩
  -- the body is that of the parts in order
  rw [completeMultipartBody_inOrder]
  refine readCompletion_completionXml ?_
  intro part hpart
  exact h part ((inOrder_perm parts).mem_iff.mp hpart)

/-- Two parts of one number, out of order, with markup and an entity in an etag. -/
theorem completion_round_trip_markup :
    ∃ listed, readCompletion (Utf8.encode (completeMultipartBody
        [⟨2, "\"a&amp;<b>\""⟩, ⟨1, ""⟩, ⟨2, "c]]>"⟩])) = some listed ∧
      listed.Perm [⟨2, "\"a&amp;<b>\""⟩, ⟨1, ""⟩, ⟨2, "c]]>"⟩] ∧
      listed.Pairwise (·.partNumber ≤ ·.partNumber) ∧
      ∀ n, listed.filter (·.partNumber = n) =
        [⟨2, "\"a&amp;<b>\""⟩, ⟨1, ""⟩, ⟨2, "c]]>"⟩].filter (·.partNumber = n) := by
  refine completion_round_trip _ ?_
  decide

end AnyStore.Cos

import AnyStore.Refinement.Numerals
import AnyStore.Spec.CosScheme

/-!
# Presigned URLs and the scheme

Canonical lists do not depend on the order in which pairs are supplied, and what
the service reads in a presigned URL is what was signed.
-/

namespace AnyStore.Cos

/-! ## Encoded texts -/

/-- The percent sign is reserved, -/
theorem reserved_percent : reserved 0x25 = true := by decide

/-- so encoded texts differ where the texts do, -/
theorem urlEncode_injective : Function.Injective urlEncode := by
  intro s t h
  have hread := congrArg (fun u => Percent.readText (Utf8.encode u)) h
  unfold urlEncode at hread
  simpa only [Percent.readText_write reserved_percent] using hread

/-- and are read back. -/
theorem readText_urlEncode (s : String) : Percent.readText (Utf8.encode (urlEncode s)) = s :=
  Percent.readText_write reserved_percent s

/-- The separators of lists, queries and URLs do not occur. -/
theorem urlEncode_plain {s : String} {b : UInt8} (hb : reserved b = true) (hpercent : b ≠ 0x25) :
    b ∉ Utf8.encode (urlEncode s) := by
  have hall : ∀ i : Fin 256, reserved (UInt8.ofNat i) = true →
      ¬ (0x30 ≤ (UInt8.ofNat i).toNat ∧ (UInt8.ofNat i).toNat ≤ 0x39) ∧
      ¬ (0x41 ≤ (UInt8.ofNat i).toNat ∧ (UInt8.ofNat i).toNat ≤ 0x46) := by decide +kernel
  have hranges := hall ⟨b.toNat, b.toNat_lt⟩
  rw [UInt8.ofNat_toNat] at hranges
  obtain ⟨hdigit, hletter⟩ := hranges hb
  unfold urlEncode
  rw [Percent.encode_write]
  exact Percent.not_mem_encode (Bool.or_eq_true_iff.mpr (.inr hb)) hpercent hdigit hletter

/-- No semicolon is left. -/
theorem semicolon_urlEncode (s : String) : ';' ∉ (urlEncode s).toList := by
  rw [← Utf8.mem_encode_ascii (by decide)]
  exact urlEncode_plain (by decide) (by decide)

/-! ## Canonical lists -/

section Canonical

variable {pairs pairs' : List (String × String)}

/-- A pair as it stands in a canonical list. -/
abbrev encodePair (p : String × String) : String × String := (urlEncode p.1.toLower, urlEncode p.2)

/-- The pairs are encoded, -/
theorem encodePairs_perm (pairs : List (String × String)) :
    (encodePairs pairs).Perm (pairs.map encodePair) := List.mergeSort_perm _ _

/-- and sorted, -/
theorem encodePairs_sorted (pairs : List (String × String)) :
    (encodePairs pairs).Pairwise fun p q => toLex p ≤ toLex q := by
  have htrans : ∀ a b c : String × String, decide (toLex a ≤ toLex b) = true →
      decide (toLex b ≤ toLex c) = true → decide (toLex a ≤ toLex c) = true := by
    simp only [decide_eq_true_eq]
    intro a b c hab hbc
    exact le_trans hab hbc
  have htotal : ∀ a b : String × String,
      (decide (toLex a ≤ toLex b) || decide (toLex b ≤ toLex a)) = true := by
    simp only [Bool.or_eq_true, decide_eq_true_eq]
    intro a b
    exact le_total _ _
  unfold encodePairs
  simpa only [decide_eq_true_eq] using List.pairwise_mergeSort htrans htotal _

/-- so their order does not matter. -/
theorem canonicalize_perm (h : pairs.Perm pairs') : canonicalize pairs = canonicalize pairs' := by
  have hperm : (encodePairs pairs).Perm (encodePairs pairs') :=
    ((encodePairs_perm pairs).trans (h.map encodePair)).trans (encodePairs_perm pairs').symm
  have hsame := hperm.eq_of_pairwise
    (fun a b _ _ hab hba => toLex_inj.mp (le_antisymm hab hba))
    (encodePairs_sorted _) (encodePairs_sorted _)
  unfold canonicalize
  rw [hsame]

/-- The names of a canonical list. -/
theorem names_canonicalize (hne : pairs ≠ []) :
    names (canonicalize pairs).1 = (encodePairs pairs).map Prod.fst := by
  have hnonempty : (encodePairs pairs).map Prod.fst ≠ [] := by
    intro h
    have hlength := (encodePairs_perm pairs).length_eq
    rw [List.map_eq_nil_iff.mp h, List.length_map] at hlength
    exact hne (List.length_eq_zero_iff.mp hlength.symm)
  have hsep : ∀ l ∈ ((encodePairs pairs).map Prod.fst).map String.toList, ';' ∉ l := by
    intro l hl
    obtain ⟨name, hname, rfl⟩ := List.mem_map.mp hl
    obtain ⟨p, hp, rfl⟩ := List.mem_map.mp hname
    obtain ⟨q, _, rfl⟩ := List.mem_map.mp ((encodePairs_perm pairs).mem_iff.mp hp)
    exact semicolon_urlEncode _
  unfold names canonicalize
  rw [String.toList_intercalate]
  show ((([';'] : List Char).intercalate _).splitOn ';').map String.ofList = _
  rw [List.splitOn_intercalate ';' hsep (by simpa using hnonempty), List.map_map]
  conv_rhs => rw [← List.map_id ((encodePairs pairs).map Prod.fst)]
  refine List.map_congr_left fun name _ => ?_
  exact String.ofList_toList

/-- Who picks the pairs of a canonical list has the pairs that it was made of. -/
theorem joinPairs_pick (hdistinct : (pairs.map fun p => p.1.toLower).Nodup) (hne : pairs ≠ []) :
    joinPairs (pick (canonicalize pairs).1 pairs) = (canonicalize pairs).2 := by
  have hfound : ∀ e ∈ encodePairs pairs,
      ∃ p, pairs.find? (fun p => urlEncode p.1.toLower = e.1) = some p ∧ encodePair p = e := by
    intro e he
    obtain ⟨p, hp, rfl⟩ := List.mem_map.mp ((encodePairs_perm pairs).mem_iff.mp he)
    have hsome : (pairs.find? fun q => urlEncode q.1.toLower = urlEncode p.1.toLower).isSome := by
      rw [List.find?_isSome]
      exact ⟨p, hp, decide_eq_true rfl⟩
    obtain ⟨q, hq⟩ := Option.isSome_iff_exists.mp hsome
    have hkey : urlEncode q.1.toLower = urlEncode p.1.toLower := by
      simpa only [decide_eq_true_eq] using List.find?_some hq
    have hsame := List.inj_on_of_nodup_map hdistinct (List.mem_of_find?_eq_some hq) hp
      (urlEncode_injective hkey)
    exact ⟨q, hq, congrArg encodePair hsame⟩
  have hpicked : ∀ l : List (String × String), (∀ e ∈ l, ∃ p,
      pairs.find? (fun p => urlEncode p.1.toLower = e.1) = some p ∧ encodePair p = e) →
      ((l.map Prod.fst).filterMap fun name =>
        pairs.find? fun p => urlEncode p.1.toLower = name).map encodePair = l := by
    intro l
    induction l with
    | nil => exact fun _ => rfl
    | cons e l ih =>
      intro h
      obtain ⟨p, hp, hpe⟩ := h e (List.mem_cons_self ..)
      rw [List.map_cons, List.filterMap_cons, hp, List.map_cons,
        ih fun e he => h e (List.mem_cons_of_mem _ he), hpe]
  have hlist := hpicked (encodePairs pairs) hfound
  unfold joinPairs pick
  rw [names_canonicalize hne]
  show _ = "&".intercalate ((encodePairs pairs).map fun p => p.1 ++ "=" ++ p.2)
  conv_rhs => rw [← hlist, List.map_map]
  rfl

end Canonical

/-! ## Keys -/

/-- A key whose characters all are unreserved. -/
def Unreserved (key : String) : Prop :=
  ∀ c ∈ key.toList, c.isAlphanum = true ∨ c ∈ ['-', '_', '.', '~']

instance decidableUnreserved (key : String) : Decidable (Unreserved key) :=
  decidable_of_iff _ List.all_iff_forall_prop

/-- An unreserved key stays so in lower case, -/
theorem Unreserved.lower {key : String} (h : Unreserved key) {c : Char}
    (hc : c ∈ key.toLower.toList) :
    c.toNat < 128 ∧ Percent.escapes reserved (UInt8.ofNat c.toNat) = false := by
  have hall : ∀ i : Fin 128, (Char.ofNat i).isAlphanum = true ∨
      Char.ofNat i ∈ ['-', '_', '.', '~'] →
      (Char.ofNat i).toLower.toNat < 128 ∧
        Percent.escapes reserved (UInt8.ofNat (Char.ofNat i).toLower.toNat) = false := by
    decide
  unfold String.toLower at hc
  rw [String.toList_map] at hc
  obtain ⟨d, hd, rfl⟩ := List.mem_map.mp hc
  have hascii : d.toNat < 128 := by
    rcases h d hd with halnum | hmark
    · have hranges : ((decide ('A'.val ≤ d.val ∧ d.val ≤ 'Z'.val) ||
          ('a'.val ≤ d.val && d.val ≤ 'z'.val)) || ('0'.val ≤ d.val && d.val ≤ '9'.val)) = true :=
        halnum
      simp only [Bool.or_eq_true, Bool.and_eq_true, decide_eq_true_eq,
        UInt32.le_iff_toNat_le] at hranges
      have hvalue : d.val.toNat = d.toNat := rfl
      have hlast : 'Z'.val.toNat = 90 ∧ 'z'.val.toNat = 122 ∧ '9'.val.toNat = 57 := by decide
      rw [hvalue, hlast.1, hlast.2.1, hlast.2.2] at hranges
      omega
    · simp only [List.mem_cons, List.not_mem_nil, or_false] at hmark
      rcases hmark with rfl | rfl | rfl | rfl <;> decide
  have hd' := hall ⟨d.toNat, hascii⟩
  rw [Char.ofNat_toNat] at hd'
  exact hd' (h d hd)

/-- Such a key stands in lists as it is, but for its case. -/
theorem Unreserved.urlEncode_chars {key : String} (h : Unreserved key) {c : Char}
    (hc : c ∈ (urlEncode key.toLower).toList) :
    c.toNat < 128 ∧ Percent.escapes reserved (UInt8.ofNat c.toNat) = false := by
  have hbytes : ∀ b ∈ Utf8.encode key.toLower, Percent.escapes reserved b = false := by
    intro b hb
    obtain ⟨d, hd, hb⟩ := List.mem_flatMap.mp hb
    obtain ⟨hascii, hplain⟩ := h.lower hd
    rw [Utf8.encodeChar_ascii hascii, List.mem_singleton] at hb
    rwa [hb]
  have hsame : urlEncode key.toLower = key.toLower := by
    apply Utf8.encode_injective
    unfold urlEncode
    rw [Percent.encode_write, Percent.encode_eq_self hbytes]
  rw [hsame] at hc
  exact h.lower hc

/-- so a list of such keys needs no encoding. -/
theorem Unreserved.paramList {pairs : List (String × String)} (h : ∀ p ∈ pairs, Unreserved p.1)
    {c : Char} (hc : c ∈ (canonicalize pairs).1.toList) : c ≠ '%' ∧ c ≠ '&' := by
  unfold canonicalize at hc
  rw [String.toList_intercalate] at hc
  have hmem : c = ';' ∨ ∃ p ∈ pairs, c ∈ (urlEncode p.1.toLower).toList := by
    rcases FormUrl.mem_intercalate hc with hc | ⟨l, hl, hc⟩
    · exact .inl hc
    · obtain ⟨name, hname, rfl⟩ := List.mem_map.mp hl
      obtain ⟨e, he, rfl⟩ := List.mem_map.mp hname
      obtain ⟨p, hp, rfl⟩ := List.mem_map.mp ((encodePairs_perm pairs).mem_iff.mp he)
      exact .inr ⟨p, hp, hc⟩
  rcases hmem with rfl | ⟨p, hp, hc⟩
  · decide
  · obtain ⟨_, hplain⟩ := (h p hp).urlEncode_chars hc
    constructor
    · rintro rfl
      exact absurd hplain (by decide)
    · rintro rfl
      exact absurd hplain (by decide)

/-! ## Queries -/

/-- A query is read pair by pair, -/
theorem readQuery_append (a b : List UInt8) :
    readQuery (a ++ 0x26 :: b) = readQuery a ++ readQuery b := by
  unfold readQuery
  rw [List.splitOn_append_cons_self, List.map_append]

/-- however many there are. -/
theorem readQuery_pieces {pieces : List (List UInt8)} (hne : pieces ≠ [])
    (hsep : ∀ piece ∈ pieces, 0x26 ∉ piece) :
    readQuery ([0x26].intercalate pieces) = pieces.map pairOf := by
  unfold readQuery
  rw [List.splitOn_intercalate _ hsep hne]

/-- A pair is split at its first sign of equality. -/
theorem pairOf_append {k v : List UInt8} (hk : 0x3D ∉ k) :
    pairOf (k ++ 0x3D :: v) = (Percent.readText k, Percent.readText v) := by
  unfold pairOf
  rw [FormUrl.splitOnce_append hk]

/-- What is rendered is read. -/
theorem pairOf_rendered (p : String × String) :
    pairOf (Utf8.encode (if p.2.isEmpty then urlEncode p.1
      else urlEncode p.1 ++ "=" ++ urlEncode p.2)) = p := by
  have hequals : (0x3D : UInt8) ∉ Utf8.encode (urlEncode p.1) :=
    urlEncode_plain (by decide) (by decide)
  by_cases hempty : p.2.isEmpty = true
  · rw [if_pos hempty]
    unfold pairOf
    cases hsplit : FormUrl.splitOnce 0x3D (Utf8.encode (urlEncode p.1)) with
    | some kv =>
      obtain ⟨k, v⟩ := kv
      have hmem : (0x3D : UInt8) ∈ Utf8.encode (urlEncode p.1) := by
        rw [FormUrl.splitOnce_eq_some hsplit]
        exact List.mem_append_right _ (List.mem_cons_self ..)
      exact absurd hmem hequals
    | none =>
      show (Percent.readText _, "") = p
      rw [readText_urlEncode, ← String.isEmpty_iff.mp hempty]
  · have hmark : Utf8.encode "=" = [0x3D] := by decide
    rw [if_neg hempty, Utf8.encode_append, Utf8.encode_append, hmark, List.append_assoc,
      List.singleton_append, pairOf_append hequals, readText_urlEncode, readText_urlEncode]

/-- The query that was rendered is read back. -/
theorem readQuery_renderQuery {query : List (String × String)} (hne : query ≠ []) :
    readQuery (Utf8.encode (renderQuery query)) = query := by
  have hsep : ∀ piece ∈ (query.map fun p => if p.2.isEmpty then urlEncode p.1
      else urlEncode p.1 ++ "=" ++ urlEncode p.2).map Utf8.encode, (0x26 : UInt8) ∉ piece := by
    have hplain : ∀ s, (0x26 : UInt8) ∉ Utf8.encode (urlEncode s) :=
      fun s => urlEncode_plain (by decide) (by decide)
    intro piece hpiece
    obtain ⟨s, hs, rfl⟩ := List.mem_map.mp hpiece
    obtain ⟨p, _, rfl⟩ := List.mem_map.mp hs
    by_cases hempty : p.2.isEmpty = true
    · rw [if_pos hempty]
      exact hplain p.1
    · rw [if_neg hempty, Utf8.encode_append, Utf8.encode_append, List.mem_append, List.mem_append]
      rintro ((hmem | hmem) | hmem)
      · exact hplain p.1 hmem
      · exact absurd hmem (by decide)
      · exact hplain p.2 hmem
  have hmark : Utf8.encode "&" = [0x26] := by decide
  unfold renderQuery
  rw [Utf8.encode_intercalate, hmark, readQuery_pieces (by simpa using hne) hsep, List.map_map,
    List.map_map]
  conv_rhs => rw [← List.map_id query]
  exact List.map_congr_left fun p _ => pairOf_rendered p

/-- The value of a key stands in the last part that has the key. -/
theorem lastValue_append {pairs last : List (String × String)} {key value : String}
    (h : lastValue last key = some value) : lastValue (pairs ++ last) key = some value := by
  unfold lastValue at h ⊢
  obtain ⟨p, hp, hvalue⟩ := Option.map_eq_some_iff.mp h
  rw [List.reverse_append, List.find?_append, hp]
  exact congrArg some hvalue

/-! ## Signatures in URLs -/

/-- The texts of a signature that stand in a URL as they are. -/
structure Signature.Plain (s : Signature) : Prop where
  keyTime : '%' ∉ s.keyTime.toList ∧ '&' ∉ s.keyTime.toList
  headerList : '%' ∉ s.headerList.toList ∧ '&' ∉ s.headerList.toList
  urlParamList : '%' ∉ s.urlParamList.toList ∧ '&' ∉ s.urlParamList.toList
  signature : '%' ∉ s.signature.toList ∧ '&' ∉ s.signature.toList

/-- A text without an ampersand has none in its bytes. -/
theorem ampersand_plain {s : String} (h : '&' ∉ s.toList) : 0x26 ∉ Utf8.encode s :=
  fun hmem => h ((Utf8.mem_encode_ascii (by decide)).mp hmem)

section Fields

variable {s : Signature} (token : Option String)

/-- The fields behind the access key. -/
def fields (s : Signature) : List (String × List UInt8) :=
  [("q-sign-time", Utf8.encode (encodeSemicolons s.keyTime)),
    ("q-key-time", Utf8.encode (encodeSemicolons s.keyTime)),
    ("q-header-list", Utf8.encode s.headerList),
    ("q-url-param-list", Utf8.encode s.urlParamList),
    ("q-signature", Utf8.encode s.signature)] ++
    (token.map fun token => ("x-cos-security-token", Utf8.encode (urlEncode token))).toList

/-- Only semicolons are replaced, -/
theorem encodeSemicolons_mem {text : String} {c : Char}
    (h : c ∈ (encodeSemicolons text).toList) : c ∈ text.toList ∨ c ∈ "%3B".toList := by
  unfold encodeSemicolons at h
  rw [String.toList_ofList] at h
  obtain ⟨d, hd, hc⟩ := List.mem_flatMap.mp h
  split_ifs at hc with hsemi
  · exact .inr hc
  · obtain rfl := List.mem_singleton.mp hc
    exact .inl hd

/-- and they are read back. -/
theorem readText_encodeSemicolons {text : String} (h : '%' ∉ text.toList) :
    Percent.readText (Utf8.encode (encodeSemicolons text)) = text := by
  have hescape : "%3B".toList.flatMap String.utf8EncodeChar = [0x25, 0x33, 0x42] := by decide
  have hsemicolon : String.utf8EncodeChar ';' = [0x3B] := by decide
  have hdecode : ∀ cs : List Char, '%' ∉ cs → Percent.decode
      ((cs.flatMap fun c => if c = ';' then "%3B".toList else [c]).flatMap String.utf8EncodeChar) =
      cs.flatMap String.utf8EncodeChar := by
    intro cs
    induction cs with
    | nil => exact fun _ => rfl
    | cons c cs ih =>
      intro hcs
      rw [List.mem_cons, not_or] at hcs
      rw [List.flatMap_cons, List.flatMap_append, List.flatMap_cons]
      by_cases hsemi : c = ';'
      · have hthree : FormUrl.hexValue 0x33 = some 3 := by decide
        have heleven : FormUrl.hexValue 0x42 = some 11 := by decide
        have hsum : (16 * 3 + 11 : UInt8) = 0x3B := by decide
        rw [if_pos hsemi, hsemi, hescape, hsemicolon, List.cons_append, List.cons_append,
          List.singleton_append, Percent.decode_hex hthree heleven, ih hcs.2, hsum,
          List.singleton_append]
      · have hplain : (0x25 : UInt8) ∉ String.utf8EncodeChar c := by
          intro hmem
          have hone : UInt8.ofNat '%'.toNat ∈ Utf8.encode (String.ofList [c]) := by
            unfold Utf8.encode
            rw [String.toList_ofList, List.flatMap_cons, List.flatMap_nil, List.append_nil]
            exact hmem
          rw [Utf8.mem_encode_ascii (by decide), String.toList_ofList, List.mem_singleton] at hone
          exact hcs.1 hone
        rw [if_neg hsemi, List.flatMap_cons, List.flatMap_nil, List.append_nil,
          Percent.decode_plain_append hplain, ih hcs.2]
  unfold Percent.readText encodeSemicolons
  unfold Utf8.encode
  rw [String.toList_ofList, hdecode _ h]
  exact Utf8.fromUtf8Lossy_encode text

/-- The names of the fields. -/
def fieldNames : List String :=
  ["q-sign-time", "q-key-time", "q-header-list", "q-url-param-list", "q-signature",
    "x-cos-security-token"]

/-- The names of the fields are plain, -/
theorem fieldNames_plain : ∀ key ∈ fieldNames,
    '%' ∉ key.toList ∧ '&' ∉ key.toList ∧ '=' ∉ key.toList := by decide

/-- and there are no others. -/
theorem fields_names {p : String × List UInt8} (hp : p ∈ fields token s) : p.1 ∈ fieldNames := by
  unfold fields at hp
  rcases List.mem_append.mp hp with hp | hp
  · have hnames := List.mem_map_of_mem (f := Prod.fst) hp
    exact List.mem_append_left ["x-cos-security-token"] hnames
  · cases token with
    | none => cases hp
    | some token =>
      rw [List.mem_singleton.mp hp]
      unfold fieldNames
      simp only [List.mem_cons, true_or, or_true]

/-- No value holds an ampersand, -/
theorem Signature.Plain.fields_values (h : s.Plain) {p : String × List UInt8}
    (hp : p ∈ fields token s) : 0x26 ∉ p.2 := by
  have htime : (0x26 : UInt8) ∉ Utf8.encode (encodeSemicolons s.keyTime) := by
    refine ampersand_plain fun hmem => ?_
    rcases encodeSemicolons_mem hmem with hmem | hmem
    · exact h.keyTime.2 hmem
    · exact absurd hmem (by decide)
  unfold fields at hp
  rcases List.mem_append.mp hp with hp | hp
  · simp only [List.mem_cons, List.not_mem_nil, or_false] at hp
    rcases hp with hp | hp | hp | hp | hp
    · rw [hp]
      dsimp only
      exact htime
    · rw [hp]
      dsimp only
      exact htime
    · rw [hp]
      dsimp only
      exact ampersand_plain h.headerList.2
    · rw [hp]
      dsimp only
      exact ampersand_plain h.urlParamList.2
    · rw [hp]
      dsimp only
      exact ampersand_plain h.signature.2
  · cases token with
    | none => cases hp
    | some token =>
      have htoken : (0x26 : UInt8) ∉ Utf8.encode (urlEncode token) :=
        urlEncode_plain (by decide) (by decide)
      rw [Option.map_some, Option.toList_some, List.mem_singleton] at hp
      rw [hp]
      dsimp only
      exact htoken

/-- so the fields are told apart. -/
theorem Signature.Plain.fields_sep (h : s.Plain) :
    ∀ piece ∈ (fields token s).map (fun p => Utf8.encode p.1 ++ 0x3D :: p.2),
      (0x26 : UInt8) ∉ piece := by
  intro piece hmem
  obtain ⟨p, hp, hpiece⟩ := List.mem_map.mp hmem
  rw [← hpiece, List.mem_append, List.mem_cons, not_or, not_or]
  have hkey := fieldNames_plain _ (fields_names token hp)
  exact ⟨ampersand_plain hkey.2.1, by decide, h.fields_values token hp⟩

/-- The fields as they are read. -/
theorem Signature.Plain.readFields (h : s.Plain) :
    readQuery ([0x26].intercalate
      ((fields token s).map fun p => Utf8.encode p.1 ++ 0x3D :: p.2)) =
      [("q-sign-time", s.keyTime), ("q-key-time", s.keyTime), ("q-header-list", s.headerList),
        ("q-url-param-list", s.urlParamList), ("q-signature", s.signature)] ++
        (token.map fun token => ("x-cos-security-token", token)).toList := by
  have hpair : ∀ p ∈ fields token s,
      pairOf (Utf8.encode p.1 ++ 0x3D :: p.2) = (p.1, Percent.readText p.2) := by
    intro p hp
    obtain ⟨hpercent, _, hequals⟩ := fieldNames_plain _ (fields_names token hp)
    have hbytes : (0x3D : UInt8) ∉ Utf8.encode p.1 :=
      fun hmem => hequals ((Utf8.mem_encode_ascii (by decide)).mp hmem)
    rw [pairOf_append hbytes, Percent.readText_plain hpercent]
  have hread : (fields token s).map (fun p => (p.1, Percent.readText p.2)) =
      [("q-sign-time", s.keyTime), ("q-key-time", s.keyTime), ("q-header-list", s.headerList),
        ("q-url-param-list", s.urlParamList), ("q-signature", s.signature)] ++
        (token.map fun token => ("x-cos-security-token", token)).toList := by
    unfold fields
    rw [List.map_append]
    simp only [List.map_cons, List.map_nil]
    rw [readText_encodeSemicolons h.keyTime.1, Percent.readText_plain h.headerList.1,
      Percent.readText_plain h.urlParamList.1, Percent.readText_plain h.signature.1]
    cases token with
    | none => rfl
    | some token =>
      simp only [Option.map_some, Option.toList_some, List.map_cons, List.map_nil]
      rw [readText_urlEncode]
  have hne : (fields token s).map (fun p => Utf8.encode p.1 ++ 0x3D :: p.2) ≠ [] := by
    unfold fields
    exact List.cons_ne_nil _ _
  rw [readQuery_pieces hne (h.fields_sep token), List.map_map, ← hread]
  exact List.map_congr_left hpair

end Fields

/-! ## Presigned URLs -/

section Presigned

variable (hmac : List UInt8 → List UInt8 → List UInt8) (sha1 : List UInt8 → List UInt8)
  (store : Store)

/-- Nor does a digest. -/
theorem hexEncode_plain (bytes : List UInt8) :
    '%' ∉ (hexEncode bytes).toList ∧ '&' ∉ (hexEncode bytes).toList :=
  ⟨fun h => (hexEncode_chars h).1 rfl, fun h => (hexEncode_chars h).2.1 rfl⟩

/-- Only the host is signed. -/
theorem headerList_host : (canonicalize [("host", store.host)]).1 = "host" := by
  have hhost : urlEncode "host".toLower = "host" := by decide +kernel
  show ";".intercalate ((([("host", store.host)].map encodePair).mergeSort _).map Prod.fst) = _
  rw [List.map_cons, List.map_nil, List.mergeSort_singleton]
  exact hhost

variable {hmac sha1 store} {now : Int} {method path : String} {query : List (String × String)}
  {expiresIn : Nat}

/-- What is signed has plain fields. -/
theorem signRequest_plain (hkeys : ∀ p ∈ query, Unreserved p.1) :
    (signRequest hmac sha1 store now method path query expiresIn).Plain := by
  have htime : ∀ {start stop : Int} {c : Char},
      c ∈ (toString start ++ ";" ++ toString stop).toList → c ≠ '%' ∧ c ≠ '&' := by
    intro start stop c hc
    have hnumber : ∀ {n : Int}, c ∈ (toString n).toList → c ≠ '%' ∧ c ≠ '&' := by
      intro n hn
      rcases Decimal.toString_chars hn with rfl | hdigit
      · decide
      · constructor <;> rintro rfl <;> exact absurd hdigit (by decide)
    rw [String.toList_append, String.toList_append, List.mem_append, List.mem_append] at hc
    rcases hc with (hc | hc) | hc
    · exact hnumber hc
    · rw [List.mem_singleton.mp hc]
      decide
    · exact hnumber hc
  refine ⟨⟨fun h => (htime h).1 rfl, fun h => (htime h).2 rfl⟩, ?_,
    ⟨fun h => (Unreserved.paramList hkeys h).1 rfl, fun h => (Unreserved.paramList hkeys h).2 rfl⟩,
    hexEncode_plain _⟩
  show '%' ∉ (canonicalize [("host", store.host)]).1.toList ∧
    '&' ∉ (canonicalize [("host", store.host)]).1.toList
  rw [headerList_host]
  decide

/-- A path's question mark is encoded, -/
theorem encodePath_question (path : String) : (0x3F : UInt8) ∉ Utf8.encode (encodePath path) := by
  have hmark : Utf8.encode "/" = [0x2F] := by decide
  unfold encodePath
  rw [Utf8.encode_intercalate, hmark]
  intro hmem
  rcases FormUrl.mem_intercalate hmem with h | ⟨segment, hsegment, hmem⟩
  · exact absurd h (by decide)
  · rw [List.map_map] at hsegment
    obtain ⟨cs, _, hcs⟩ := List.mem_map.mp hsegment
    rw [Function.comp_apply] at hcs
    rw [← hcs] at hmem
    have hplain : (0x3F : UInt8) ∉ Utf8.encode (urlEncode (String.ofList cs)) :=
      urlEncode_plain (by decide) (by decide)
    exact hplain hmem

/-- and read back. -/
theorem readText_encodePath (path : String) :
    Percent.readText (Utf8.encode (encodePath path)) = path := by
  have hmark : Utf8.encode "/" = [0x2F] := by decide
  have hslash : (0x25 : UInt8) ∉ [0x2F] := by decide
  -- the segments, and then their joints
  have hdecode : ∀ segments : List (List Char), Percent.decode ([0x2F].intercalate
      (segments.map fun cs => Utf8.encode (urlEncode (String.ofList cs)))) =
      Utf8.encode ("/".intercalate (segments.map String.ofList)) := by
    intro segments
    rw [Utf8.encode_intercalate, hmark, List.map_map]
    induction segments with
    | nil => rfl
    | cons cs segments ih =>
      unfold urlEncode at ih ⊢
      cases segments with
      | nil =>
        rw [List.map_cons, List.map_nil, List.map_cons, List.map_nil, List.intercalate_singleton,
          List.intercalate_singleton, Percent.encode_write, Percent.decode_encode reserved_percent,
          Function.comp_apply]
      | cons ds segments =>
        rw [List.map_cons, List.map_cons] at ih ⊢
        rw [List.map_cons, List.map_cons, List.intercalate_cons_cons, List.intercalate_cons_cons,
          List.append_assoc, Percent.encode_write, Percent.decode_encode_append reserved_percent,
          Percent.decode_plain_append hslash, ih, List.append_assoc]
        rfl
  unfold encodePath Percent.readText
  rw [Utf8.encode_intercalate, hmark, List.map_map]
  have hsegments := hdecode (path.toList.splitOn '/')
  rw [Function.comp_def, hsegments, Utf8.fromUtf8Lossy_encode]
  apply String.toList_injective
  rw [String.toList_intercalate, List.map_map]
  have hid : String.toList ∘ String.ofList = id := funext fun _ => String.toList_ofList
  rw [hid, List.map_id]
  exact List.intercalate_splitOn '/'

/-- What precedes the fields in a query: the parameters and the access key. -/
def front (secretId : String) (query : List (String × String)) : List UInt8 :=
  (if query.isEmpty then [] else Utf8.encode (renderQuery query) ++ [0x26]) ++
    (Utf8.encode "q-sign-algorithm=sha1" ++ 0x26 :: Utf8.encode ("q-ak=" ++ secretId))

/-- The query of the request comes first. -/
theorem readQuery_front (secretId : String) (query : List (String × String)) :
    ∃ rest, readQuery (front secretId query) =
      query ++ ("q-sign-algorithm", "sha1") :: rest := by
  have halgorithm : readQuery (Utf8.encode "q-sign-algorithm=sha1") =
      [("q-sign-algorithm", "sha1")] := by
    have hsplit : Utf8.encode "q-sign-algorithm=sha1" =
        Utf8.encode "q-sign-algorithm" ++ 0x3D :: Utf8.encode "sha1" := by decide
    have hsep : ∀ piece ∈ [Utf8.encode "q-sign-algorithm=sha1"], (0x26 : UInt8) ∉ piece := by
      decide
    have hread := readQuery_pieces (List.cons_ne_nil _ _) hsep
    rw [List.intercalate_singleton, List.map_cons, List.map_nil, hsplit,
      pairOf_append (by decide), Percent.readText_plain (by decide),
      Percent.readText_plain (by decide)] at hread
    rw [hsplit, hread]
  refine ⟨readQuery (Utf8.encode ("q-ak=" ++ secretId)), ?_⟩
  unfold front
  by_cases hempty : query = []
  · rw [hempty, if_pos List.isEmpty_nil, List.nil_append, readQuery_append, halgorithm]
    rfl
  · rw [if_neg (by rwa [List.isEmpty_iff]), List.append_assoc, List.singleton_append,
      readQuery_append, readQuery_renderQuery hempty, readQuery_append, halgorithm]
    rfl

/-- The signature and the token as they end a URL. -/
def signed (s : Signature) (secretId : String) (token : Option String) : String :=
  s.render secretId true ++
    token.elim "" fun token => "&x-cos-security-token=" ++ urlEncode token

/-- The fields as texts. -/
def fieldTexts (token : Option String) (s : Signature) : List String :=
  ["q-sign-time=" ++ encodeSemicolons s.keyTime, "q-key-time=" ++ encodeSemicolons s.keyTime,
    "q-header-list=" ++ s.headerList, "q-url-param-list=" ++ s.urlParamList,
    "q-signature=" ++ s.signature] ++
    (token.map fun token => "x-cos-security-token=" ++ urlEncode token).toList

/-- The signed part, field by field, -/
theorem signed_eq (s : Signature) (secretId : String) (token : Option String) :
    signed s secretId token = "q-sign-algorithm=sha1" ++ ("&" ++ ("q-ak=" ++ secretId ++
      ("&" ++ "&".intercalate (fieldTexts token s)))) := by
  apply String.toList_injective
  unfold signed Signature.render fieldTexts
  cases token with
  | none => simp
  | some token => simp

/-- in bytes, -/
theorem encode_fieldTexts (token : Option String) (s : Signature) :
    (fieldTexts token s).map Utf8.encode =
      (fields token s).map fun p => Utf8.encode p.1 ++ 0x3D :: p.2 := by
  have hequals : ∀ key ∈ fieldNames, Utf8.encode (key ++ "=") = Utf8.encode key ++ [0x3D] := by
    decide
  have hfield : ∀ key value, key ∈ fieldNames →
      Utf8.encode (key ++ "=" ++ value) = Utf8.encode key ++ 0x3D :: Utf8.encode value := by
    intro key value hkey
    rw [Utf8.encode_append, hequals key hkey, List.append_assoc, List.singleton_append]
  have hmem : "q-sign-time" ∈ fieldNames ∧ "q-key-time" ∈ fieldNames ∧
      "q-header-list" ∈ fieldNames ∧ "q-url-param-list" ∈ fieldNames ∧
      "q-signature" ∈ fieldNames ∧ "x-cos-security-token" ∈ fieldNames := by decide
  obtain ⟨htime, hkeyTime, hheaders, hparams, hsignature, htoken⟩ := hmem
  unfold fieldTexts fields
  rw [List.map_append, List.map_append]
  simp only [List.map_cons, List.map_nil]
  rw [← hfield _ _ htime, ← hfield _ _ hkeyTime, ← hfield _ _ hheaders, ← hfield _ _ hparams,
    ← hfield _ _ hsignature]
  cases token with
  | none => rfl
  | some token =>
    simp only [Option.map_some, Option.toList_some, List.map_cons, List.map_nil]
    rw [← hfield _ _ htoken]
    rfl

/-- and joined. -/
theorem encode_signed (s : Signature) (secretId : String) (token : Option String) :
    Utf8.encode (signed s secretId token) = Utf8.encode "q-sign-algorithm=sha1" ++
      0x26 :: (Utf8.encode ("q-ak=" ++ secretId) ++ 0x26 :: [0x26].intercalate
        ((fields token s).map fun p => Utf8.encode p.1 ++ 0x3D :: p.2)) := by
  have hmark : Utf8.encode "&" = [0x26] := by decide
  rw [signed_eq, Utf8.encode_append, Utf8.encode_append "&", Utf8.encode_append ("q-ak=" ++ secretId),
    Utf8.encode_append "&", Utf8.encode_intercalate, hmark, encode_fieldTexts,
    List.singleton_append, List.singleton_append]

/-- The query of a presigned URL, as bytes. -/
theorem encode_presign (hmac : List UInt8 → List UInt8 → List UInt8)
    (sha1 : List UInt8 → List UInt8) (store : Store) (now : Int) (method path : String)
    (query : List (String × String)) (expiresIn : Nat) :
    Utf8.encode (presign hmac sha1 store now method path query expiresIn) =
      Utf8.encode ("https://" ++ store.host) ++ (Utf8.encode (encodePath path) ++
        0x3F :: (front store.secretId query ++ 0x26 :: [0x26].intercalate
          ((fields store.sessionToken
            (signRequest hmac sha1 store now method path query expiresIn)).map
            fun p => Utf8.encode p.1 ++ 0x3D :: p.2))) := by
  have hquestion : Utf8.encode "?" = [0x3F] := by decide
  have hampersand : Utf8.encode "&" = [0x26] := by decide
  obtain ⟨last, hlast⟩ : ∃ last, last = signed
      (signRequest hmac sha1 store now method path query expiresIn) store.secretId
      store.sessionToken := ⟨_, rfl⟩
  have htail := encode_signed (signRequest hmac sha1 store now method path query expiresIn)
    store.secretId store.sessionToken
  have hurl : presign hmac sha1 store now method path query expiresIn =
      "https://" ++ store.host ++ (encodePath path ++ ((if query.isEmpty then ""
        else "?" ++ renderQuery query) ++ ((if query.isEmpty then "?" else "&") ++ last))) := by
    rw [hlast]
    unfold presign url signed
    cases store.sessionToken <;> cases query.isEmpty <;> simp [String.append_assoc]
  rw [hurl, Utf8.encode_append, Utf8.encode_append]
  rw [← hlast] at htail
  unfold front
  cases query.isEmpty with
  | true =>
    simp only [if_true, String.empty_append, List.nil_append]
    rw [Utf8.encode_append, Utf8.encode_append "?", htail, hquestion]
    simp only [List.append_assoc, List.cons_append, List.nil_append]
  | false =>
    simp only [Bool.false_eq_true, if_false]
    rw [Utf8.encode_append, Utf8.encode_append, Utf8.encode_append, Utf8.encode_append "&", htail,
      hquestion, hampersand]
    simp only [List.append_assoc, List.cons_append, List.nil_append]

/-- The service reads the path, and the parameters before the fields. -/
theorem readUrl_presign (hkeys : ∀ p ∈ query, Unreserved p.1) :
    ∃ rest, readUrl store.host (presign hmac sha1 store now method path query expiresIn) =
      some (path, query ++ ("q-sign-algorithm", "sha1") :: rest ++
        ([("q-sign-time", (signRequest hmac sha1 store now method path query expiresIn).keyTime),
          ("q-key-time", (signRequest hmac sha1 store now method path query expiresIn).keyTime),
          ("q-header-list", "host"), ("q-url-param-list", (canonicalize query).1),
          ("q-signature",
            (signRequest hmac sha1 store now method path query expiresIn).signature)] ++
          (store.sessionToken.map fun token => ("x-cos-security-token", token)).toList)) := by
  have hplain : (signRequest hmac sha1 store now method path query expiresIn).Plain :=
    signRequest_plain hkeys
  obtain ⟨rest, hfront⟩ := readQuery_front store.secretId query
  have hlist : (signRequest hmac sha1 store now method path query expiresIn).headerList = "host" :=
    headerList_host store
  refine ⟨rest, ?_⟩
  unfold readUrl
  rw [encode_presign]
  have hscheme : ∀ after, (Utf8.encode ("https://" ++ store.host)).isPrefixOf
      (Utf8.encode ("https://" ++ store.host) ++ after) = true := by
    intro after
    rw [List.isPrefixOf_iff_prefix]
    exact List.prefix_append _ _
  dsimp only
  rw [if_pos (hscheme _), List.drop_left, FormUrl.splitOnce_append (encodePath_question path),
    Option.map_some, readText_encodePath, readQuery_append, hfront, hplain.readFields, hlist]
  rfl

end Presigned

end AnyStore.Cos

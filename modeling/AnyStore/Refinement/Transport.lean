import AnyStore.Model.Transport
import AnyStore.Refinement.Assembly
import AnyStore.Refinement.Numerals

/-!
# Messages and queries of signed URLs

The authenticated message as a text whose fields are joined by line feeds, the
parameters that the transport finds in a query that was issued, and the
comparison of signatures.
-/

namespace AnyStore.LocalFs

/-! ## Messages -/

section Message

variable {method path : String} {expires : Int} {filename : Option String}

/-- The message is one text. -/
theorem macMessage_eq : macMessage method path expires filename =
    Utf8.encode (String.ofList (method.toList ++ '\n' :: (path.toList ++ '\n' ::
      ((toString expires).toList ++ '\n' :: (filename.getD "").toList)))) := by
  have hfeed : String.utf8EncodeChar '\n' = [0x0A] := Utf8.encodeChar_ascii (by decide)
  unfold macMessage Decimal.print Utf8.encode
  rw [String.toList_ofList]
  simp only [List.flatMap_append, List.flatMap_cons, hfeed, List.singleton_append]

theorem macMessage_eq_iff {method' path' : String} {expires' : Int} {filename' : Option String} :
    macMessage method path expires filename = macMessage method' path' expires' filename' ↔
      method.toList ++ '\n' :: (path.toList ++ '\n' :: ((toString expires).toList ++ '\n' ::
        (filename.getD "").toList)) =
      method'.toList ++ '\n' :: (path'.toList ++ '\n' :: ((toString expires').toList ++ '\n' ::
        (filename'.getD "").toList)) := by
  rw [macMessage_eq, macMessage_eq]
  constructor
  · intro h
    have htext := congrArg String.toList (Utf8.encode_injective h)
    rwa [String.toList_ofList, String.toList_ofList] at htext
  · intro h
    rw [h]

theorem feed_toString (n : Int) : '\n' ∉ (toString n).toList := by
  intro h
  rcases Decimal.toString_chars h with h | h
  · exact absurd h (by decide)
  · exact absurd h (by decide)

theorem toString_inj {m n : Int} (h : (toString m).toList = (toString n).toList) : m = n := by
  have htext : toString m = toString n := String.toList_injective h
  exact Decimal.print_injective (congrArg Utf8.encode htext)

theorem IsUploadId.feed {id : UploadId} (h : IsUploadId id) : '\n' ∉ id.toList := by
  obtain ⟨tail, rfl, htail⟩ := h
  rw [String.toList_append, List.mem_append, not_or]
  refine ⟨by decide, fun hmem => ?_⟩
  exact absurd (htail '\n' hmem) (by decide)

/-- Nothing that is signed has a line feed before the expiry. -/
theorem Signs.feed (h : Signs method path filename) :
    '\n' ∉ method.toList ∧ '\n' ∉ path.toList := by
  cases h with
  | blob hid =>
    refine ⟨by decide, ?_⟩
    unfold blobRefFor
    rw [String.toList_append, List.mem_append, not_or]
    exact ⟨by decide, hid.feed⟩
  | part number hid =>
    refine ⟨by decide, ?_⟩
    have hnumber : '\n' ∉ (toString number).toList := feed_toString number
    unfold partPath blobRefFor
    simp only [String.toList_append, List.mem_append, not_or]
    exact ⟨⟨⟨⟨by decide, hid.feed⟩, by decide⟩, by decide⟩, hnumber⟩
  | download filename hid =>
    refine ⟨by decide, ?_⟩
    unfold blobRefFor
    rw [String.toList_append, List.mem_append, not_or]
    exact ⟨by decide, hid.feed⟩

end Message

/-! ## Signatures -/

section Signature

variable {hmac : List UInt8 → List UInt8 → List UInt8} {store : Store}

theorem foldl_or (l : List (UInt8 × UInt8)) (acc : UInt8) :
    l.foldl (fun acc p => acc ||| (p.1 ^^^ p.2)) acc = 0 ↔ acc = 0 ∧ ∀ p ∈ l, p.1 = p.2 := by
  induction l generalizing acc with
  | nil => simp
  | cons p l ih =>
    rw [List.foldl_cons, ih, UInt8.or_eq_zero_iff, UInt8.xor_eq_zero_iff, List.forall_mem_cons]
    exact and_assoc

/-- The comparison accepts the signature and nothing else. -/
theorem verify_iff {method path : String} {expires : Int} {filename : Option String}
    {presented : String} : verify hmac store method path expires filename presented = true ↔
      presented = sign hmac store method path expires filename := by
  unfold verify
  generalize sign hmac store method path expires filename = expected
  show (if _ then false else _) = true ↔ _
  by_cases hlength : (Utf8.encode expected).length = (Utf8.encode presented).length
  · rw [if_neg (not_not.mpr hlength), beq_iff_eq, foldl_or]
    constructor
    · rintro ⟨_, hall⟩
      refine (Utf8.encode_injective (List.ext_getElem hlength fun i hi hj => ?_)).symm
      have hzip : i < ((Utf8.encode expected).zip (Utf8.encode presented)).length := by
        rw [List.length_zip]
        omega
      have hpair := hall _ (List.getElem_mem hzip)
      rwa [List.getElem_zip] at hpair
    · rintro rfl
      refine ⟨rfl, fun p hp => ?_⟩
      obtain ⟨i, hi, rfl⟩ := List.getElem_of_mem hp
      rw [List.getElem_zip]
  · rw [if_pos hlength]
    constructor
    · intro h
      cases h
    · rintro rfl
      exact absurd rfl hlength

end Signature

/-! ## Expiries -/

theorem expiry_range (now : Int) (expiresIn : Nat) :
    -(2 ^ 63) ≤ expiry now expiresIn ∧ expiry now expiresIn < 2 ^ 63 := by
  unfold expiry
  generalize now + (expiresIn : Int).bmod (2 ^ 64) = n
  have hlow := Int.le_bmod (x := n) (m := 2 ^ 64) (by decide)
  have hhigh := Int.bmod_lt (x := n) (m := 2 ^ 64) (by decide)
  omega

/-! ## Queries -/

/-- The parameters of a query whose pieces all are parameters. -/
theorem param_pieces {pairs : List (String × List UInt8)} {query : String} (hne : pairs ≠ [])
    (hkeys : ∀ p ∈ pairs, 0x26 ∉ Utf8.encode p.1 ∧ 0x3D ∉ Utf8.encode p.1)
    (hvalues : ∀ p ∈ pairs, 0x26 ∉ p.2)
    (hquery : Utf8.encode query =
      [0x26].intercalate (pairs.map fun p => Utf8.encode p.1 ++ 0x3D :: p.2)) (key : String) :
    param (some query) key = (pairs.find? (·.1 = key)).map fun p => Percent.readText p.2 := by
  have hsep : ∀ piece ∈ pairs.map (fun p => Utf8.encode p.1 ++ 0x3D :: p.2),
      (0x26 : UInt8) ∉ piece := by
    intro piece hpiece
    obtain ⟨p, hp, rfl⟩ := List.mem_map.mp hpiece
    rw [List.mem_append, List.mem_cons, not_or, not_or]
    exact ⟨(hkeys p hp).1, by decide, hvalues p hp⟩
  unfold param
  rw [Option.bind_some, hquery, List.splitOn_intercalate _ hsep (by simpa using hne)]
  clear hsep hquery hne
  induction pairs with
  | nil => rfl
  | cons p pairs ih =>
    have hrest := ih (fun q hq => hkeys q (List.mem_cons_of_mem _ hq))
      fun q hq => hvalues q (List.mem_cons_of_mem _ hq)
    have hsplit := FormUrl.splitOnce_append (v := p.2) (hkeys p (List.mem_cons_self ..)).2
    rw [List.map_cons, List.findSome?_cons, hsplit, List.find?_cons]
    by_cases hkey : p.1 = key
    · subst hkey
      simp
    · have hbytes : Utf8.encode p.1 ≠ Utf8.encode key := fun he => hkey (Utf8.encode_injective he)
      simpa [hkey, hbytes] using hrest

section Issued

variable (hmac : List UInt8 → List UInt8 → List UInt8) (store : Store)

/-- The parameters of an issued query. -/
def issuedPairs (method path : String) (now : Int) (expiresIn : Nat) (filename : Option String) :
    List (String × List UInt8) :=
  ("exp", Decimal.print (expiry now expiresIn)) ::
    ("sig", Utf8.encode (sign hmac store method path (expiry now expiresIn) filename)) ::
    (filename.map fun filename =>
      ("filename", Percent.encode component (Utf8.encode filename))).toList

variable {hmac store} {method path : String} {now : Int} {expiresIn : Nat}
  {filename : Option String}

theorem escapes_percent : component 0x25 = true := by decide

theorem encode_signedQuery :
    Utf8.encode (signedQuery hmac store method path now expiresIn filename) =
      [0x26].intercalate ((issuedPairs hmac store method path now expiresIn filename).map
        fun p => Utf8.encode p.1 ++ 0x3D :: p.2) := by
  have hexp : Utf8.encode "exp=" = Utf8.encode "exp" ++ [0x3D] := by decide
  have hsig : Utf8.encode "&sig=" = 0x26 :: (Utf8.encode "sig" ++ [0x3D]) := by decide
  have hname : Utf8.encode "&filename=" = 0x26 :: (Utf8.encode "filename" ++ [0x3D]) := by decide
  unfold signedQuery issuedPairs
  cases filename with
  | none =>
    show Utf8.encode ("exp=" ++ toString (expiry now expiresIn) ++ "&sig=" ++ _) = _
    rw [Utf8.encode_append, Utf8.encode_append, Utf8.encode_append, hexp, hsig]
    simp [Decimal.print, List.intercalate]
  | some filename =>
    show Utf8.encode ("exp=" ++ toString (expiry now expiresIn) ++ "&sig=" ++ _ ++ "&filename=" ++
      encodeComponent filename) = _
    rw [Utf8.encode_append, Utf8.encode_append, Utf8.encode_append, Utf8.encode_append,
      Utf8.encode_append, hexp, hsig, hname, encodeComponent, Percent.encode_write]
    simp [Decimal.print, List.intercalate]

theorem print_ascii {n : Int} {b : UInt8} (h : b ∈ Decimal.print n) :
    b ≠ 0x23 ∧ b ≠ 0x25 ∧ b ≠ 0x26 := by
  rcases Decimal.print_bytes h with rfl | hdigit
  · decide
  · refine ⟨?_, ?_, ?_⟩ <;> rintro rfl <;> exact absurd hdigit (by decide)

/-- No piece has a separator of queries or URLs in it. -/
theorem issuedPairs_values {p : String × List UInt8}
    (hp : p ∈ issuedPairs hmac store method path now expiresIn filename) :
    0x26 ∉ p.2 ∧ 0x23 ∉ p.2 := by
  have hsign : ∀ c ∈ (sign hmac store method path (expiry now expiresIn) filename).toList,
      c ≠ '%' ∧ c ≠ '&' ∧ c ≠ '#' := fun c hc => hexEncode_chars hc
  unfold issuedPairs at hp
  simp only [List.mem_cons] at hp
  rcases hp with rfl | rfl | hp
  · exact ⟨fun hmem => (print_ascii hmem).2.2 rfl, fun hmem => (print_ascii hmem).1 rfl⟩
  · constructor
    · intro hmem
      exact (hsign '&' ((Utf8.mem_encode_ascii (by decide)).mp hmem)).2.1 rfl
    · intro hmem
      exact (hsign '#' ((Utf8.mem_encode_ascii (by decide)).mp hmem)).2.2 rfl
  · cases filename with
    | none => cases hp
    | some filename =>
      obtain rfl := List.mem_singleton.mp hp
      exact ⟨Percent.not_mem_encode (by decide) (by decide) (by decide) (by decide),
        Percent.not_mem_encode (by decide) (by decide) (by decide) (by decide)⟩

theorem issuedPairs_keys {p : String × List UInt8}
    (hp : p ∈ issuedPairs hmac store method path now expiresIn filename) :
    p.1 = "exp" ∨ p.1 = "sig" ∨ p.1 = "filename" := by
  unfold issuedPairs at hp
  simp only [List.mem_cons] at hp
  rcases hp with rfl | rfl | hp
  · exact .inl rfl
  · exact .inr (.inl rfl)
  · cases filename with
    | none => cases hp
    | some filename =>
      obtain rfl := List.mem_singleton.mp hp
      exact .inr (.inr rfl)

theorem param_issued (key : String) :
    param (some (signedQuery hmac store method path now expiresIn filename)) key =
      ((issuedPairs hmac store method path now expiresIn filename).find? (·.1 = key)).map
        fun p => Percent.readText p.2 := by
  refine param_pieces (List.cons_ne_nil _ _) (fun p hp => ?_)
    (fun p hp => (issuedPairs_values hp).1) encode_signedQuery key
  rcases issuedPairs_keys hp with h | h | h
  all_goals
    rw [h]
    decide

/-- A query that was issued is good until its expiry. -/
theorem checkSignature_issued (t : Int) :
    checkSignature hmac store t method path
        (some (signedQuery hmac store method path now expiresIn filename)) =
      if t ≤ expiry now expiresIn then .ok filename else .error (deny 403 "signature expired") := by
  have hsign : '%' ∉ (sign hmac store method path (expiry now expiresIn) filename).toList :=
    fun hmem => (hexEncode_chars hmem).1 rfl
  have hexpires : '%' ∉ (toString (expiry now expiresIn)).toList := by
    intro hmem
    have hbyte : (0x25 : UInt8) ∈ Decimal.print (expiry now expiresIn) :=
      (Utf8.mem_encode_ascii (by decide)).mpr hmem
    exact (print_ascii hbyte).2.1 rfl
  have hexp : param (some (signedQuery hmac store method path now expiresIn filename)) "exp" =
      some (toString (expiry now expiresIn)) := by
    rw [param_issued]
    exact congrArg some (Percent.readText_plain hexpires)
  have hsig : param (some (signedQuery hmac store method path now expiresIn filename)) "sig" =
      some (sign hmac store method path (expiry now expiresIn) filename) := by
    rw [param_issued]
    exact congrArg some (Percent.readText_plain hsign)
  have hname : param (some (signedQuery hmac store method path now expiresIn filename))
      "filename" = filename := by
    rw [param_issued]
    cases filename with
    | none => rfl
    | some filename =>
      have hread := Percent.readText_write escapes_percent filename
      rw [Percent.encode_write] at hread
      exact congrArg some hread
  obtain ⟨hlow, hhigh⟩ := expiry_range now expiresIn
  have hparsed : parseI64 (Utf8.encode (toString (expiry now expiresIn))) =
      some (expiry now expiresIn) := parseI64_print hlow hhigh
  unfold checkSignature
  rw [hexp, hsig, hname, Option.bind_some, hparsed]
  show (if expiry now expiresIn < t then _ else if verify hmac store method path
    (expiry now expiresIn) filename _ then _ else _) = _
  rw [if_pos (verify_iff.mpr rfl)]
  by_cases ht : t ≤ expiry now expiresIn
  · rw [if_pos ht, if_neg (by omega)]
  · rw [if_neg ht, if_pos (by omega)]

/-- The letters of a path that is signed. -/
theorem Signs.plain (h : Signs method path filename) {c : Char} (hc : c ∈ path.toList) :
    c ≠ '%' ∧ c ≠ '?' ∧ c ≠ '#' := by
  have hblob : ∀ {id : UploadId}, IsUploadId id → ∀ c ∈ (blobRefFor id).toList,
      c ≠ '%' ∧ c ≠ '?' ∧ c ≠ '#' := by
    rintro id ⟨tail, rfl, htail⟩ c hc
    have hfixed : ∀ c ∈ "blobs/".toList ++ "upload_".toList, c ≠ '%' ∧ c ≠ '?' ∧ c ≠ '#' :=
      List.all_iff_forall_prop.mp (by decide)
    unfold blobRefFor at hc
    rw [String.toList_append, String.toList_append, ← List.append_assoc] at hc
    rcases List.mem_append.mp hc with hc | hc
    · exact hfixed c hc
    · have halnum := htail c hc
      refine ⟨?_, ?_, ?_⟩ <;> rintro rfl <;> exact absurd halnum (by decide)
  cases h with
  | blob hid => exact hblob hid c hc
  | part number hid =>
    have hfixed : ∀ c ∈ ".parts".toList ++ "/".toList, c ≠ '%' ∧ c ≠ '?' ∧ c ≠ '#' :=
      List.all_iff_forall_prop.mp (by decide)
    unfold partPath at hc
    have hnumber : ∀ {d : Char}, d ∈ (toString number).toList → d = '-' ∨ d.isDigit = true :=
      fun hd => Decimal.toString_chars (n := number) hd
    rw [String.toList_append, String.toList_append, String.toList_append, List.append_assoc,
      List.append_assoc] at hc
    rcases List.mem_append.mp hc with hc | hc
    · exact hblob hid c hc
    · rw [← List.append_assoc] at hc
      rcases List.mem_append.mp hc with hc | hc
      · exact hfixed c hc
      · rcases hnumber hc with rfl | hdigit
        · decide
        · refine ⟨?_, ?_, ?_⟩ <;> rintro rfl <;> exact absurd hdigit (by decide)
  | download filename hid => exact hblob hid c hc

theorem query_fragment :
    0x23 ∉ Utf8.encode (signedQuery hmac store method path now expiresIn filename) := by
  rw [encode_signedQuery]
  intro hmem
  rcases FormUrl.mem_intercalate hmem with hsep | ⟨piece, hpiece, hmem⟩
  · exact absurd hsep (by decide)
  · obtain ⟨p, hp, rfl⟩ := List.mem_map.mp hpiece
    rw [List.mem_append, List.mem_cons] at hmem
    rcases hmem with hmem | hmem | hmem
    · rcases issuedPairs_keys hp with h | h | h
      all_goals
        rw [h] at hmem
        exact absurd hmem (by decide)
    · exact absurd hmem (by decide)
    · exact (issuedPairs_values hp).2 hmem

/-- The transport finds the path and the query of an issued URL. -/
theorem routed_issued (h : Signs method path filename) :
    routed (signedTarget hmac store method path now expiresIn filename) =
      some (path, some (signedQuery hmac store method path now expiresIn filename)) := by
  have hpath : ∀ {c : Char}, c.toNat < 128 → (c = '%' ∨ c = '?' ∨ c = '#') →
      UInt8.ofNat c.toNat ∉ Utf8.encode path := by
    intro c hascii hc hmem
    obtain ⟨hpercent, hquestion, hhash⟩ := h.plain ((Utf8.mem_encode_ascii hascii).mp hmem)
    rcases hc with hc | hc | hc
    · exact hpercent hc
    · exact hquestion hc
    · exact hhash hc
  have htarget : Utf8.encode (signedTarget hmac store method path now expiresIn filename) =
      Utf8.encode "/dev-blobs/" ++ (Utf8.encode path ++ 0x3F ::
        Utf8.encode (signedQuery hmac store method path now expiresIn filename)) := by
    have hmark : Utf8.encode "?" = [0x3F] := by decide
    unfold signedTarget
    rw [Utf8.encode_append, Utf8.encode_append, Utf8.encode_append, hmark]
    simp only [List.append_assoc, List.singleton_append]
  have hsent : (Utf8.encode (signedTarget hmac store method path now expiresIn filename)).takeWhile
      (· ≠ 0x23) = Utf8.encode (signedTarget hmac store method path now expiresIn filename) := by
    rw [List.takeWhile_eq_self_iff]
    intro b hb
    rw [htarget, List.mem_append, List.mem_append, List.mem_cons] at hb
    rw [decide_eq_true_eq]
    rintro rfl
    rcases hb with hb | hb | hb | hb
    · exact absurd hb (by decide)
    · exact hpath (c := '#') (by decide) (.inr (.inr rfl)) hb
    · exact absurd hb (by decide)
    · exact query_fragment hb
  have hsplit := FormUrl.splitOnce_append
    (v := Utf8.encode (signedQuery hmac store method path now expiresIn filename))
    (hpath (c := '?') (by decide) (.inr (.inl rfl)))
  have hdecoded : Percent.readText (Utf8.encode path) = path := by
    refine Percent.readText_plain fun hmem => (h.plain hmem).1 rfl
  have hroute : (Utf8.encode "/dev-blobs/").isPrefixOf (Utf8.encode "/dev-blobs/" ++
      (Utf8.encode path ++ 0x3F ::
        Utf8.encode (signedQuery hmac store method path now expiresIn filename))) = true := by
    rw [List.isPrefixOf_iff_prefix]
    exact List.prefix_append _ _
  unfold routed
  simp only [hsent]
  rw [htarget, if_pos hroute, List.drop_left]
  have hsplit' : FormUrl.splitOnce 0x3F (Utf8.encode path ++ 0x3F ::
      Utf8.encode (signedQuery hmac store method path now expiresIn filename)) = some _ := hsplit
  rw [hsplit']
  show some (Percent.readText _, some (Utf8.fromUtf8Lossy _)) = _
  rw [hdecoded, Utf8.fromUtf8Lossy_encode]

end Issued

/-! ## Downloads -/

theorem IsUploadId.isSafe {id : UploadId} (h : IsUploadId id) : isSafe (blobRefFor id) = true := by
  obtain ⟨tail, rfl, htail⟩ := h
  have hplain : ∀ {c : Char}, c ∈ "upload_".toList ++ tail.toList →
      c ≠ '/' ∧ c ≠ Char.ofNat 0x5C ∧ c ≠ Char.ofNat 0 := by
    have hfixed : ∀ c ∈ "upload_".toList,
        c ≠ '/' ∧ c ≠ Char.ofNat 0x5C ∧ c ≠ Char.ofNat 0 :=
      List.all_iff_forall_prop.mp (by decide)
    intro c hc
    rcases List.mem_append.mp hc with hc | hc
    · exact hfixed c hc
    · have halnum := htail c hc
      refine ⟨?_, ?_, ?_⟩ <;> rintro rfl <;> exact absurd halnum (by decide)
  have hchars : (blobRefFor ("upload_" ++ tail)).toList =
      "blobs".toList ++ '/' :: ("upload_".toList ++ tail.toList) := by
    unfold blobRefFor
    rw [String.toList_append, String.toList_append]
    rfl
  have hsplit : (blobRefFor ("upload_" ++ tail)).toList.splitOn '/' =
      ["blobs".toList, "upload_".toList ++ tail.toList] := by
    rw [hchars, List.splitOn_append_cons_self,
      List.splitOn_eq_singleton fun hmem => (hplain hmem).1 rfl]
    rfl
  have hsegment : ("upload_".toList ++ tail.toList).contains (Char.ofNat 0x5C) = false ∧
      ("upload_".toList ++ tail.toList).contains (Char.ofNat 0) = false := by
    rw [← Bool.not_eq_true, ← Bool.not_eq_true, List.contains_iff_mem, List.contains_iff_mem]
    exact ⟨fun hmem => (hplain hmem).2.1 rfl, fun hmem => (hplain hmem).2.2 rfl⟩
  unfold LocalFs.isSafe
  rw [hsplit, hchars, List.all_cons, List.all_cons, List.all_nil, hsegment.1, hsegment.2]
  rfl

section Download

variable {hmac : List UInt8 → List UInt8 → List UInt8} {store : Store} {id : UploadId}
  {now t : Int} {expiresIn : Nat} {name : String} {files : Files} {bytes : List UInt8}

/-- The answer to the request of an issued URL. -/
theorem calm_download (hid : IsUploadId id) (ht : t ≤ expiry now expiresIn)
    (hfile : files (blobRefFor id) = some bytes) :
    calm (download hmac store t (blobRefFor id)
      (some (signedQuery hmac store "GET" (blobRefFor id) now expiresIn (some name)))) files =
      some (.ok ⟨200, bytes, some (contentDisposition name)⟩, files) := by
  have hsafe : safeJoin (blobRefFor id) = .ok (blobRefFor id) := if_pos hid.isSafe
  unfold calm download
  rw [checkSignature_issued, if_pos ht, hsafe]
  dsimp only
  rw [Prog.eval_bind, Locked.bind_run (Prog.eval_op (exec_read hfile))]
  rfl

end Download

end AnyStore.LocalFs

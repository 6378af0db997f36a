import AnyStore.Refinement.Transport

/-!
# Signed URLs of the local store

Which request a signature is good for, and for how long.

## Results

* `signature_binds`: a signature is good for one request exactly if no line of the
  file name that others follow is the text of an expiry.
* `signature_not_binding`: a download whose name begins with such a line.
* `signed_url_round_trip`: the URL of a signed request leads to its path, and its
  query is accepted with its file name until it expires, and never again.

## Assumptions

The requests are those that the store signs (`Signs`). That a signature is accepted
for no other request needs a MAC without collisions; that no other request has the
same message does not.
-/

namespace AnyStore.LocalFs

variable (hmac : List UInt8 → List UInt8 → List UInt8) (store : Store)

/-! ## One request for each signature -/

/-- What is signed here is signed for no other request, and accepted for none if
the authentication code has no collisions. No file name is an empty one. -/
def BindsOneRequest (method path : String) (expires : Int) (filename : Option String) : Prop :=
  (∀ method' path' expires' filename', method' = "GET" ∨ method' = "PUT" →
    -(2 ^ 63) ≤ expires' ∧ expires' < 2 ^ 63 →
    macMessage method' path' expires' filename' = macMessage method path expires filename →
    method' = method ∧ path' = path ∧ expires' = expires ∧ filename'.getD "" = filename.getD "") ∧
  ((∀ secret, Function.Injective (hmac secret)) →
    ∀ now method' path' query filename', method' = "GET" ∨ method' = "PUT" →
    param query "sig" = some (sign hmac store method path expires filename) →
    checkSignature hmac store now method' path' query = .ok filename' →
    method' = method ∧ path' = path ∧ filename'.getD "" = filename.getD "" ∧
      ((param query "exp").bind fun v => parseI64 (Utf8.encode v)) = some expires)

/-- A line of the name that others follow is the text of an expiry. -/
def NumberedLine (name : String) : Prop :=
  ∃ (before after : String) (e : Int), -(2 ^ 63) ≤ e ∧ e < 2 ^ 63 ∧
    name = before ++ toString e ++ "\n" ++ after ∧
    (before = "" ∨ ∃ lines, before = lines ++ "\n")

section Binding

variable {method path : String} {expires : Int} {filename : Option String}

/-- Another request with the same message has a longer path, and the name says
its expiry. -/
theorem macMessage_other (h : Signs method path filename) {method' path' : String}
    {expires' : Int} {filename' : Option String} (hmethod : method' = "GET" ∨ method' = "PUT")
    (hrange : -(2 ^ 63) ≤ expires' ∧ expires' < 2 ^ 63)
    (hsame : macMessage method' path' expires' filename' =
      macMessage method path expires filename) :
    (method' = method ∧ path' = path ∧ expires' = expires ∧
      filename'.getD "" = filename.getD "") ∨ NumberedLine (filename.getD "") := by
  obtain ⟨hfeed, hpathFeed⟩ := h.feed
  have hfeed' : '\n' ∉ method'.toList := by
    rcases hmethod with rfl | rfl <;> decide
  -- the method has no line feed, so the first fields are the same
  obtain ⟨hm, hrest⟩ := Framing.separated_inj' hfeed hfeed' (macMessage_eq_iff.mp hsame).symm
  have hm : method' = method := String.toList_injective hm
  -- where the other path is longer, the name begins with lines and then the other expiry
  have hname : ∀ lines after : List Char,
      (filename.getD "").toList = lines ++ (toString expires').toList ++ '\n' :: after →
      (lines = [] ∨ ∃ z, lines = z ++ ['\n']) → NumberedLine (filename.getD "") := by
    intro lines after hname hlines
    refine ⟨String.ofList lines, String.ofList after, expires', hrange.1, hrange.2, ?_, ?_⟩
    · apply String.toList_injective
      rw [hname]
      simp only [String.toList_append, String.toList_ofList]
      show _ = lines ++ (toString expires').toList ++ ['\n'] ++ after
      rw [List.append_assoc, List.append_assoc, List.append_assoc, List.singleton_append]
    · rcases hlines with rfl | ⟨z, rfl⟩
      · exact .inl rfl
      · refine .inr ⟨String.ofList z, ?_⟩
        apply String.toList_injective
        simp only [String.toList_append, String.toList_ofList]
        rfl
  rcases Framing.separated_inj hpathFeed hrest.symm with ⟨hp, hrest⟩ | ⟨z, hp, hrest⟩
  · obtain ⟨he, hf⟩ := Framing.separated_inj' (feed_toString expires) (feed_toString expires')
      hrest.symm
    -- the paths are the same, and so are the rest of the fields
    exact .inl ⟨hm, String.toList_injective hp, toString_inj he, String.toList_injective hf⟩
  · -- the path goes on behind a line feed: the next field is the expiry that was signed
    right
    rcases Framing.separated_inj (feed_toString expires) hrest with ⟨_, hf⟩ | ⟨z', _, hf⟩
    · refine hname [] (filename'.getD "").toList ?_ (.inl rfl)
      rw [List.nil_append]
      exact hf.symm
    · refine hname (z' ++ ['\n']) (filename'.getD "").toList ?_ (.inr ⟨z', rfl⟩)
      rw [hf, List.append_assoc, List.append_assoc]
      rfl

/-- Who reads the number in the name as the expiry reads the one that was signed
as a line of the path. -/
theorem NumberedLine.other (method path : String) (expires : Int)
    (hline : NumberedLine (filename.getD "")) :
    ∃ path' expires' filename', -(2 ^ 63) ≤ expires' ∧ expires' < 2 ^ 63 ∧ path' ≠ path ∧
      macMessage method path' expires' filename' = macMessage method path expires filename := by
  obtain ⟨before, after, e, hlow, hhigh, hname, hbefore⟩ := hline
  -- the other path is the path and more, so it is another one
  have hlonger : ∀ s : List Char, path ≠ String.ofList (path.toList ++ '\n' :: s) := by
    intro s h
    have hlength := congrArg (fun p => p.toList.length) h
    simp only [String.toList_ofList, List.length_append, List.length_cons] at hlength
    omega
  rcases hbefore with rfl | ⟨lines, rfl⟩
  · -- the number is the first line of the name: the path takes the expiry only
    refine ⟨String.ofList (path.toList ++ '\n' :: (toString expires).toList), e, some after, hlow,
      hhigh, (hlonger _).symm, ?_⟩
    rw [macMessage_eq_iff, hname]
    simp only [String.toList_append, String.toList_ofList, Option.getD_some, List.append_assoc,
      List.cons_append, String.toList_empty, List.nil_append]
    rfl
  · -- otherwise it takes the lines in front of the number, too
    refine ⟨String.ofList (path.toList ++ '\n' :: ((toString expires).toList ++
      '\n' :: lines.toList)), e, some after, hlow, hhigh, (hlonger _).symm, ?_⟩
    rw [macMessage_eq_iff, hname]
    simp only [String.toList_append, String.toList_ofList, Option.getD_some, List.append_assoc,
      List.cons_append]
    rfl

/-- A signature binds one request exactly if no line of the name can be taken for
an expiry. -/
theorem signature_binds (h : Signs method path filename) (expires : Int) :
    BindsOneRequest hmac store method path expires filename ↔
      ¬ NumberedLine (filename.getD "") := by
  constructor
  · -- the other request has the same message
    rintro ⟨hmessage, _⟩ hline
    have hmethod : method = "GET" ∨ method = "PUT" := by
      cases h with
      | blob _ => exact .inr rfl
      | part _ _ => exact .inr rfl
      | download _ _ => exact .inl rfl
    obtain ⟨path', expires', filename', hlow, hhigh, hpath, hsame⟩ :=
      hline.other method path expires
    exact hpath (hmessage method path' expires' filename' hmethod ⟨hlow, hhigh⟩ hsame).2.1
  · intro hline
    refine ⟨fun method' path' expires' filename' hmethod hrange hsame => ?_,
      fun hinjective now method' path' query filename' hmethod hsig hchecked => ?_⟩
    · exact (macMessage_other h hmethod hrange hsame).resolve_right hline
    · -- what is accepted has the same code, hence the same message
      unfold checkSignature at hchecked
      cases hexp : (param query "exp").bind fun v => parseI64 (Utf8.encode v) with
      | none =>
        rw [hexp] at hchecked
        cases hchecked
      | some expires' =>
        rw [hexp, hsig] at hchecked
        change (if expires' < now then _ else if verify hmac store method' path' expires'
          (param query "filename") _ then _ else _) = _ at hchecked
        split_ifs at hchecked with hlate haccepted
        obtain rfl := Except.ok.inj hchecked
        obtain ⟨v, _, hv⟩ := Option.bind_eq_some_iff.mp hexp
        have hcode := hexEncode_injective (verify_iff.mp haccepted)
        obtain ⟨hm, hp, he, hf⟩ := (macMessage_other h hmethod (parseI64_range hv)
          (hinjective store.secret hcode).symm).resolve_right hline
        exact ⟨hm, hp, hf, congrArg some he⟩

end Binding

def firstUpload : UploadId := "upload_1"

/-- It is an id that the service could have made. -/
theorem isUploadId_first : IsUploadId firstUpload :=
  ⟨"1", by decide, List.all_iff_forall_prop.mp (by decide)⟩

/-- A name of one line. -/
theorem signature_binds_plainName :
    BindsOneRequest (fun _ message => message) ⟨"", []⟩ "GET" (blobRefFor firstUpload) 100
        (some "a.pdf") ↔ ¬ NumberedLine "a.pdf" :=
  signature_binds _ _ (.download "a.pdf" isUploadId_first) 100

/-- The second line of the message of this download can be the path or a part of
it. -/
theorem signature_not_binding : validateName "200\nfoo" = .ok () ∧
    ¬ BindsOneRequest (fun _ message => message) ⟨"", []⟩ "GET" (blobRefFor firstUpload) 100
      (some "200\nfoo") := by
  refine ⟨by decide, fun h => ?_⟩
  have hsame : macMessage "GET" "blobs/upload_1\n100" 200 (some "foo") =
      macMessage "GET" (blobRefFor firstUpload) 100 (some "200\nfoo") := by decide
  have hpath := (h.1 "GET" "blobs/upload_1\n100" 200 (some "foo") (.inl rfl) (by decide) hsame).2.1
  exact absurd hpath (by decide)

/-! ## From the URL to the request -/

variable {method path : String} {filename : Option String}

/-- The URL of a signed request leads to its path, and its query is accepted with
its file name until it expires, and never again. -/
theorem signed_url_round_trip (h : Signs method path filename) (now : Int) (expiresIn : Nat) :
    ∃ query, routed (signedTarget hmac store method path now expiresIn filename) =
        some (path, query) ∧
      ∀ t, checkSignature hmac store t method path query =
        if t ≤ expiry now expiresIn then .ok filename
        else .error (deny 403 "signature expired") :=
  ⟨_, routed_issued h, checkSignature_issued⟩

/-- A name with characters that a URL escapes. -/
theorem signed_url_round_trip_spaced :
    ∃ query, routed (signedTarget (fun _ message => message) ⟨"", []⟩ "GET"
        (blobRefFor firstUpload) 50 50 (some "a b&c=d%25#?+é")) =
        some (blobRefFor firstUpload, query) ∧
      ∀ t, checkSignature (fun _ message => message) ⟨"", []⟩ t "GET" (blobRefFor firstUpload)
        query = if t ≤ expiry 50 50 then .ok (some "a b&c=d%25#?+é")
        else .error (deny 403 "signature expired") :=
  signed_url_round_trip _ _ (.download _ isUploadId_first) 50 50

end AnyStore.LocalFs

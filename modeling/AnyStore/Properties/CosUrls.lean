import AnyStore.Refinement.CosUrls

/-!
# Presigned COS URLs

The service expects the signature that a presigned URL carries, and the order of
parameters and headers does not matter to it.

## Results

* `presigned_url_verifies`: the signature that `expectedSignature` computes from
  the URL and the headers of the request is the one in the URL, and signing does
  not depend on the order of parameters and headers.

## Assumptions

The keys of the query are unreserved texts and differ in lower case. The MAC and
the digest are any functions; the rules of the service are those of
`Spec.CosScheme`.
-/

namespace AnyStore.Cos

variable (hmac : List UInt8 → List UInt8 → List UInt8) (sha1 : List UInt8 → List UInt8)
  (store : Store)

section Presigned

variable {query : List (String × String)}

/-- The parameters that the service picks are the signed ones. -/
theorem joinPairs_picked (hdistinct : (query.map fun p => p.1.toLower).Nodup)
    (rest : List (String × String)) :
    joinPairs (pick (canonicalize query).1
      ((query ++ ("q-sign-algorithm", "sha1") :: rest).take
        (names (canonicalize query).1).length)) = (canonicalize query).2 := by
  by_cases hempty : query = []
  · -- the empty list names the empty key, which the first field is not
    have hfirst : (urlEncode "q-sign-algorithm".toLower = "") = False := by decide +kernel
    rw [hempty]
    show joinPairs (pick (canonicalize []).1 _) = (canonicalize []).2
    have hlists : canonicalize [] = ("", "") := by decide +kernel
    have hnames : names "" = [""] := by decide
    rw [hlists, hnames]
    unfold joinPairs pick
    rw [hnames]
    simp [hfirst]
  · -- as many parameters are picked as are named in the signed list
    have hlength : (names (canonicalize query).1).length = query.length := by
      rw [names_canonicalize hempty, List.length_map, (encodePairs_perm query).length_eq,
        List.length_map]
    rw [hlength, List.take_left]
    exact joinPairs_pick hdistinct hempty

/-- Only `host` is picked from the headers. -/
theorem joinPairs_host (host : String) (headers : List (String × String)) :
    joinPairs (pick "host" (("host", host) :: headers)) = (canonicalize [("host", host)]).2 := by
  have hhost : urlEncode "host".toLower = "host" := by decide +kernel
  have hnames : names "host" = ["host"] := by decide
  have hsorted : encodePairs [("host", host)] = [encodePair ("host", host)] := by
    unfold encodePairs
    rw [List.map_cons, List.map_nil, List.mergeSort_singleton]
  -- other headers are not named
  have hpicked : pick "host" (("host", host) :: headers) = [("host", host)] := by
    unfold pick
    rw [hnames, List.filterMap_cons, List.find?_cons_of_pos (by simpa using hhost)]
    rfl
  rw [hpicked]
  unfold joinPairs canonicalize
  rw [hsorted]
  rfl

/-- The service expects the signature of a presigned URL, whatever other headers
are sent; lists and signature are the same for any order of the parameters and
headers. -/
theorem presigned_url_verifies (hkeys : ∀ p ∈ query, Unreserved p.1)
    (hdistinct : (query.map fun p => p.1.toLower).Nodup) :
    (∀ (now : Int) (method path : String) (expiresIn : Nat) (headers : List (String × String)),
      expectedSignature hmac sha1 store.secretKey store.host method
        (("host", store.host) :: headers)
        (presign hmac sha1 store now method path query expiresIn) =
        some (signRequest hmac sha1 store now method path query expiresIn).signature) ∧
    ∀ (input : SignatureInput) (query' headers' : List (String × String)),
      query'.Perm input.query → headers'.Perm input.headers →
      sign hmac sha1 store.secretKey { input with query := query', headers := headers' } =
        sign hmac sha1 store.secretKey input := by
  constructor
  · intro now method path expiresIn headers
    obtain ⟨signature, hsignature⟩ : ∃ signature, signature =
        signRequest hmac sha1 store now method path query expiresIn := ⟨_, rfl⟩
    -- the service reads the parameters, the fields of the signature and the token, in this
    -- order
    obtain ⟨rest, hread⟩ := @readUrl_presign hmac sha1 store now method path query expiresIn hkeys
    rw [← hsignature] at hread ⊢
    obtain ⟨last, hlast⟩ : ∃ last : List (String × String), last =
        [("q-sign-time", signature.keyTime), ("q-key-time", signature.keyTime),
          ("q-header-list", "host"), ("q-url-param-list", (canonicalize query).1),
          ("q-signature", signature.signature)] ++
          (store.sessionToken.map fun token => ("x-cos-security-token", token)).toList :=
      ⟨_, rfl⟩
    rw [← hlast] at hread
    -- the fields are found in the last part
    have htime : lastValue last "q-sign-time" = some signature.keyTime := by
      rw [hlast]
      cases store.sessionToken <;> rfl
    have hheaders : lastValue last "q-header-list" = some "host" := by
      rw [hlast]
      cases store.sessionToken <;> rfl
    have hparams : lastValue last "q-url-param-list" = some (canonicalize query).1 := by
      rw [hlast]
      cases store.sessionToken <;> rfl
    have hpicked := joinPairs_picked hdistinct (rest ++ last)
    rw [← List.cons_append, ← List.append_assoc] at hpicked
    unfold expectedSignature
    rw [hread]
    simp only [Option.bind_eq_bind, Option.bind_some, Option.pure_def]
    rw [lastValue_append htime, lastValue_append hheaders, lastValue_append hparams]
    simp only [Option.bind_some]
    rw [hpicked, joinPairs_host, hsignature]
    rfl
  · -- both lists are sorted before they are signed
    intro input query' headers' hquery hheaders
    unfold sign
    rw [canonicalize_perm hquery, canonicalize_perm hheaders]

end Presigned

/-- The query of a part upload, and a parameter without a value. -/
def partQuery : List (String × String) := [("uploadId", "a/b c"), ("partNumber", "1"), ("acl", "")]

/-- The URL of a part, with an id that has to be escaped. -/
theorem presigned_url_verifies_part :
    (∀ (now : Int) (method path : String) (expiresIn : Nat) (headers : List (String × String)),
      expectedSignature (fun _ message => message) id "key" "b.cos" method
        (("host", "b.cos") :: headers)
        (presign (fun _ message => message) id ⟨"b.cos", "id", "key", none⟩ now method path
          partQuery expiresIn) =
        some (signRequest (fun _ message => message) id ⟨"b.cos", "id", "key", none⟩ now method path
          partQuery expiresIn).signature) ∧
    ∀ (input : SignatureInput) (query' headers' : List (String × String)),
      query'.Perm input.query → headers'.Perm input.headers →
      sign (fun _ message => message) id "key"
          { input with query := query', headers := headers' } =
        sign (fun _ message => message) id "key" input :=
  presigned_url_verifies _ _ ⟨"b.cos", "id", "key", none⟩
    (by decide) (by decide +kernel)

end AnyStore.Cos

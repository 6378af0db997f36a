import AnyStore.Model.Payloads
import AnyStore.Spec.Metadata

/-!
# Stored responses

A response that is stored with an idempotency record and read back is the
response that was stored, through the procedures as well as through the driver.
The one thing that a `jsonb` column does not take is U+0000 in a header.

## Results

* `stored_responses_round_trip`: with no U+0000 in a header a response comes back
  as it was; with one, both ways of storing it refuse it.
* `stored_response_refused`: such a header.

## Assumptions

A status is a number of 16 bits.
-/

namespace AnyStore

open ReadCommitted (SqlError)

variable {response : StoredResponse}

/-- A response is sent to the database, stored, built again and read. -/
def throughRpc (response : StoredResponse) : Except SqlError (DomainResult StoredResponse) := do
  let sent ← (encodeResponse response).toJsonb
  let columns ← finalizeIdempotency sent
  return storedResponse columns.replay

/-- A record is finalised and read by the driver. A status has 16 bits, so that
the `i32` of its column changes nothing. -/
def throughColumns (record : IdempotencyRow) (response : StoredResponse) (now expiresAt : Time) :
    Except SqlError StoredResponse := do
  let headers ← (encodeHeaders response.headers).toJsonb
  return (record.completed response headers now expiresAt).response

/-- U+0000 stands in no header. -/
def StoredResponse.PlainHeaders (response : StoredResponse) : Prop :=
  ∀ header ∈ response.headers, '\x00' ∉ header.1.toList ∧ '\x00' ∉ header.2.toList

/-! ## Headers -/

/-- The header list has U+0000 exactly if one of its texts has. -/
theorem hasNul_headers (headers : List (String × String)) :
    (encodeHeaders headers).hasNul = false ↔
      ∀ header ∈ headers, '\x00' ∉ header.1.toList ∧ '\x00' ∉ header.2.toList := by
  unfold encodeHeaders
  rw [Json.hasNul]
  induction headers with
  | nil => simp [Items.hasNul]
  | cons header headers ih =>
    rw [List.foldr_cons, Items.hasNul, Bool.or_eq_false_iff, ih, List.forall_mem_cons]
    simp [Json.hasNul, Items.hasNul, ← Bool.not_eq_true]

/-- Headers are texts, and `jsonb` keeps texts. -/
theorem written_headers (headers : List (String × String)) :
    (encodeHeaders headers).written = encodeHeaders headers := by
  unfold encodeHeaders
  rw [Json.written]
  congr 1
  induction headers with
  | nil => rfl
  | cons header headers ih =>
    rw [List.foldr_cons, Items.written, ih]
    rfl

/-- The headers come back in their order. -/
theorem storedHeaders_encode (headers : List (String × String)) :
    ∃ xs, encodeHeaders headers = .arr xs ∧ storedHeaders xs = .ok headers := by
  refine ⟨_, rfl, ?_⟩
  induction headers with
  | nil => rfl
  | cons header headers ih =>
    rw [List.foldr_cons, storedHeaders, ih]
    rfl

/-! ## Bodies -/

/-- PostgreSQL breaks the text into lines, and the reader drops the breaks. -/
theorem base64Bytes_lines (body : List UInt8) :
    base64Bytes (String.ofList (Base64.lines 0 body)) = .ok body := by
  have hkeep : ∀ c ∈ '=' :: Base64.alphabet, (!isAsciiWhitespace c) = true :=
    List.all_eq_true.mp (by decide)
  unfold base64Bytes
  rw [String.toList_ofList, Base64.filter_lines (by decide) hkeep, Base64.decode_encode]

/-- A body in base64 has no U+0000. -/
theorem hasNul_body (body : List UInt8) :
    (Json.str (String.ofList (Base64.encode body))).hasNul = false := by
  have hplain : ∀ c ∈ '=' :: Base64.alphabet, c ≠ '\x00' :=
    List.all_iff_forall_prop.mp (by decide)
  rw [Json.hasNul, String.toList_ofList, ← Bool.not_eq_true, List.contains_iff_mem]
  intro hmem
  exact hplain _ (Base64.mem_encode body _ hmem) rfl

/-! ## Round trips -/

/-- So a response has U+0000 exactly if a header has. -/
theorem hasNul_encodeResponse :
    (encodeResponse response).hasNul = false ↔ response.PlainHeaders := by
  have hkeys : "status".toList.contains '\x00' = false ∧ "headers".toList.contains '\x00' = false ∧
      "body_b64".toList.contains '\x00' = false := by decide
  have hstatus : (Json.int response.status).hasNul = false := rfl
  unfold encodeResponse StoredResponse.PlainHeaders
  rw [← hasNul_headers, Json.hasNul, Members.hasNul, Members.hasNul, Members.hasNul, Members.hasNul,
    hkeys.1, hkeys.2.1, hkeys.2.2, hstatus, hasNul_body]
  simp only [Bool.false_or, Bool.or_false]

/-- A response has no number that `jsonb` would change. -/
theorem written_encodeResponse : (encodeResponse response).written = encodeResponse response := by
  unfold encodeResponse
  rw [Json.written, Members.written, Members.written, Members.written, Members.written, written_headers]
  rfl

/-- The procedure takes the response apart into its columns. -/
theorem finalizeIdempotency_encodeResponse (hstatus : response.status < 65536) :
    finalizeIdempotency (encodeResponse response) =
      .ok ⟨some response.status, some (encodeHeaders response.headers), some response.body⟩ := by
  -- the status is in the range of its column
  have hint : intField (encodeResponse response) "status" = .ok (some response.status) := by
    have hget : (encodeResponse response).get? "status" = some (.int response.status) := rfl
    rw [intField, hget]
    exact if_pos (by omega)
  -- the body is decoded from base64
  have hbytes : bytesField (encodeResponse response) "body_b64" = .ok (some response.body) := by
    have hget : (encodeResponse response).get? "body_b64" =
        some (.str (String.ofList (Base64.encode response.body))) := rfl
    unfold bytesField
    rw [hget]
    dsimp only
    rw [String.toList_ofList, Base64.loose_encode]
  unfold finalizeIdempotency
  rw [hint, hbytes]
  rfl

/-- A payload is read field by field. -/
theorem storedResponse_ok {value : Json} {status : Nat} {pairs : Items}
    {headers : List (String × String)} {raw : String} {body : List UInt8}
    (hinteger : integer value "status" = .ok status) (hstatus : status < 65536)
    (harray : array value "headers" = .ok pairs) (hheaders : storedHeaders pairs = .ok headers)
    (htext : text value "body_b64" = .ok raw) (hbody : base64Bytes raw = .ok body) :
    storedResponse value = .ok { status, headers, body } := by
  unfold storedResponse
  simp only [hinteger, harray, hheaders, htext, hbody, if_pos hstatus, bind, Except.bind, pure,
    Except.pure]

/-- The status is read as a number. -/
theorem integer_status {n : Nat} {m : Members} (h : n < 65536) :
    integer (.obj (.cons "status" (.int n) m)) "status" = .ok n := by
  have hget : (Json.obj (.cons "status" (.int n) m)).get? "status" = some (.int n) := rfl
  have hinteger : (Json.int n).asInteger = some n := by
    rw [Json.asInteger, if_pos (by omega), Int.toNat_natCast]
  rw [integer, hget, Option.bind_some, hinteger]

/-- A record that holds a response is replayed as the payload it is read from. -/
theorem storedResponse_replay (hstatus : response.status < 65536) :
    storedResponse (ResponseColumns.replay ⟨some response.status,
      some (encodeHeaders response.headers), some response.body⟩) = .ok response := by
  obtain ⟨xs, hxs, hread⟩ := storedHeaders_encode response.headers
  unfold ResponseColumns.replay
  rw [hxs]
  exact storedResponse_ok (integer_status hstatus) hstatus rfl hread rfl
    (base64Bytes_lines response.body)

/-- What follows a success. -/
theorem except_bind_ok {ε α β : Type} {x : Except ε α} {a : α} (h : x = .ok a) (f : α → Except ε β) :
    x >>= f = f a := by
  rw [h]
  rfl

/-- What follows an error. -/
theorem except_bind_error {ε α β : Type} {x : Except ε α} {e : ε} (h : x = .error e) (f : α → Except ε β) :
    x >>= f = .error e := by
  rw [h]
  rfl

/-- U+0000 is refused. -/
theorem toJsonb_of_hasNul {x : Json} (h : x.hasNul = true) : x.toJsonb = .error .other := by
  rw [Json.toJsonb, if_pos h]

/-- **Procedures.** The response comes back, -/
theorem throughRpc_plain (hstatus : response.status < 65536) (h : response.PlainHeaders) :
    throughRpc response = .ok (.ok response) := by
  have hsent : (encodeResponse response).toJsonb = .ok (encodeResponse response) := by
    rw [Json.toJsonb, hasNul_encodeResponse.mpr h, if_neg Bool.false_ne_true, written_encodeResponse]
  unfold throughRpc
  rw [except_bind_ok hsent, except_bind_ok (finalizeIdempotency_encodeResponse hstatus),
    storedResponse_replay hstatus]
  rfl

/-- or is refused when it is sent. -/
theorem throughRpc_refused (h : ¬ response.PlainHeaders) : throughRpc response = .error .other := by
  have hnul : (encodeResponse response).hasNul = true := by
    rw [← Bool.not_eq_false, hasNul_encodeResponse]
    exact h
  exact except_bind_error (toJsonb_of_hasNul hnul) _

/-- **Driver.** The response comes back, -/
theorem throughColumns_plain (record : IdempotencyRow) (now expiresAt : Time)
    (h : response.PlainHeaders) : throughColumns record response now expiresAt = .ok response := by
  have hsent : (encodeHeaders response.headers).toJsonb = .ok (encodeHeaders response.headers) := by
    rw [Json.toJsonb, (hasNul_headers response.headers).mpr h, if_neg Bool.false_ne_true,
      written_headers]
  unfold throughColumns
  rw [except_bind_ok hsent, IdempotencyRow.response_completed]
  rfl

/-- or its headers are refused. -/
theorem throughColumns_refused (record : IdempotencyRow) (now expiresAt : Time)
    (h : ¬ response.PlainHeaders) :
    throughColumns record response now expiresAt = .error .other := by
  have hnul : (encodeHeaders response.headers).hasNul = true := by
    rw [← Bool.not_eq_false, hasNul_headers]
    exact h
  exact except_bind_error (toJsonb_of_hasNul hnul) _

/-- Whatever the status, the body and the headers, with no U+0000 in a header a
response comes back as it was, and with one neither way of storing it goes through. -/
theorem stored_responses_round_trip (response : StoredResponse) (hstatus : response.status < 65536) :
    (response.PlainHeaders → throughRpc response = .ok (.ok response) ∧
      ∀ record now expiresAt, throughColumns record response now expiresAt = .ok response) ∧
    (¬ response.PlainHeaders → throughRpc response = .error .other ∧
      ∀ record now expiresAt, throughColumns record response now expiresAt = .error .other) := by
  constructor
  · intro h
    exact ⟨throughRpc_plain hstatus h,
      fun record now expiresAt => throughColumns_plain record now expiresAt h⟩
  · intro h
    exact ⟨throughRpc_refused h,
      fun record now expiresAt => throughColumns_refused record now expiresAt h⟩

/-- Two headers of one name, and a body of fifty-eight bytes, so of two lines. -/
theorem stored_responses_round_trip_twoLines :
    throughRpc ⟨201, [("etag", "\"1\""), ("etag", "\"2\"")], List.replicate 58 255⟩ =
      .ok (.ok ⟨201, [("etag", "\"1\""), ("etag", "\"2\"")], List.replicate 58 255⟩) :=
  ((stored_responses_round_trip ⟨201, [("etag", "\"1\""), ("etag", "\"2\"")],
    List.replicate 58 255⟩ (by decide)).1 (by unfold StoredResponse.PlainHeaders; decide)).1

/-- A header whose value is U+0000 is refused by the column. -/
theorem stored_response_refused :
    throughRpc ⟨200, [("etag", "\x00")], []⟩ = .error .other ∧
      ∀ record now expiresAt,
        throughColumns record ⟨200, [("etag", "\x00")], []⟩ now expiresAt = .error .other :=
  ⟨except_bind_error (toJsonb_of_hasNul (by decide)) _,
    fun _ _ _ => except_bind_error (toJsonb_of_hasNul (by decide)) _⟩

end AnyStore

import AnyStore.Lib.Disposition
import AnyStore.Refinement.CosUrls
import AnyStore.Refinement.Transport

/-!
# Names of downloads

Which object names a client gets back from the header of a download.

## Results

* `download_names_survive`: both stores deliver a name exactly if it has none of
  the ten letters that the local store leaves alone although the grammar of the
  header does not allow them there.
* `download_name_lost`: a name with a semicolon.

## Assumptions

Downloads are made by URLs that the store has issued and that have not expired,
and the object is there. The MAC and the digest are any functions.
-/

namespace AnyStore

open Disposition

variable (hmac : List UInt8 → List UInt8 → List UInt8) (sha1 : List UInt8 → List UInt8)

/-! ## The local transport -/

/-- Every download from the local store, by a URL that was issued for the name,
has a header that delivers the name. -/
def LocalFs.DeliversName (store : LocalFs.Store) (name : String) : Prop :=
  ∀ id now expiresIn t files bytes, LocalFs.IsUploadId id → t ≤ LocalFs.expiry now expiresIn →
    files (blobRefFor id) = some bytes →
    ∃ path query response header,
      LocalFs.routed (LocalFs.signedTarget hmac store "GET" (blobRefFor id) now expiresIn
        (some name)) = some (path, query) ∧
      LocalFs.calm (LocalFs.download hmac store t path query) files = some (.ok response, files) ∧
      response.contentDisposition = some header ∧ Delivers (Utf8.encode header) name

/-- The letters that the local store leaves alone, against the grammar. -/
def misplaced : List Char := ['\'', '(', ')', '*', ',', ':', ';', '@', '[', ']']

/-- The local store escapes what would end the value: the blank, the percent sign and the
control characters. -/
theorem component_separates : Separates LocalFs.component :=
  ⟨by decide, by decide, by decide, by decide⟩

/-- The header of the local store is an attachment with an extended file name. -/
theorem encode_contentDisposition (name : String) :
    Utf8.encode (LocalFs.contentDisposition name) = attachment LocalFs.component name := by
  have hfixed : Utf8.encode "attachment; filename*=UTF-8''" =
      [0x61, 0x74, 0x74, 0x61, 0x63, 0x68, 0x6D, 0x65, 0x6E, 0x74, 0x3B, 0x20] ++ filename ++
        [0x2A] ++ 0x3D :: (utf8Charset ++ [0x27, 0x27]) := by decide
  unfold LocalFs.contentDisposition LocalFs.encodeComponent attachment
  rw [Utf8.encode_append, Percent.encode_write, hfixed]
  simp only [List.append_assoc, List.cons_append, List.nil_append]

/-- Bytes that the local store leaves alone although they may not stand in an
extended value. -/
theorem component_misplaced (name : String) :
    (∀ b ∈ Utf8.encode name, Percent.escapes LocalFs.component b = false → isAttrChar b = true) ↔
      ∀ c ∈ misplaced, c ∉ name.toList := by
  -- the tables of the two sides differ in these bytes only
  have hbytes : ∀ i : Fin 256, Percent.escapes LocalFs.component (UInt8.ofNat i) = false →
      isAttrChar (UInt8.ofNat i) = true ∨
        UInt8.ofNat i ∈ misplaced.map fun c => UInt8.ofNat c.toNat := by decide +kernel
  -- all of them are ASCII, so that a byte stands for a letter
  have hletters : ∀ c ∈ misplaced, c.toNat < 128 ∧
      Percent.escapes LocalFs.component (UInt8.ofNat c.toNat) = false ∧
      isAttrChar (UInt8.ofNat c.toNat) = false :=
    List.all_iff_forall_prop.mp (by decide)
  constructor
  · intro h c hc hmem
    obtain ⟨hascii, hplain, hattr⟩ := hletters c hc
    rw [h _ ((Utf8.mem_encode_ascii hascii).mpr hmem) hplain] at hattr
    cases hattr
  · intro h b hb hplain
    have hcases := hbytes ⟨b.toNat, b.toNat_lt⟩
    rw [UInt8.ofNat_toNat] at hcases
    rcases hcases hplain with hattr | hmem
    · exact hattr
    · obtain ⟨c, hc, rfl⟩ := List.mem_map.mp hmem
      exact absurd ((Utf8.mem_encode_ascii (hletters c hc).1).mp hb) (h c hc)

/-! ## The override of the COS store -/

/-- Every signed download URL overrides the header with one that delivers the
name. -/
def Cos.DeliversName (store : Cos.Store) (name : String) : Prop :=
  ∀ now blobRef expiresIn, ∃ path pairs header,
    Cos.readUrl store.host (Cos.signDownload hmac sha1 store now blobRef name expiresIn) =
      some (path, pairs) ∧
    pairs.find? (fun p => p.1 = "response-content-disposition") =
      some ("response-content-disposition", header) ∧
    Delivers (Utf8.encode header) name

/-- The override is an attachment, too, with another table. -/
theorem encode_disposition (name : String) :
    Utf8.encode (Cos.disposition name) = attachment Cos.reserved name := by
  have hfixed : Utf8.encode "attachment; filename*=UTF-8''" =
      [0x61, 0x74, 0x74, 0x61, 0x63, 0x68, 0x6D, 0x65, 0x6E, 0x74, 0x3B, 0x20] ++ filename ++
        [0x2A] ++ 0x3D :: (utf8Charset ++ [0x27, 0x27]) := by decide
  unfold Cos.disposition Cos.urlEncode attachment
  rw [Utf8.encode_append, Percent.encode_write, hfixed]
  simp only [List.append_assoc, List.cons_append, List.nil_append]

/-- What the COS store leaves alone may stand anywhere. -/
theorem reserved_attrChars (b : UInt8) (hplain : Percent.escapes Cos.reserved b = false) :
    isAttrChar b = true := by
  -- by comparison of the two tables, byte by byte
  have hbytes : ∀ i : Fin 256, Percent.escapes Cos.reserved (UInt8.ofNat i) = false →
      isAttrChar (UInt8.ofNat i) = true := by decide +kernel
  have hb := hbytes ⟨b.toNat, b.toNat_lt⟩
  rw [UInt8.ofNat_toNat] at hb
  exact hb hplain

/-- The COS store delivers every name. -/
theorem Cos.deliversName (store : Cos.Store) (name : String) :
    Cos.DeliversName hmac sha1 store name := by
  intro now blobRef expiresIn
  have hkey : Cos.Unreserved "response-content-disposition" := by
    decide
  have hkeys : ∀ p ∈ [("response-content-disposition", Cos.disposition name)],
      Cos.Unreserved p.1 := by
    intro p hp
    rw [List.mem_singleton.mp hp]
    exact hkey
  -- the service reads the parameters from the URL as they were signed
  obtain ⟨rest, hread⟩ := @Cos.readUrl_presign hmac sha1 store now "GET" (Cos.objectPath blobRef)
    [("response-content-disposition", Cos.disposition name)] expiresIn hkeys
  refine ⟨_, _, Cos.disposition name, hread, ?_, ?_⟩
  · rw [List.cons_append, List.cons_append]
    refine List.find?_cons_of_pos ?_
    exact decide_eq_true rfl
  · rw [encode_disposition]
    exact delivers_of_attrChars fun b _ hplain => reserved_attrChars b hplain

/-! ## Both -/

/-- Any download shows the header. -/
theorem LocalFs.DeliversName.header {store : LocalFs.Store} {name : String}
    (h : LocalFs.DeliversName hmac store name) :
    Delivers (Utf8.encode (LocalFs.contentDisposition name)) name := by
  have hid : LocalFs.IsUploadId "upload_1" :=
    ⟨"1", by decide, List.all_iff_forall_prop.mp (by decide)⟩
  -- a download of an empty file, at a time that is not too late
  obtain ⟨path, query, response, header, hrouted, hanswer, hheader, hdelivers⟩ :=
    h "upload_1" 0 0 0 (fun _ => some []) [] hid (by decide) rfl
  rw [LocalFs.routed_issued (.download name hid)] at hrouted
  obtain ⟨rfl, rfl⟩ := Prod.mk.inj (Option.some.inj hrouted)
  rw [LocalFs.calm_download hid (by decide) rfl] at hanswer
  have hresponse := Except.ok.inj (Prod.mk.inj (Option.some.inj hanswer)).1
  rw [← hresponse] at hheader
  rwa [Option.some.inj hheader]

/-- A name comes back exactly if it has none of the misplaced letters. -/
theorem delivers_contentDisposition (name : String) :
    Delivers (Utf8.encode (LocalFs.contentDisposition name)) name ↔
      ∀ c ∈ misplaced, c ∉ name.toList := by
  rw [← component_misplaced, ← delivers_iff component_separates, encode_contentDisposition]

/-- Both stores deliver a name exactly if it has none of the letters that the
local store should have escaped. -/
theorem download_names_survive (store : LocalFs.Store) (cos : Cos.Store) (name : String) :
    (LocalFs.DeliversName hmac store name ∧ Cos.DeliversName hmac sha1 cos name) ↔
      ∀ c ∈ misplaced, c ∉ name.toList := by
  rw [← delivers_contentDisposition]
  constructor
  · rintro ⟨hlocal, _⟩
    exact hlocal.header
  · intro hdelivers
    constructor
    · -- the URL is routed to the download, which answers with the header
      intro id now expiresIn t files bytes hid ht hfile
      exact ⟨_, _, _, _, LocalFs.routed_issued (.download name hid),
        LocalFs.calm_download hid ht hfile, rfl, hdelivers⟩
    · exact Cos.deliversName hmac sha1 cos name

/-- A semicolon ends the parameter. -/
theorem download_name_lost : validateName "a;b" = .ok () ∧
    ¬ (LocalFs.DeliversName (fun _ message => message) ⟨"", []⟩ "a;b" ∧
      Cos.DeliversName (fun _ message => message) id ⟨"b.cos", "id", "key", none⟩ "a;b") := by
  refine ⟨by decide, ?_⟩
  rintro ⟨hlocal, _⟩
  exact (delivers_contentDisposition "a;b").mp hlocal.header ';' (by decide) (by decide)

end AnyStore

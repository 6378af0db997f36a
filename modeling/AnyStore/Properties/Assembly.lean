import AnyStore.Refinement.Assembly

/-!
# Completing uploads

What calls that failed or named the wrong parts leave to later calls, and what
the content of a blob depends on.

## Results

* `completion_retried` — on the local store, a call that names all parts makes the blob of
  them, if no earlier call has left a file that is not whole.
* `completion_atomic` — when a failed completion leaves everything as it was.
* `assembled_in_order` — the stores agree on the blob if and only if the parts commute.

## Assumptions

The paths of the blob and of its parts stay below the root (`Prepared`), as those of
every upload do. Every operation on a file may fail in any way (`Io`).
-/

namespace AnyStore

variable (sha256 : List UInt8 → String)

/-! ## Retries on the local store -/

namespace LocalFs

/-- The completion of a multipart upload. -/
def completion (blobRef : String) (providerUploadId : Option String) (parts : List CompletedPart) :
    CompleteBlobUpload where
  blobRef := blobRef
  mode := .multipart
  providerUploadId := providerUploadId
  parts := parts

/-- After any completions of the upload, one that names all its parts succeeds,
and the blob is these parts in ascending order. -/
def Retryable (blobRef : String) (u : Uploaded)
    (permits : List Nat → ∀ {β : Type}, FsOp β → Io → Prop) : Prop :=
  ∀ providerUploadId files₀ files, files₀ blobRef = none →
    (∀ n, files₀ (part blobRef n) = u.file n) →
    Prog.Calls machine 0
      (fun parts => ensureUploadCompleted sha256 (completion blobRef providerUploadId parts))
      (fun parts => permits (parts.map (·.partNumber))) files₀ files →
    ∀ parts : List CompletedPart, (parts.map (·.partNumber)).Perm u.numbers →
      ∃ files', calm (ensureUploadCompleted sha256 (completion blobRef providerUploadId parts)) files =
        some (.ok (statOf sha256 u.bytes), files') ∧ files' blobRef = some u.bytes

/-- A call that names all parts makes the blob of them, and the upload is sound again. -/
theorem Uploaded.Sound.complete {u : Uploaded} {files : Files} {req : CompleteBlobUpload}
    (h : u.Sound req.blobRef files) (hprepared : Prepared req.blobRef)
    (hmode : req.mode = .multipart) (hall : req.numbers.Perm u.numbers) :
    ∃ files', calm (ensureUploadCompleted sha256 req) files =
      some (.ok (statOf sha256 u.bytes), files') ∧ files' req.blobRef = some u.bytes := by
  rcases h.blob with hblob | ⟨hmissing, hparts⟩
  · exact ⟨files, calm_ensure_present hprepared hblob, hblob⟩
  · have hbytes : joined u.content req.numbers = u.bytes := joined_perm hall
    have hfiles : ∀ n ∈ req.numbers, files (part req.blobRef n) = some (u.content n) := by
      intro n hn
      rw [hparts n]
      exact if_pos (hall.mem_iff.mp hn)
    rw [← hbytes]
    exact calm_ensure_assembles hprepared hmissing hmode hfiles

/-- Calls whose writes of the blob are whole can be retried. -/
theorem completion_retried (blobRef : String) (u : Uploaded) (hprepared : Prepared blobRef) :
    Retryable sha256 blobRef u u.Whole := by
  intro providerUploadId files₀ files hmissing hparts hcalls parts hall
  have hinit : u.Sound blobRef files₀ := ⟨fun n => .inl (hparts n), .inr ⟨hmissing, hparts⟩⟩
  have hsound : u.Sound blobRef files := by
    refine hcalls.invariant hinit fun parts => ?_
    have hreq : Prepared (completion blobRef providerUploadId parts).blobRef := hprepared
    exact preserves_ensure hreq
  exact Uploaded.Sound.complete sha256 hsound hprepared rfl hall

/-- Three parts, of one letter each. -/
def threeParts : Uploaded := ⟨[1, 2, 3], fun n => [0x40 + n.toUInt8]⟩

/-- The disk is full at the first call. The second one names the parts in another order. -/
theorem completion_retried_threeParts : ∃ files₁ files₂,
    Prog.Ends machine 0 (threeParts.Whole [1, 2, 3])
      (ensureUploadCompleted (fun _ => "")
        (completion "blobs/u1" none [⟨1, ""⟩, ⟨2, ""⟩, ⟨3, ""⟩]))
      (threeParts.files "blobs/u1")
      (.error (.storageError "assemble blob failed: No space left on device (os error 28)"))
      files₁ ∧
    calm (ensureUploadCompleted (fun _ => "")
      (completion "blobs/u1" none [⟨3, ""⟩, ⟨1, ""⟩, ⟨2, ""⟩])) files₁ =
        some (.ok { size := 3, sha256 := some "" }, files₂) ∧
    files₂ "blobs/u1" = some [0x41, 0x42, 0x43] := by
  have hprepared : Prepared "blobs/u1" := ⟨by decide, by decide +kernel⟩
  have hrefused := Uploaded.ends_refused (fun _ => "") threeParts
    (completion "blobs/u1" none [⟨1, ""⟩, ⟨2, ""⟩, ⟨3, ""⟩]) hprepared rfl (.refl _)
    "No space left on device (os error 28)"
  obtain ⟨files₂, hlater, hblob⟩ := completion_retried (fun _ => "") "blobs/u1" threeParts hprepared
    none _ _ (threeParts.files_blob _) (threeParts.files_part _) (.call _ .init hrefused)
    [⟨3, ""⟩, ⟨1, ""⟩, ⟨2, ""⟩] (by decide)
  -- the letters in the order of the numbers
  have hbytes : threeParts.bytes = [0x41, 0x42, 0x43] := by
    unfold Uploaded.bytes joined
    rw [List.mergeSort_of_pairwise (by decide)]
    rfl
  rw [hbytes] at hlater hblob
  exact ⟨_, files₂, hrefused, hlater, hblob⟩

/-- One part. -/
def onePart : Uploaded := ⟨[1], fun _ => [0x41]⟩

/-- A call that names no part leaves an empty blob, which later calls keep. -/
theorem completion_not_retried :
    ¬ Retryable (fun _ => "") "blobs/u1" onePart fun _ _ _ _ => True := by
  intro h
  have hprepared : Prepared "blobs/u1" := ⟨by decide, by decide +kernel⟩
  -- the first call names nothing
  have hmissing : onePart.files "blobs/u1" "blobs/u1" = none := onePart.files_blob _
  obtain ⟨files₁, hfirst, hblob⟩ : ∃ files',
      calm (ensureUploadCompleted (fun _ => "") (completion "blobs/u1" none []))
        (onePart.files "blobs/u1") =
          some (.ok (statOf (fun _ => "") (joined onePart.content [])), files') ∧
        files' "blobs/u1" = some (joined onePart.content []) :=
    calm_ensure_assembles hprepared hmissing rfl (by intro n hn; cases hn)
  have hends : Prog.Ends machine 0 (fun _ _ => True)
      (ensureUploadCompleted (fun _ => "") (completion "blobs/u1" none []))
      (onePart.files "blobs/u1") _ files₁ := Prog.ends_of_eval (fun _ => trivial) hfirst
  have hcalls : Prog.Calls machine 0
      (fun parts => ensureUploadCompleted (fun _ => "") (completion "blobs/u1" none parts))
      (fun _ _ _ _ => True) (onePart.files "blobs/u1") files₁ := .call [] .init hends
  obtain ⟨files₂, hlater, _⟩ := h none _ files₁ hmissing (onePart.files_part _) hcalls [⟨1, ""⟩]
    (List.Perm.refl _)
  rw [calm_ensure_present hprepared hblob] at hlater
  have hstat := Except.ok.inj (Prod.mk.inj (Option.some.inj hlater)).1
  have hsize : (joined onePart.content []).length = onePart.bytes.length :=
    congrArg BlobStat.size hstat
  simp [joined, Uploaded.bytes, onePart] at hsize

end LocalFs

/-! ## Failed completions -/

namespace MemoryBlobs

/-- The request names parts that are there. -/
def NamesExisting (s : State) (req : CompleteBlobUpload) : Prop :=
  ∃ parts, s.parts req.blobRef = some parts ∧ ∀ n ∈ req.numbers, (parts n).isSome

/-- A failed completion changes nothing, and a later one can still succeed. -/
def Atomic (s : State) (req : CompleteBlobUpload) : Prop :=
  ∀ e s', ensureUploadCompleted sha256 req s = some (.error e, s') → s' = s ∧
    ∀ later : CompleteBlobUpload, later.blobRef = req.blobRef → later.mode = .multipart →
      NamesExisting s later →
      ∃ stat s'', ensureUploadCompleted sha256 later s' = some (.ok stat, s'')

/-- Parts are taken out for an assembly that misses one of them. -/
def LosesParts (s : State) (req : CompleteBlobUpload) : Prop :=
  req.mode = .multipart ∧ s.blobs req.blobRef = none ∧
    ∃ parts, s.parts req.blobRef = some parts ∧ ∃ n ∈ req.numbers, parts n = none

theorem complete_existing {s : State} {req : CompleteBlobUpload} (hmode : req.mode = .multipart)
    (h : NamesExisting s req) :
    ∃ stat s', ensureUploadCompleted sha256 req s = some (.ok stat, s') := by
  obtain ⟨parts, hparts, hnamed⟩ := h
  cases hblob : s.blobs req.blobRef with
  | some bytes => exact ⟨_, _, ensure_present hblob⟩
  | none =>
    have hcontent : ∀ n ∈ req.numbers, parts n = some ((parts n).getD []) := by
      intro n hn
      obtain ⟨bytes, hbytes⟩ := Option.isSome_iff_exists.mp (hnamed n hn)
      rw [hbytes, Option.getD_some]
    obtain ⟨s', hs', _⟩ := ensure_assembles hblob hmode hparts hcontent
    exact ⟨_, s', hs'⟩

end MemoryBlobs

namespace LocalFs

/-- As for the store in memory. -/
def Atomic (files : Files) (req : CompleteBlobUpload) : Prop :=
  Prepared req.blobRef → ∀ e files',
    calm (ensureUploadCompleted sha256 req) files = some (.error e, files') → files' = files ∧
    ∀ later : CompleteBlobUpload, later.blobRef = req.blobRef → later.mode = .multipart →
      (∀ n ∈ later.numbers, (files (part req.blobRef n)).isSome) →
      ∃ stat files'', calm (ensureUploadCompleted sha256 later) files' = some (.ok stat, files'')

theorem complete_existing {files : Files} {req : CompleteBlobUpload}
    (hprepared : Prepared req.blobRef) (hmode : req.mode = .multipart)
    (hnamed : ∀ n ∈ req.numbers, (files (part req.blobRef n)).isSome) :
    ∃ stat files', calm (ensureUploadCompleted sha256 req) files = some (.ok stat, files') := by
  cases hblob : files req.blobRef with
  | some bytes => exact ⟨_, _, calm_ensure_present hprepared hblob⟩
  | none =>
    have hcontent : ∀ n ∈ req.numbers,
        files (part req.blobRef n) = some ((files (part req.blobRef n)).getD []) := by
      intro n hn
      obtain ⟨bytes, hbytes⟩ := Option.isSome_iff_exists.mp (hnamed n hn)
      rw [hbytes, Option.getD_some]
    obtain ⟨files', hfiles', _⟩ := calm_ensure_assembles hprepared hblob hmode hcontent
    exact ⟨_, files', hfiles'⟩

/-- On the local store every failed completion leaves the files as they were. -/
theorem atomic (files : Files) (req : CompleteBlobUpload) : Atomic sha256 files req := by
  intro hprepared e files' hfailed
  have hsame : files' = files := by
    -- by how the call ends: the blob is there, a part is missing, or all are there
    cases hblob : files req.blobRef with
    | some bytes =>
      rw [calm_ensure_present hprepared hblob] at hfailed
      cases hfailed
    | none =>
      by_cases hmode : req.mode = .multipart
      · by_cases hmissing : ∃ n ∈ req.numbers, files (part req.blobRef n) = none
        · obtain ⟨e', he'⟩ := calm_ensure_missing hprepared hblob hmode hmissing
          exact (Prod.mk.inj (Option.some.inj (hfailed.symm.trans he'))).2
        · have hnamed : ∀ n ∈ req.numbers, (files (part req.blobRef n)).isSome := by
            intro n hn
            rw [Option.isSome_iff_ne_none]
            exact fun hnone => hmissing ⟨n, hn, hnone⟩
          obtain ⟨stat, files'', hok⟩ := complete_existing sha256 hprepared hmode hnamed
          rw [hok] at hfailed
          cases hfailed
      · rw [calm_ensure_single hprepared hblob hmode] at hfailed
        exact (Prod.mk.inj (Option.some.inj hfailed)).2.symm
  refine ⟨hsame, fun later href hmode hnamed => ?_⟩
  rw [hsame]
  rw [← href] at hprepared hnamed
  exact complete_existing sha256 hprepared hmode hnamed

end LocalFs

/-- A completion is atomic in both stores, unless the one in memory takes out
parts for an assembly that misses one of them. -/
theorem completion_atomic (s : MemoryBlobs.State) (files : LocalFs.Files)
    (req : CompleteBlobUpload) :
    (MemoryBlobs.Atomic sha256 s req ∧ LocalFs.Atomic sha256 files req) ↔
      ¬ MemoryBlobs.LosesParts s req := by
  constructor
  · rintro ⟨hatomic, _⟩ ⟨hmode, hblob, parts, hparts, hmissing⟩
    -- with a part missing the in-memory store drops the parts
    have hsame : s.dropParts req.blobRef = s :=
      (hatomic _ _ (MemoryBlobs.ensure_missing hblob hmode hparts hmissing)).1
    have hdropped : (s.dropParts req.blobRef).parts req.blobRef = none := Function.update_self ..
    rw [hsame, hparts] at hdropped
    cases hdropped
  · intro hkeeps
    refine ⟨fun e s' hfailed => ?_, LocalFs.atomic sha256 files req⟩
    have hsame : s' = s := by
      -- any other failure comes before the parts are touched
      cases hblob : s.blobs req.blobRef with
      | some bytes =>
        rw [MemoryBlobs.ensure_present hblob] at hfailed
        cases hfailed
      | none =>
        by_cases hmode : req.mode = .multipart
        · cases hparts : s.parts req.blobRef with
          | none =>
            rw [MemoryBlobs.ensure_no_parts hblob hmode hparts] at hfailed
            exact (Prod.mk.inj (Option.some.inj hfailed)).2.symm
          | some parts =>
            have hnamed : MemoryBlobs.NamesExisting s req := by
              refine ⟨parts, hparts, fun n hn => ?_⟩
              rw [Option.isSome_iff_ne_none]
              exact fun hnone => hkeeps ⟨hmode, hblob, parts, hparts, n, hn, hnone⟩
            obtain ⟨stat, s'', hok⟩ := MemoryBlobs.complete_existing sha256 hmode hnamed
            rw [hok] at hfailed
            cases hfailed
        · rw [MemoryBlobs.ensure_single hblob hmode] at hfailed
          exact (Prod.mk.inj (Option.some.inj hfailed)).2.symm
    refine ⟨hsame, fun later href hmode hnamed => ?_⟩
    rw [hsame]
    exact MemoryBlobs.complete_existing sha256 hmode hnamed

/-- Part 1 is uploaded. -/
def partOne : MemoryBlobs.State := ({} : MemoryBlobs.State).putPart "blobs/u1" 1 [0x41]

/-- The client names part 2. -/
theorem completion_not_atomic :
    ¬ MemoryBlobs.Atomic (fun _ => "") partOne (LocalFs.completion "blobs/u1" none [⟨2, ""⟩]) := by
  intro h
  have hparts : partOne.parts "blobs/u1" = some fun n => if n = 1 then some [0x41] else none := by
    have hput : partOne.parts "blobs/u1" =
        some (Function.update (fun _ : Nat => (none : Option (List UInt8))) 1 (some [0x41])) :=
      Function.update_self "blobs/u1" _ fun _ => none
    rw [hput]
    refine congrArg some (funext fun n => ?_)
    by_cases hn : n = 1
    · rw [hn, Function.update_self, if_pos rfl]
    · rw [Function.update_of_ne hn, if_neg hn]
  -- part 2 was never uploaded
  have hfailed : MemoryBlobs.ensureUploadCompleted (fun _ => "")
      (LocalFs.completion "blobs/u1" none [⟨2, ""⟩]) partOne =
        some (.error .contentNotReady, partOne.dropParts "blobs/u1") :=
    MemoryBlobs.ensure_missing rfl rfl hparts ⟨2, List.mem_singleton.mpr rfl, by decide⟩
  have hsame : (partOne.dropParts "blobs/u1").parts "blobs/u1" = partOne.parts "blobs/u1" :=
    congrArg (fun s => s.parts "blobs/u1") (h _ _ hfailed).1
  have hdropped : (partOne.dropParts "blobs/u1").parts "blobs/u1" = none := by
    show Function.update partOne.parts "blobs/u1" none "blobs/u1" = none
    rw [Function.update_self]
  rw [hdropped, hparts] at hsame
  cases hsame

/-! ## The order of the parts -/

/-- However a client lists parts that are there, each backend takes them in
ascending order. -/
def AssembledInOrder (parts : Nat → Option (List UInt8)) : Prop :=
  ∀ blobRef providerUploadId (named : List CompletedPart), LocalFs.Prepared blobRef →
    (∀ p ∈ named, (parts p.partNumber).isSome) →
    let req := LocalFs.completion blobRef providerUploadId named
    let bytes := joined (fun n => (parts n).getD []) req.numbers
    (∀ s : MemoryBlobs.State, s.blobs blobRef = none → s.parts blobRef = some parts →
      ∃ stat s', MemoryBlobs.ensureUploadCompleted sha256 req s = some (.ok stat, s') ∧
        s'.blobs blobRef = some bytes) ∧
    (∀ files, files blobRef = none → (∀ n, files (LocalFs.part blobRef n) = parts n) →
      ∃ stat files', LocalFs.calm (LocalFs.ensureUploadCompleted sha256 req) files =
        some (.ok stat, files') ∧ files' blobRef = some bytes) ∧
    ∃ listed, listed.Perm named ∧ listed.Pairwise (·.partNumber ≤ ·.partNumber) ∧
      Cos.completeMultipartBody named = Cos.completionXml listed

/-- Any two parts are the same bytes in either order. -/
def Commuting (parts : Nat → Option (List UInt8)) : Prop :=
  ∀ i j a b, parts i = some a → parts j = some b → a ++ b = b ++ a

/-- The store in memory takes the parts as they are listed. -/
theorem listed_eq_joined {parts : Nat → Option (List UInt8)}
    (h : AssembledInOrder sha256 parts) {numbers : List Nat}
    (hnumbers : ∀ n ∈ numbers, (parts n).isSome) :
    numbers.flatMap (fun n => (parts n).getD []) = joined (fun n => (parts n).getD []) numbers := by
  have hmap : (numbers.map fun n => (⟨n, ""⟩ : CompletedPart)).map (·.partNumber) = numbers := by
    rw [List.map_map]
    exact List.map_id numbers
  have hnamed : ∀ p ∈ numbers.map fun n => (⟨n, ""⟩ : CompletedPart), (parts p.partNumber).isSome := by
    intro p hp
    obtain ⟨n, hn, rfl⟩ := List.mem_map.mp hp
    exact hnumbers n hn
  have hprepared : LocalFs.Prepared "blobs/u1" := ⟨by decide, by decide +kernel⟩
  let s : MemoryBlobs.State := { parts := fun _ => some parts }
  obtain ⟨stat, s', hs', hblob⟩ := (h "blobs/u1" none _ hprepared hnamed).1 s rfl rfl
  have hcontent : ∀ n ∈ (LocalFs.completion "blobs/u1" none
      (numbers.map fun n => ⟨n, ""⟩)).numbers, parts n = some ((parts n).getD []) := by
    intro n hn
    obtain ⟨bytes, hbytes⟩ := Option.isSome_iff_exists.mp (hnumbers n (hmap ▸ hn))
    rw [hbytes, Option.getD_some]
  have hparts : s.parts (LocalFs.completion "blobs/u1" none
      (numbers.map fun n => ⟨n, ""⟩)).blobRef = some parts := rfl
  -- the in-memory store joins in the order of the call, the other one in that of the numbers
  obtain ⟨s'', hs'', hblob'⟩ := MemoryBlobs.ensure_assembles rfl rfl hparts hcontent
  have hsame : s' = s'' := (Prod.mk.inj (Option.some.inj (hs'.symm.trans hs''))).2
  rw [hsame] at hblob
  have hbytes := Option.some.inj (hblob'.symm.trans hblob)
  unfold CompleteBlobUpload.numbers LocalFs.completion at hbytes
  rwa [hmap] at hbytes

/-- The backends agree exactly on parts that commute. -/
theorem assembled_in_order (parts : Nat → Option (List UInt8)) :
    AssembledInOrder sha256 parts ↔ Commuting parts := by
  constructor
  · intro h i j a b ha hb
    -- the higher number is listed first
    have hswapped : ∀ i j a b, i < j → parts i = some a → parts j = some b → a ++ b = b ++ a := by
      intro i j a b hij ha hb
      have hnumbers : ∀ n ∈ [j, i], (parts n).isSome := by
        intro n hn
        simp only [List.mem_cons, List.not_mem_nil, or_false] at hn
        rcases hn with rfl | rfl
        · rw [hb]
          rfl
        · rw [ha]
          rfl
      have hlisted := listed_eq_joined sha256 h hnumbers
      have hsorted : [i, j].Pairwise (· ≤ ·) := by simpa using Nat.le_of_lt hij
      rw [joined_perm (List.Perm.swap i j []), joined_sorted hsorted] at hlisted
      simpa [ha, hb] using hlisted.symm
    rcases Nat.lt_trichotomy i j with hij | rfl | hji
    · exact hswapped i j a b hij ha hb
    · rw [Option.some.inj (ha.symm.trans hb)]
    · exact (hswapped j i b a hji hb ha).symm
  · intro hcomm blobRef providerUploadId named hprepared hnamed
    have hnumbers : ∀ n ∈ named.map (·.partNumber), parts n = some ((parts n).getD []) := by
      intro n hn
      obtain ⟨p, hp, rfl⟩ := List.mem_map.mp hn
      obtain ⟨bytes, hbytes⟩ := Option.isSome_iff_exists.mp (hnamed p hp)
      rw [hbytes, Option.getD_some]
    refine ⟨fun s hblob hparts => ?_, fun files hblob hfiles => ?_,
      Cos.completeMultipartBody_eq named⟩
    · have hany : (named.map (·.partNumber)).flatMap (fun n => (parts n).getD []) =
          joined (fun n => (parts n).getD []) (named.map (·.partNumber)) := by
        refine flatMap_perm (fun i hi j hj => ?_) (List.mergeSort_perm _ _).symm
        exact hcomm i j _ _ (hnumbers i hi) (hnumbers j hj)
      have hreq : s.parts (LocalFs.completion blobRef providerUploadId named).blobRef =
          some parts := hparts
      obtain ⟨s', hs', hbytes⟩ := MemoryBlobs.ensure_assembles hblob rfl hreq hnumbers
      exact ⟨_, s', hs', hbytes.trans (congrArg some hany)⟩
    · have hreq : LocalFs.Prepared (LocalFs.completion blobRef providerUploadId named).blobRef :=
        hprepared
      obtain ⟨files', hfiles', hbytes⟩ := LocalFs.calm_ensure_assembles hreq hblob rfl
        fun n hn => (hfiles n).trans (hnumbers n hn)
      exact ⟨_, files', hfiles', hbytes⟩

/-- Two parts, of one letter each. -/
def twoParts (n : Nat) : Option (List UInt8) :=
  if n = 1 then some [0x41] else if n = 2 then some [0x42] else none

/-- The two letters do not commute. -/
theorem not_assembled_in_order : ¬ AssembledInOrder (fun _ => "") twoParts := by
  intro h
  have hnumbers : ∀ n ∈ [2, 1], (twoParts n).isSome := by decide
  have hlisted := listed_eq_joined (fun _ => "") h hnumbers
  rw [joined_perm (List.Perm.swap 1 2 []), joined_sorted (by simp)] at hlisted
  exact absurd hlisted (by decide)

end AnyStore

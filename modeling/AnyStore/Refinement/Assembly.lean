import AnyStore.Lib.Alone
import AnyStore.Model.BlobStores

/-!
# What completing an upload does

The calls of the blob stores without their programs: what a completion that
nothing disturbs leaves, and what any completion does to the files of the local
store.
-/

namespace AnyStore

/-- The parts with these numbers, in ascending order. -/
def joined (content : Nat → List UInt8) (numbers : List Nat) : List UInt8 :=
  (numbers.mergeSort (· ≤ ·)).flatMap content

/-- The numbers are in order, -/
theorem sorted_numbers (numbers : List Nat) :
    (numbers.mergeSort (· ≤ ·)).Pairwise (· ≤ ·) := by
  have htrans : ∀ a b c : Nat, decide (a ≤ b) = true → decide (b ≤ c) = true →
      decide (a ≤ c) = true := by
    simp only [decide_eq_true_eq]
    omega
  have htotal : ∀ a b : Nat, (decide (a ≤ b) || decide (b ≤ a)) = true := by
    simp only [Bool.or_eq_true, decide_eq_true_eq]
    omega
  simpa only [decide_eq_true_eq] using List.pairwise_mergeSort htrans htotal numbers

/-- so the content does not depend on how they were listed. -/
theorem joined_perm {content : Nat → List UInt8} {numbers numbers' : List Nat}
    (h : numbers.Perm numbers') : joined content numbers = joined content numbers' := by
  unfold joined
  have hperm : (numbers.mergeSort (· ≤ ·)).Perm (numbers'.mergeSort (· ≤ ·)) :=
    ((List.mergeSort_perm _ _).trans h).trans (List.mergeSort_perm _ _).symm
  rw [hperm.eq_of_pairwise (fun a b _ _ => Nat.le_antisymm) (sorted_numbers _) (sorted_numbers _)]

/-- A list in ascending order is joined as it is. -/
theorem joined_sorted {content : Nat → List UInt8} {numbers : List Nat}
    (h : numbers.Pairwise (· ≤ ·)) : joined content numbers = numbers.flatMap content := by
  unfold joined
  rw [List.mergeSort_of_pairwise]
  simpa only [decide_eq_true_eq] using h

/-- Words that commute may be joined in any order. -/
theorem flatMap_perm {α : Type} {f : α → List UInt8} {l l' : List α}
    (hcomm : ∀ a ∈ l, ∀ b ∈ l, f a ++ f b = f b ++ f a) (h : l.Perm l') :
    l.flatMap f = l'.flatMap f := by
  induction h with
  | nil => rfl
  | cons a _ ih =>
    rw [List.flatMap_cons, List.flatMap_cons,
      ih fun b hb c hc => hcomm b (List.mem_cons_of_mem _ hb) c (List.mem_cons_of_mem _ hc)]
  | swap a b l =>
    have hab := hcomm b (List.mem_cons_self ..) a (by simp)
    simp only [List.flatMap_cons]
    rw [← List.append_assoc, hab, List.append_assoc]
  | trans h₁ _ ih₁ ih₂ =>
    rw [ih₁ hcomm, ih₂ fun a ha b hb => hcomm a (h₁.mem_iff.mpr ha) b (h₁.mem_iff.mpr hb)]

namespace LocalFs

/-! ## Paths -/

/-- `prepare_upload` has accepted the reference of a multipart upload. -/
structure Prepared (blobRef : String) : Prop where
  blob : isSafe blobRef = true
  parts : isSafe (blobRef ++ ".parts") = true

/-- The file of a part. -/
abbrev part (blobRef : String) (number : Nat) : String := partPath (blobRef ++ ".parts") number

section Paths

variable {blobRef : String}

/-- The blob's path is its reference, -/
theorem Prepared.safeJoin_eq (h : Prepared blobRef) : safeJoin blobRef = .ok blobRef := if_pos h.blob

/-- and its parts lie beside it. -/
theorem Prepared.partsDir_eq (h : Prepared blobRef) :
    partsDir blobRef = .ok (blobRef ++ ".parts") := if_pos h.parts

/-- A part's path is longer than the blob's, -/
theorem length_part (blobRef : String) (number : Nat) :
    blobRef.toList.length + 7 ≤ (part blobRef number).toList.length := by
  unfold part partPath
  rw [String.toList_append, String.toList_append, String.toList_append, List.length_append,
    List.length_append, List.length_append]
  show _ ≤ _ + 6 + 1 + _
  omega

/-- so it is another one. -/
theorem part_ne (number : Nat) : part blobRef number ≠ blobRef := by
  intro h
  have hlength := length_part blobRef number
  rw [h] at hlength
  omega

/-- Each part has its own path. -/
theorem part_injective {m n : Nat} (h : part blobRef m = part blobRef n) : m = n := by
  have htext := congrArg String.toList h
  unfold part partPath at htext
  rw [String.toList_append, String.toList_append (s := blobRef ++ ".parts" ++ "/")] at htext
  have hrepr : m.repr = n.repr := String.toList_injective (List.append_cancel_left htext)
  rw [← Nat.ofDigitChars_ten_toDigits (n := m), ← Nat.toList_repr, hrepr, Nat.toList_repr,
    Nat.ofDigitChars_ten_toDigits]

/-- The blob does not lie among its parts. -/
theorem not_isUnder : isUnder (blobRef ++ ".parts") blobRef = false := by
  rw [Bool.eq_false_iff]
  intro h
  have hlength := (List.isPrefixOf_iff_prefix.mp h).length_le
  rw [String.toList_append, String.toList_append, List.length_append, List.length_append] at hlength
  have hsuffix : (".parts" : String).toList.length = 6 := rfl
  omega

end Paths

/-! ## A completion that nothing disturbs -/

/-- A call of the store that meets no error. -/
abbrev calm {α : Type} (p : Proc α) : Locked Files DomainError α := p.eval machine 0 {}

section Calm

variable {files : Files} {path : String}

/-- Without a fault: a look at a path, -/
theorem calm_exists : calm (Prog.op (.pathExists path)) files = some (.ok (files path).isSome, files) := by
  refine Prog.eval_op ?_
  show some ((files path).isSome && true, files) = _
  rw [Bool.and_true]

/-- an operation that succeeds, -/
theorem calm_orStorage_ok {α : Type} (what : String) {op : FsOp (Except String α)} {a : α} {files' : Files}
    (h : machine.exec 0 {} op files = some (.ok a, files')) :
    calm (orStorage what op) files = some (.ok a, files') := by
  unfold calm orStorage
  rw [Prog.eval_bind, Locked.bind_run (Prog.eval_op h)]
  rfl

/-- and one that fails. -/
theorem calm_orStorage_error {α : Type} (what : String) {op : FsOp (Except String α)} {e : String} {files' : Files}
    (h : machine.exec 0 {} op files = some (.error e, files')) :
    calm (orStorage what op) files = some (.error (.storageError (what ++ ": " ++ e)), files') := by
  unfold calm orStorage
  rw [Prog.eval_bind, Locked.bind_run (Prog.eval_op h)]
  rfl

/-- A file is read, -/
theorem exec_read {bytes : List UInt8} (h : files path = some bytes) :
    machine.exec 0 {} (.read path) files = some (.ok bytes, files) := by
  show some (Io.access {} (files path), files) = _
  rw [h]
  rfl

/-- a missing one is not, -/
theorem exec_read_missing (h : files path = none) :
    machine.exec 0 {} (.read path) files = some (.error noSuchFile, files) := by
  show some (Io.access {} (files path), files) = _
  rw [h]
  rfl

/-- and an open one is there. -/
theorem exec_openFile {bytes : List UInt8} (h : files path = some bytes) :
    machine.exec 0 {} (.openFile path) files = some (.ok (), files) := by
  show some ((Io.access {} (files path)).map fun _ => (), files) = _
  rw [h]
  rfl

variable {dir : String} {content : Nat → List UInt8} {numbers : List Nat}

/-- All the parts are there, and are read in order; -/
theorem calm_assemble (h : ∀ n ∈ numbers, files (partPath dir n) = some (content n)) :
    calm (assemble dir numbers) files = some (.ok (numbers.flatMap content), files) := by
  induction numbers with
  | nil => rfl
  | cons n numbers ih =>
    have hn := calm_orStorage_ok ("missing uploaded part " ++ toString n)
      (exec_read (h n (List.mem_cons_self ..)))
    have hrest := ih fun m hm => h m (List.mem_cons_of_mem _ hm)
    unfold calm assemble
    rw [Prog.eval_bind, Locked.bind_run hn, Prog.eval_bind, Locked.bind_run hrest]
    rfl

/-- or one is missing, and nothing has changed. -/
theorem calm_assemble_missing (h : ∃ n ∈ numbers, files (partPath dir n) = none) :
    ∃ e, calm (assemble dir numbers) files = some (.error e, files) := by
  induction numbers with
  | nil =>
    obtain ⟨n, hn, _⟩ := h
    cases hn
  | cons n numbers ih =>
    unfold calm assemble
    cases hfile : files (partPath dir n) with
    | none =>
      refine ⟨.storageError ("missing uploaded part " ++ toString n ++ ": " ++ noSuchFile), ?_⟩
      rw [Prog.eval_bind]
      exact Locked.bind_run_error (calm_orStorage_error _ (exec_read_missing hfile))
    | some bytes =>
      obtain ⟨m, hm, hmissing⟩ := h
      have hmem : m ∈ numbers := by
        rcases List.mem_cons.mp hm with rfl | hm
        · rw [hfile] at hmissing
          cases hmissing
        · exact hm
      obtain ⟨e, he⟩ := ih ⟨m, hmem, hmissing⟩
      refine ⟨e, ?_⟩
      rw [Prog.eval_bind, Locked.bind_run (calm_orStorage_ok _ (exec_read hfile)), Prog.eval_bind]
      exact Locked.bind_run_error he

variable {sha256 : List UInt8 → String} {blobRef : String}

/-- What a blob is said to be. -/
theorem calm_stat (hsafe : safeJoin blobRef = .ok blobRef) {bytes : List UInt8}
    (h : files blobRef = some bytes) :
    calm (stat sha256 blobRef) files = some (.ok (statOf sha256 bytes), files) := by
  unfold calm stat hashAndSize
  rw [Prog.eval_bind, hsafe]
  show calm (Prog.op (.pathExists blobRef) >>= _) files = _
  rw [calm, Prog.eval_bind, Locked.bind_run calm_exists, h, Prog.eval_bind,
    ReadCommitted.eval_require]
  show calm (orStorage "open blob failed" (.openFile blobRef) >>= _) files = _
  rw [calm, Prog.eval_bind, Locked.bind_run (calm_orStorage_ok _ (exec_openFile h)), Prog.eval_bind,
    Locked.bind_run (calm_orStorage_ok _ (exec_read h))]
  rfl

variable {req : CompleteBlobUpload}

/-- What follows the assembly. -/
theorem calm_finish (hsafe : safeJoin req.blobRef = .ok req.blobRef) {bytes : List UInt8}
    (h : files req.blobRef = some bytes) :
    calm (do
      ReadCommitted.require (← Prog.op (.pathExists req.blobRef)) DomainError.contentNotReady
      stat sha256 req.blobRef) files = some (.ok (statOf sha256 bytes), files) := by
  rw [calm, Prog.eval_bind, Locked.bind_run calm_exists, h, Prog.eval_bind,
    ReadCommitted.eval_require]
  exact calm_stat hsafe h

/-- The call, for a path that is prepared. -/
theorem calm_ensure_eq (hprepared : Prepared req.blobRef) :
    calm (ensureUploadCompleted sha256 req) =
      calm (ReadCommitted.whenever (req.mode = .multipart) (assembleMissing req req.blobRef)) >>=
        fun _ => calm (do
          ReadCommitted.require (← Prog.op (.pathExists req.blobRef)) DomainError.contentNotReady
          stat sha256 req.blobRef) := by
  unfold calm ensureUploadCompleted
  rw [Prog.eval_bind, hprepared.safeJoin_eq]
  show calm (ReadCommitted.whenever _ _ >>= _) = _
  rw [calm, Prog.eval_bind]

/-- A blob that is there is not touched. -/
theorem calm_ensure_present (hprepared : Prepared req.blobRef) {bytes : List UInt8}
    (h : files req.blobRef = some bytes) :
    calm (ensureUploadCompleted sha256 req) files = some (.ok (statOf sha256 bytes), files) := by
  have hfirst : calm (ReadCommitted.whenever (req.mode = .multipart)
      (assembleMissing req req.blobRef)) files = some (.ok (), files) := by
    rw [calm, ReadCommitted.eval_whenever]
    split
    · unfold assembleMissing
      rw [Prog.eval_bind, Locked.bind_run calm_exists, h]
      rfl
    · rfl
  rw [calm_ensure_eq hprepared, Locked.bind_run hfirst]
  exact calm_finish hprepared.safeJoin_eq h

/-- A single upload that was not made is not ready. -/
theorem calm_ensure_single (hprepared : Prepared req.blobRef) (h : files req.blobRef = none)
    (hmode : req.mode ≠ .multipart) :
    calm (ensureUploadCompleted sha256 req) files = some (.error .contentNotReady, files) := by
  have hfirst : calm (ReadCommitted.whenever (req.mode = .multipart)
      (assembleMissing req req.blobRef)) files = some (.ok (), files) := by
    rw [calm, ReadCommitted.eval_whenever, if_neg hmode]
    rfl
  rw [calm_ensure_eq hprepared, Locked.bind_run hfirst, calm, Prog.eval_bind,
    Locked.bind_run calm_exists, h]
  rfl

/-- Assembling comes down to `assembleBlob` when the blob is missing. -/
theorem calm_assembleMissing (hprepared : Prepared req.blobRef) (h : files req.blobRef = none)
    (hmode : req.mode = .multipart) :
    calm (ReadCommitted.whenever (req.mode = .multipart) (assembleMissing req req.blobRef)) files =
      calm (assembleBlob req.blobRef (req.blobRef ++ ".parts") req.numbers) files := by
  rw [calm, ReadCommitted.eval_whenever, if_pos hmode]
  unfold assembleMissing
  rw [Prog.eval_bind, Locked.bind_run calm_exists, h]
  show calm (Prog.ofExcept (partsDir req.blobRef) >>= _) files = _
  rw [hprepared.partsDir_eq]
  rfl

/-- The parts become the blob, in ascending order. -/
theorem calm_ensure_assembles (hprepared : Prepared req.blobRef) (h : files req.blobRef = none)
    (hmode : req.mode = .multipart)
    (hparts : ∀ n ∈ req.numbers, files (part req.blobRef n) = some (content n)) :
    ∃ files', calm (ensureUploadCompleted sha256 req) files =
      some (.ok (statOf sha256 (joined content req.numbers)), files') ∧
      files' req.blobRef = some (joined content req.numbers) := by
  have hread : calm (assemble (req.blobRef ++ ".parts") (req.numbers.mergeSort (· ≤ ·))) files =
      some (.ok (joined content req.numbers), files) :=
    calm_assemble fun n hn => hparts n (List.mem_mergeSort.mp hn)
  have hwrite := calm_orStorage_ok "assemble blob failed"
    (show machine.exec 0 {} (.write req.blobRef (joined content req.numbers)) files = _ from rfl)
  have hfirst : ∃ files', calm (assembleBlob req.blobRef (req.blobRef ++ ".parts") req.numbers) files =
      some (.ok (), files') ∧ files' req.blobRef = some (joined content req.numbers) := by
    unfold assembleBlob
    rw [calm, Prog.eval_bind, Locked.bind_run hread, Prog.eval_bind, Locked.bind_run hwrite]
    refine ⟨_, Prog.eval_op rfl, ?_⟩
    show (if isUnder _ req.blobRef && _ then none else _) = _
    rw [not_isUnder, Bool.false_and, if_neg (by decide)]
    exact Function.update_self ..
  obtain ⟨files', hfirst, hblob⟩ := hfirst
  refine ⟨files', ?_, hblob⟩
  rw [calm_ensure_eq hprepared,
    Locked.bind_run ((calm_assembleMissing hprepared h hmode).trans hfirst)]
  exact calm_finish hprepared.safeJoin_eq hblob

/-- A part that is missing is found out before anything is written. -/
theorem calm_ensure_missing (hprepared : Prepared req.blobRef) (h : files req.blobRef = none)
    (hmode : req.mode = .multipart)
    (hmissing : ∃ n ∈ req.numbers, files (part req.blobRef n) = none) :
    ∃ e, calm (ensureUploadCompleted sha256 req) files = some (.error e, files) := by
  obtain ⟨n, hn, hfile⟩ := hmissing
  have hsorted : ∃ m ∈ req.numbers.mergeSort (· ≤ ·),
      files (partPath (req.blobRef ++ ".parts") m) = none := ⟨n, List.mem_mergeSort.mpr hn, hfile⟩
  obtain ⟨e, he⟩ := calm_assemble_missing hsorted
  refine ⟨e, ?_⟩
  have hfirst : calm (assembleBlob req.blobRef (req.blobRef ++ ".parts") req.numbers) files =
      some (.error e, files) := by
    unfold assembleBlob
    rw [calm, Prog.eval_bind]
    exact Locked.bind_run_error he
  rw [calm_ensure_eq hprepared]
  exact Locked.bind_run_error ((calm_assembleMissing hprepared h hmode).trans hfirst)

end Calm

/-! ## Completions that are disturbed -/

/-- The parts that a client has uploaded. -/
structure Uploaded where
  numbers : List Nat
  content : Nat → List UInt8

namespace Uploaded

variable (u : Uploaded)

def file (n : Nat) : Option (List UInt8) := if n ∈ u.numbers then some (u.content n) else none

/-- All parts in ascending order. -/
def bytes : List UInt8 := joined u.content u.numbers

/-- A write of the blob that a call with these numbers comes to does not create
the file, or leaves all bytes of all parts in it. -/
def Whole (numbers : List Nat) : ∀ {β : Type}, FsOp β → Io → Prop
  | _, .write _ _, io =>
    io.error.isSome ∧ io.written = none ∨ joined u.content numbers = u.bytes ∧
      (io.error = none ∨ ∃ n, io.written = some n ∧ u.bytes.length ≤ n)
  | _, _, _ => True

/-- The blob is missing and the parts are there, or the blob is all of them. -/
structure Sound (blobRef : String) (files : Files) : Prop where
  parts : ∀ n, files (part blobRef n) = u.file n ∨ files (part blobRef n) = none
  blob : files blobRef = some u.bytes ∨
    files blobRef = none ∧ ∀ n, files (part blobRef n) = u.file n

end Uploaded

section Disturbed

variable {permits : ∀ {β : Type}, FsOp β → Io → Prop} {files files' : Files}

/-- What an operation did, and how the caller was told. -/
theorem ends_orStorage {α : Type} {what : String} {op : FsOp (Except String α)}
    {r : DomainResult α} (h : Prog.Ends machine 0 permits (orStorage what op) files r files') :
    ∃ io x, permits op io ∧ exec io op files = some (x, files') ∧ ∀ a, r = .ok a → x = .ok a := by
  unfold orStorage at h
  rcases Prog.ends_bind.mp h with ⟨x, files₁, hop, hx⟩ | ⟨e, hop, _⟩
  · obtain ⟨io, y, hpermits, hexec, hy⟩ := Prog.ends_op.mp hop
    obtain rfl := Except.ok.inj hy
    cases x with
    | ok a =>
      obtain ⟨hr, rfl⟩ := Prog.ends_ret.mp hx
      refine ⟨io, _, hpermits, hexec, fun b hb => ?_⟩
      rw [hr] at hb
      rw [Except.ok.inj hb]
    | error e =>
      obtain ⟨hr, rfl⟩ := Prog.ends_fail.mp hx
      refine ⟨io, _, hpermits, hexec, fun b hb => ?_⟩
      rw [hr] at hb
      cases hb
  · obtain ⟨_, _, _, _, he⟩ := Prog.ends_op.mp hop
    cases he

/-- What was read was there. -/
theorem access_eq_ok {io : Io} {file : Option (List UInt8)} {bytes : List UInt8}
    (h : io.access file = .ok bytes) : file = some bytes := by
  unfold Io.access at h
  split at h
  · rw [Except.ok.inj h]
  · cases h
  · cases h

/-- Reading changes nothing, and gives what is there. -/
theorem ends_read {what path : String} {r : DomainResult (List UInt8)}
    (h : Prog.Ends machine 0 permits (orStorage what (.read path)) files r files') :
    files' = files ∧ ∀ bytes, r = .ok bytes → files path = some bytes := by
  obtain ⟨io, x, _, hexec, hr⟩ := ends_orStorage h
  have hpair := Option.some.inj hexec
  refine ⟨(congrArg Prod.snd hpair).symm, fun bytes hbytes => ?_⟩
  have hx : io.access (files path) = x := congrArg Prod.fst hpair
  exact access_eq_ok (hx.trans (hr bytes hbytes))

/-- However the reads end, the bytes are those of the parts. -/
theorem ends_assemble {dir : String} {content : Nat → List UInt8} {numbers : List Nat}
    {r : DomainResult (List UInt8)}
    (hfiles : ∀ n bytes, files (partPath dir n) = some bytes → bytes = content n)
    (h : Prog.Ends machine 0 permits (assemble dir numbers) files r files') :
    files' = files ∧ ∀ bytes, r = .ok bytes → bytes = numbers.flatMap content := by
  induction numbers generalizing r files' with
  | nil =>
    obtain ⟨rfl, rfl⟩ := Prog.ends_ret.mp h
    exact ⟨rfl, fun bytes hbytes => (Except.ok.inj hbytes).symm⟩
  | cons n numbers ih =>
    unfold assemble at h
    rcases Prog.ends_bind.mp h with ⟨bytes, files₁, hread, hnext⟩ | ⟨e, hread, rfl⟩
    · obtain ⟨rfl, hbytes⟩ := ends_read hread
      have hcontent : bytes = content n := hfiles n bytes (hbytes bytes rfl)
      rcases Prog.ends_bind.mp hnext with ⟨rest, files₂, hrest, hend⟩ | ⟨e, hrest, rfl⟩
      · obtain ⟨rfl, hall⟩ := ih hrest
        obtain ⟨rfl, rfl⟩ := Prog.ends_ret.mp hend
        refine ⟨rfl, fun joined hjoined => ?_⟩
        rw [← Except.ok.inj hjoined, hall rest rfl, hcontent, List.flatMap_cons]
      · exact ⟨(ih hrest).1, nofun⟩
    · exact ⟨(ends_read hread).1, nofun⟩

variable {u : Uploaded} {blobRef : String} {numbers : List Nat}

/-- A part's file holds the part. -/
theorem Uploaded.Sound.content (h : u.Sound blobRef files) (n : Nat) (bytes : List UInt8)
    (hfile : files (part blobRef n) = some bytes) : bytes = u.content n := by
  have hpart : u.file n = some bytes := by
    rcases h.parts n with hn | hn
    · rw [← hn, hfile]
    · rw [hfile] at hn
      cases hn
  unfold Uploaded.file at hpart
  split_ifs at hpart
  exact (Option.some.inj hpart).symm

/-- A write of the blob that is whole. -/
theorem Uploaded.Sound.write (h : u.Sound blobRef files) {io : Io}
    (hwhole : u.Whole numbers (.write blobRef (joined u.content numbers)) io) :
    u.Sound blobRef (Function.update files blobRef
      (io.written? (files blobRef) (joined u.content numbers))) := by
  have hparts : ∀ file n, Function.update files blobRef file (part blobRef n) =
      files (part blobRef n) := fun file n => Function.update_of_ne (part_ne n) ..
  have hnew : io.written? (files blobRef) (joined u.content numbers) = files blobRef ∨
      io.written? (files blobRef) (joined u.content numbers) = some u.bytes := by
    rcases hwhole with ⟨herror, hwritten⟩ | ⟨hbytes, hwritten⟩
    · left
      obtain ⟨e, he⟩ := Option.isSome_iff_exists.mp herror
      unfold Io.written?
      rw [he, hwritten]
    · right
      unfold Io.written?
      rw [hbytes]
      rcases hwritten with hnone | ⟨n, hn, hle⟩
      · rw [hnone]
      · rw [hn]
        cases io.error with
        | none => rfl
        | some e => exact congrArg some (List.take_of_length_le hle)
  constructor
  · intro n
    rw [hparts]
    exact h.parts n
  · rw [Function.update_self]
    rcases hnew with hnew | hnew
    · rw [hnew]
      rcases h.blob with hblob | ⟨hblob, hall⟩
      · exact .inl hblob
      · refine .inr ⟨hblob, fun n => ?_⟩
        rw [hparts]
        exact hall n
    · exact .inl hnew

/-- Parts that go do not matter once the blob is there. -/
theorem Uploaded.Sound.remove (h : u.Sound blobRef files) (hblob : files blobRef ≠ none)
    (left : String → Bool) : u.Sound blobRef fun path =>
      if isUnder (blobRef ++ ".parts") path && left path then none else files path := by
  constructor
  · intro n
    show (if _ then none else _) = _ ∨ (if _ then none else _) = _
    split_ifs
    · exact .inr rfl
    · exact h.parts n
  · left
    show (if _ then none else _) = _
    rw [not_isUnder, Bool.false_and, if_neg (by decide)]
    rcases h.blob with hblob' | ⟨hnone, _⟩
    · exact hblob'
    · exact absurd hnone hblob

/-- **Assembly.** It keeps the files sound, however it ends. -/
theorem Uploaded.Sound.assembleBlob (h : u.Sound blobRef files) {r : DomainResult Unit}
    (hends : Prog.Ends machine 0 (u.Whole numbers)
      (assembleBlob blobRef (blobRef ++ ".parts") numbers) files r files') :
    u.Sound blobRef files' := by
  unfold LocalFs.assembleBlob at hends
  rcases Prog.ends_bind.mp hends with ⟨bytes, files₁, hread, hends⟩ | ⟨e, hread, _⟩
  · obtain ⟨rfl, hbytes⟩ := ends_assemble h.content hread
    have hjoined : bytes = joined u.content numbers := hbytes bytes rfl
    subst hjoined
    rcases Prog.ends_bind.mp hends with ⟨_, files₂, hwrite, hremove⟩ | ⟨e, hwrite, _⟩
    · obtain ⟨io, x, hwhole, hexec, hx⟩ := ends_orStorage hwrite
      obtain ⟨rfl, rfl⟩ := Prod.mk.inj (Option.some.inj hexec)
      -- the write was reported to have succeeded
      have hok : io.error = none := by
        have hanswer : io.error.elim (.ok ()) .error = (Except.ok () : Except String Unit) := hx () rfl
        cases herror : io.error with
        | none => rfl
        | some e =>
          rw [herror] at hanswer
          cases hanswer
      have hblob : Function.update files₁ blobRef (io.written? (files₁ blobRef)
          (joined u.content numbers)) blobRef ≠ none := by
        rw [Function.update_self]
        unfold Io.written?
        rw [hok]
        exact Option.some_ne_none _
      obtain ⟨io', _, _, hexec', _⟩ := Prog.ends_op.mp hremove
      obtain ⟨_, rfl⟩ := Prod.mk.inj (Option.some.inj hexec')
      exact (h.write hwhole).remove hblob fun path => io'.error.isNone || !io'.left path
    · obtain ⟨io, x, hwhole, hexec, _⟩ := ends_orStorage hwrite
      obtain ⟨_, rfl⟩ := Prod.mk.inj (Option.some.inj hexec)
      exact h.write hwhole
  · rw [(ends_assemble h.content hread).1]
    exact h

/-! ### Operations that only look -/

section Look

variable {I : Files → Prop}

/-- A look at a path changes nothing, -/
theorem preserves_pathExists (path : String) :
    Prog.Preserves machine 0 permits I (Prog.op (.pathExists path) : Proc Bool) := by
  refine Prog.preserves_op fun io files there files' hI _ hexec => ?_
  rw [← (Prod.mk.inj (Option.some.inj hexec)).2]
  exact hI

/-- nor does an operation that only reads, -/
theorem preserves_access {what : String} {α : Type} {op : FsOp (Except String α)}
    (h : ∀ io files x files', exec io op files = some (x, files') → files' = files) :
    Prog.Preserves machine 0 permits I (orStorage what op) := by
  intro files r files' hI hends
  obtain ⟨io, x, _, hexec, _⟩ := ends_orStorage hends
  rw [h io files x files' hexec]
  exact hI

/-- nor opening, -/
theorem preserves_openFile {what : String} (path : String) :
    Prog.Preserves machine 0 permits I (orStorage what (.openFile path)) := by
  refine preserves_access fun io files x files' hexec => ?_
  exact (Prod.mk.inj (Option.some.inj hexec)).2.symm

/-- nor reading, -/
theorem preserves_read {what : String} (path : String) :
    Prog.Preserves machine 0 permits I (orStorage what (.read path)) := by
  refine preserves_access fun io files x files' hexec => ?_
  exact (Prod.mk.inj (Option.some.inj hexec)).2.symm

/-- nor the description of a blob. -/
theorem preserves_stat {sha256 : List UInt8 → String} (blobRef : String) :
    Prog.Preserves machine 0 permits I (stat sha256 blobRef) := by
  unfold stat hashAndSize
  refine (Prog.preserves_ofExcept _).bind fun path => ?_
  refine (preserves_pathExists path).bind fun there => ?_
  refine (ReadCommitted.preserves_require _).bind fun _ => ?_
  refine (preserves_openFile path).bind fun _ => ?_
  exact (preserves_read path).bind fun bytes => Prog.preserves_ret _

end Look

/-- Whatever happens during a call, the upload stays sound as long as the writes
of the blob are whole. -/
theorem preserves_ensure {sha256 : List UInt8 → String} {req : CompleteBlobUpload}
    (hprepared : Prepared req.blobRef) :
    Prog.Preserves machine 0 (u.Whole req.numbers) (u.Sound req.blobRef)
      (ensureUploadCompleted sha256 req) := by
  have hmissing : Prog.Preserves machine 0 (u.Whole req.numbers) (u.Sound req.blobRef)
      (assembleMissing req req.blobRef) := by
    unfold assembleMissing
    refine (preserves_pathExists _).bind fun there => ?_
    cases there with
    | true => exact Prog.preserves_ret ()
    | false =>
      rw [hprepared.partsDir_eq]
      exact fun files r files' h hends => h.assembleBlob hends
  unfold ensureUploadCompleted
  rw [hprepared.safeJoin_eq]
  refine (ReadCommitted.preserves_whenever hmissing).bind fun _ => ?_
  refine (preserves_pathExists _).bind fun there => ?_
  exact (ReadCommitted.preserves_require _).bind fun _ => preserves_stat _

end Disturbed

/-! ## A disk without room -/

/-- The parts lie below the root, and nothing else does. -/
def Uploaded.files (u : Uploaded) (blobRef : String) : Files := fun path =>
  (u.numbers.find? fun n => part blobRef n = path).map u.content

/-- At first there are the parts that were uploaded, -/
theorem Uploaded.files_part (u : Uploaded) (blobRef : String) (n : Nat) :
    u.files blobRef (part blobRef n) = u.file n := by
  unfold Uploaded.files Uploaded.file
  cases hfind : u.numbers.find? fun m => part blobRef m = part blobRef n with
  | none =>
    have hn : n ∉ u.numbers := by
      intro hmem
      exact absurd (decide_eq_true rfl) (List.find?_eq_none.mp hfind n hmem)
    rw [if_neg hn]
    rfl
  | some m =>
    have hsame := List.find?_some (p := fun m => decide (part blobRef m = part blobRef n)) hfind
    obtain rfl : m = n := part_injective (of_decide_eq_true hsame)
    rw [if_pos (List.mem_of_find?_eq_some hfind)]
    rfl

/-- and no blob. -/
theorem Uploaded.files_blob (u : Uploaded) (blobRef : String) : u.files blobRef blobRef = none := by
  unfold Uploaded.files
  rw [List.find?_eq_none.mpr fun n _ h => part_ne n (of_decide_eq_true h)]
  rfl

/-- The client names all parts, and the file of the blob cannot be created. -/
theorem Uploaded.ends_refused (sha256 : List UInt8 → String) (u : Uploaded)
    (req : CompleteBlobUpload) (hprepared : Prepared req.blobRef) (hmode : req.mode = .multipart)
    (hall : req.numbers.Perm u.numbers) (why : String) :
    Prog.Ends machine 0 (u.Whole req.numbers) (ensureUploadCompleted sha256 req)
      (u.files req.blobRef) (.error (.storageError ("assemble blob failed" ++ ": " ++ why)))
      (u.files req.blobRef) := by
  have hcalm : ∀ {β : Type} (op : FsOp β), u.Whole req.numbers op {} := by
    intro β op
    cases op with
    | write path bytes => exact .inr ⟨joined_perm hall, .inl rfl⟩
    | _ => exact trivial
  have hread : calm (assemble (req.blobRef ++ ".parts") (req.numbers.mergeSort (· ≤ ·)))
      (u.files req.blobRef) = some (.ok (joined u.content req.numbers), u.files req.blobRef) := by
    refine calm_assemble fun n hn => ?_
    have hn : n ∈ u.numbers := hall.mem_iff.mp (List.mem_mergeSort.mp hn)
    exact (u.files_part req.blobRef n).trans (if_pos hn)
  unfold ensureUploadCompleted
  rw [hprepared.safeJoin_eq]
  show Prog.Ends _ _ _ (ReadCommitted.whenever _ (assembleMissing req req.blobRef) >>= _) _ _ _
  refine Prog.ends_bind.mpr (.inr ⟨_, ?_, rfl⟩)
  rw [ReadCommitted.whenever, if_pos hmode]
  unfold assembleMissing
  refine Prog.ends_bind.mpr (.inl ⟨_, _, Prog.ends_op.mpr ⟨{}, _, trivial, rfl, rfl⟩, ?_⟩)
  rw [u.files_blob, hprepared.partsDir_eq]
  show Prog.Ends _ _ _ (assembleBlob req.blobRef (req.blobRef ++ ".parts") req.numbers) _ _ _
  unfold assembleBlob
  refine Prog.ends_bind.mpr (.inl ⟨_, _, Prog.ends_of_eval hcalm hread, ?_⟩)
  refine Prog.ends_bind.mpr (.inr ⟨_, ?_, rfl⟩)
  -- nothing is left of the write
  have hwrite : machine.exec 0 { error := some why }
      (.write req.blobRef (joined u.content req.numbers)) (u.files req.blobRef) =
        some (.error why, u.files req.blobRef) := by
    show some (Except.error why, Function.update (u.files req.blobRef) req.blobRef
      (u.files req.blobRef req.blobRef)) = _
    rw [Function.update_eq_self]
  exact Prog.ends_bind.mpr (.inl ⟨_, _, Prog.ends_op.mpr ⟨_, _, .inl ⟨rfl, rfl⟩, hwrite, rfl⟩,
    .fail _ _⟩)

end LocalFs

/-! ## The store in memory -/

namespace MemoryBlobs

variable {sha256 : List UInt8 → String} {s : State} {req : CompleteBlobUpload}
  {parts : Nat → Option (List UInt8)} {content : Nat → List UInt8} {numbers : List Nat}

/-- All the parts are there, -/
theorem assemble_eq (h : ∀ n ∈ numbers, parts n = some (content n)) :
    assemble parts numbers = some (numbers.flatMap content) := by
  induction numbers with
  | nil => rfl
  | cons n numbers ih =>
    unfold assemble
    rw [h n (List.mem_cons_self ..), ih fun m hm => h m (List.mem_cons_of_mem _ hm)]
    rfl

/-- or one is missing. -/
theorem assemble_eq_none (h : ∃ n ∈ numbers, parts n = none) : assemble parts numbers = none := by
  induction numbers with
  | nil =>
    obtain ⟨n, hn, _⟩ := h
    cases hn
  | cons n numbers ih =>
    unfold assemble
    cases hpart : parts n with
    | none => rfl
    | some bytes =>
      obtain ⟨m, hm, hmissing⟩ := h
      have hmem : m ∈ numbers := by
        rcases List.mem_cons.mp hm with rfl | hm
        · rw [hpart] at hmissing
          cases hmissing
        · exact hm
      rw [ih ⟨m, hmem, hmissing⟩]
      rfl

/-- The state without the parts of the blob. -/
def State.dropParts (s : State) (blobRef : String) : State :=
  { s with parts := Function.update s.parts blobRef none }

/-- A blob that is there is described. -/
theorem ensure_present {bytes : List UInt8} (h : s.blobs req.blobRef = some bytes) :
    ensureUploadCompleted sha256 req s = some (.ok (statOf sha256 bytes), s) := by
  unfold ensureUploadCompleted
  rw [Locked.bind_eq, Locked.read_bind, h]
  show (Locked.read _ >>= _ : Call BlobStat) s = _
  rw [Locked.bind_eq, Locked.read_bind, h]
  rfl

/-- A single upload that was not made is not ready, -/
theorem ensure_single (h : s.blobs req.blobRef = none) (hmode : req.mode ≠ .multipart) :
    ensureUploadCompleted sha256 req s = some (.error .contentNotReady, s) := by
  unfold ensureUploadCompleted
  rw [Locked.bind_eq, Locked.read_bind, h, if_neg fun hand => hmode hand.2]
  show (Locked.read _ >>= _ : Call BlobStat) s = _
  rw [Locked.bind_eq, Locked.read_bind, h]
  rfl

/-- nor is one in parts that has none. -/
theorem ensure_no_parts (h : s.blobs req.blobRef = none) (hmode : req.mode = .multipart)
    (hparts : s.parts req.blobRef = none) :
    ensureUploadCompleted sha256 req s = some (.error .contentNotReady, s) := by
  have hsame : s.dropParts req.blobRef = s := by
    unfold State.dropParts
    rw [← hparts, Function.update_eq_self]
  unfold ensureUploadCompleted
  rw [Locked.bind_eq, Locked.read_bind, h, if_pos ⟨rfl, hmode⟩, Locked.bind_eq,
    Locked.change_bind, hparts]
  exact congrArg (fun s => some (Except.error DomainError.contentNotReady, s)) hsame

/-- The parts are gone before a missing one is found out. -/
theorem ensure_missing (h : s.blobs req.blobRef = none) (hmode : req.mode = .multipart)
    (hparts : s.parts req.blobRef = some parts) (hmissing : ∃ n ∈ req.numbers, parts n = none) :
    ensureUploadCompleted sha256 req s =
      some (.error .contentNotReady, s.dropParts req.blobRef) := by
  unfold ensureUploadCompleted
  rw [Locked.bind_eq, Locked.read_bind, h, if_pos ⟨rfl, hmode⟩, Locked.bind_eq,
    Locked.change_bind, hparts]
  show (Locked.orFail _ (assemble parts req.numbers) >>= _ : Call BlobStat) _ = _
  rw [assemble_eq_none hmissing]
  rfl

/-- The parts become the blob, in the order in which they are named. -/
theorem ensure_assembles (h : s.blobs req.blobRef = none) (hmode : req.mode = .multipart)
    (hparts : s.parts req.blobRef = some parts)
    (hnamed : ∀ n ∈ req.numbers, parts n = some (content n)) :
    ∃ s', ensureUploadCompleted sha256 req s =
      some (.ok (statOf sha256 (req.numbers.flatMap content)), s') ∧
      s'.blobs req.blobRef = some (req.numbers.flatMap content) := by
  let s' : State := { s.dropParts req.blobRef with
    blobs := Function.update s.blobs req.blobRef (some (req.numbers.flatMap content)) }
  have hblob : s'.blobs req.blobRef = some (req.numbers.flatMap content) := Function.update_self ..
  refine ⟨s', ?_, hblob⟩
  unfold ensureUploadCompleted
  rw [Locked.bind_eq, Locked.read_bind, h, if_pos ⟨rfl, hmode⟩, Locked.bind_eq,
    Locked.change_bind, hparts]
  show (Locked.orFail _ (assemble parts req.numbers) >>= _ : Call BlobStat) _ = _
  rw [assemble_eq hnamed]
  show (Locked.orFail _ ((s'.blobs req.blobRef).map _) : Call BlobStat) s' = _
  rw [hblob]
  rfl

end MemoryBlobs

/-! ## The request to COS -/

namespace Cos

/-- The completion document that lists parts in this order. -/
def completionXml (listed : List CompletedPart) : String :=
  "<CompleteMultipartUpload>" ++ String.join (listed.map partXml) ++ "</CompleteMultipartUpload>"

/-- A text that grows is the text of its pieces. -/
theorem foldl_append_join {α : Type} (f : α → String) (l : List α) (start : String) :
    l.foldl (fun text a => text ++ f a) start = start ++ String.join (l.map f) := by
  induction l generalizing start with
  | nil => simp [String.join]
  | cons a l ih => rw [List.foldl_cons, ih, List.map_cons, String.join_cons, String.append_assoc]

/-- The order by part numbers composes, -/
theorem partNumber_trans (a b c : CompletedPart) : decide (a.partNumber ≤ b.partNumber) = true →
    decide (b.partNumber ≤ c.partNumber) = true → decide (a.partNumber ≤ c.partNumber) = true := by
  simp only [decide_eq_true_eq]
  omega

/-- and compares any two. -/
theorem partNumber_total (a b : CompletedPart) :
    (decide (a.partNumber ≤ b.partNumber) || decide (b.partNumber ≤ a.partNumber)) = true := by
  simp only [Bool.or_eq_true, decide_eq_true_eq]
  omega

def inOrder (parts : List CompletedPart) : List CompletedPart :=
  parts.mergeSort (·.partNumber ≤ ·.partNumber)

/-- Sorted, there are the same parts, -/
theorem inOrder_perm (parts : List CompletedPart) : (inOrder parts).Perm parts :=
  List.mergeSort_perm _ _

/-- in ascending order. -/
theorem inOrder_pairwise (parts : List CompletedPart) :
    (inOrder parts).Pairwise (·.partNumber ≤ ·.partNumber) := by
  unfold inOrder
  simpa only [decide_eq_true_eq] using
    List.pairwise_mergeSort partNumber_trans partNumber_total parts

/-- The body lists the sorted parts, -/
theorem completeMultipartBody_inOrder (parts : List CompletedPart) :
    completeMultipartBody parts = completionXml (inOrder parts) := by
  show List.foldl (fun xml part => xml ++ partXml part) _ _ ++ _ = _
  rw [foldl_append_join]
  rfl

/-- so it is one of the same parts in ascending order. -/
theorem completeMultipartBody_eq (parts : List CompletedPart) :
    ∃ listed, listed.Perm parts ∧ listed.Pairwise (·.partNumber ≤ ·.partNumber) ∧
      completeMultipartBody parts = completionXml listed :=
  ⟨inOrder parts, inOrder_perm parts, inOrder_pairwise parts, completeMultipartBody_inOrder parts⟩

end Cos

end AnyStore

import AnyStore.Lib.Effects
import AnyStore.Model.LocalFiles

/-!
# Files stay below the root

Every path that the local store or its transport reads, writes or removes has
passed `safe_join`, or is one that it would let pass, and what passes leads
strictly below the root.

## Results

* `paths_confined`: an accepted path is strictly below the root, component by
  component, and every operation on files is on such a path. Directories are also
  made at the root itself, when the parent of a path is empty.

## Assumptions

None: every request of the store and its transport, every answer of the file
system. Symbolic links are no part of the model of paths.
-/

namespace AnyStore.LocalFs

open ReadCommitted (require whenever)

variable {relative path dir : String}

/-! ## What passes -/

/-- A piece of a path that passes. -/
structure IsPlain (piece : List Char) : Prop extends Posix.IsEntry piece where
  backslash : Char.ofNat 0x5C ∉ piece
  nul : Char.ofNat 0 ∉ piece

/-- What `safe_join` checks of a path, piece by piece. -/
theorem isSafe_iff : isSafe path = true ↔ path.toList ≠ [] ∧ path.toList.head? ≠ some '/' ∧
    ∀ piece ∈ path.toList.splitOn '/', IsPlain piece := by
  unfold isSafe
  simp only [Bool.and_eq_true, decide_eq_true_eq, List.all_eq_true, Bool.not_eq_true',
    ← Bool.not_eq_true, List.contains_iff_mem, and_assoc]
  constructor
  · rintro ⟨hempty, hhead, hall⟩
    refine ⟨hempty, hhead, ?_⟩
    intro piece hpiece
    obtain ⟨h₁, h₂, h₃, h₄, h₅⟩ := hall piece hpiece
    exact ⟨⟨h₁, h₂, h₃⟩, h₄, h₅⟩
  · rintro ⟨hempty, hhead, hall⟩
    refine ⟨hempty, hhead, ?_⟩
    intro piece hpiece
    have h := hall piece hpiece
    exact ⟨h.nonempty, h.dot, h.dots, h.backslash, h.nul⟩

/-- It accepts a path as it is. -/
theorem safeJoin_ok : safeJoin relative = .ok path ↔ isSafe relative = true ∧ path = relative := by
  unfold safeJoin
  by_cases h : isSafe relative = true
  · rw [if_pos h]
    simp [h, eq_comm]
  · rw [if_neg h]
    simp [h]

/-- No piece of an accepted path leads up, and the first one is not empty. -/
theorem below_root (root : String) (h : isSafe relative = true) :
    Posix.Below root.toList (underRoot root relative).toList := by
  obtain ⟨_, hhead, hplain⟩ := isSafe_iff.mp h
  unfold underRoot
  rw [String.toList_ofList]
  refine Posix.below_join ?_ fun piece hpiece => (hplain piece hpiece).toIsEntry
  unfold Posix.isAbsolute
  exact decide_eq_false hhead

/-- The path of a part passes as its directory does. -/
theorem isSafe_partPath (h : isSafe dir = true) (number : Nat) :
    isSafe (partPath dir number) = true := by
  obtain ⟨hempty, hhead, hplain⟩ := isSafe_iff.mp h
  have hdigits : ∀ c ∈ (toString number).toList, c.isDigit = true := by
    intro c hc
    rw [Nat.toString_eq_ofList_toDigits, String.toList_ofList] at hc
    exact Nat.isDigit_of_mem_toDigits (by omega) (by omega) hc
  have hne : (toString number).toList ≠ [] := by
    rw [Nat.toString_eq_ofList_toDigits, String.toList_ofList]
    exact Nat.toDigits_ne_nil
  -- a numeral has none of the characters that are refused
  have hno : ∀ c, c.isDigit = false → c ∉ (toString number).toList := by
    intro c hc hmem
    rw [hdigits c hmem] at hc
    cases hc
  -- the number is one more piece behind those of the directory
  have hchars : (partPath dir number).toList = dir.toList ++ '/' :: (toString number).toList := by
    unfold partPath
    rw [String.toList_append, String.toList_append, List.append_assoc]
    rfl
  rw [isSafe_iff, hchars]
  refine ⟨by simp [hempty], ?_, ?_⟩
  · obtain ⟨c, rest, hc⟩ := List.exists_cons_of_ne_nil hempty
    rw [hc] at hhead ⊢
    exact hhead
  · intro piece hpiece
    rw [List.splitOn_append_cons_self, List.splitOn_eq_singleton (hno '/' (by decide)),
      List.mem_append, List.mem_singleton] at hpiece
    rcases hpiece with hpiece | rfl
    · exact hplain piece hpiece
    · have hdot : '.' ∉ (toString number).toList := hno '.' (by decide)
      refine ⟨⟨hne, ?_, ?_⟩, hno _ (by decide), hno _ (by decide)⟩
      · intro heq
        exact hdot (heq ▸ List.mem_singleton_self _)
      · intro heq
        exact hdot (heq ▸ List.mem_cons_self ..)

/-- So does the path one step up, unless that is the root. -/
theorem isSafe_parent (h : isSafe path = true) : parent path = "" ∨ isSafe (parent path) = true := by
  obtain ⟨hempty, hhead, hplain⟩ := isSafe_iff.mp h
  by_cases hslash : '/' ∈ path.toList.reverse
  · obtain ⟨last, front, hreverse, hlast⟩ := List.eq_append_cons_of_mem hslash
    have hpath : path.toList = front.reverse ++ '/' :: last.reverse := by
      rw [← List.reverse_reverse path.toList, hreverse]
      simp
    -- what is left are the pieces but the last
    have hparent : (parent path).toList = front.reverse := by
      unfold parent
      rw [hreverse, String.toList_ofList, List.dropWhile_append_of_pos]
      · rfl
      · intro c hc
        have hne : c ≠ '/' := by
          rintro rfl
          exact hlast hc
        exact decide_eq_true hne
    rw [hpath] at hhead hplain
    rw [isSafe_iff, hparent]
    cases hfront : front.reverse with
    | nil =>
      rw [hfront] at hhead
      exact absurd rfl hhead
    | cons c rest =>
      rw [hfront] at hhead hplain
      refine .inr ⟨List.cons_ne_nil _ _, hhead, ?_⟩
      intro piece hpiece
      refine hplain piece ?_
      rw [List.splitOn_append_cons_self]
      exact List.mem_append_left _ hpiece
  · -- without a slash nothing is left
    left
    unfold parent
    have hall : path.toList.reverse.dropWhile (· ≠ '/') = [] := by
      rw [List.dropWhile_eq_nil_iff]
      intro c hc
      have hne : c ≠ '/' := by
        rintro rfl
        exact hslash hc
      exact decide_eq_true hne
    rw [hall]
    rfl

/-! ## What is touched -/

/-- The operation makes a directory with all that lead to it. -/
def FsOp.makesDirectory : ∀ {β : Type}, FsOp β → Bool
  | _, .createDirAll _ => true
  | _, _ => false

/-- The path passes `safe_join`; directories are also made at the root itself. -/
def FsOp.Checked {β : Type} (op : FsOp β) : Prop :=
  isSafe op.path = true ∨ op.makesDirectory = true ∧ op.path = ""

section Programs

variable {sha256 : List UInt8 → String} {α : Type} {what : String}

/-- The program touches nothing else. -/
abbrev Confined (p : Proc α) : Prop := p.Only fun op => op.Checked

/-- An operation whose failure becomes a storage error. -/
theorem confined_orStorage {op : FsOp (Except String α)} (h : op.Checked) :
    Confined (orStorage what op) := by
  refine Prog.Only.bind (Prog.only_op h) ?_
  intro r
  cases r with
  | ok a => trivial
  | error e => trivial

/-- What is done with a path that passes. -/
theorem confined_safeJoin {f : String → Proc α} (h : isSafe relative = true → Confined (f relative)) :
    Confined (Prog.ofExcept (safeJoin relative) >>= f) := by
  refine Prog.only_ofExcept_bind ?_
  intro path hpath
  obtain ⟨hsafe, rfl⟩ := safeJoin_ok.mp hpath
  exact h hsafe

/-- A check touches nothing. -/
theorem confined_require {c : Prop} [Decidable c] (e : DomainError) :
    Confined (require c e : Proc Unit) := by
  unfold require
  split
  · trivial
  · trivial

/-- The blob of an accepted path is looked up. -/
theorem confined_stat (blobRef : String) : Confined (stat sha256 blobRef) := by
  refine confined_safeJoin fun hsafe => ?_
  refine Prog.Only.bind (Prog.only_op (.inl hsafe)) fun found => ?_
  refine Prog.Only.bind (confined_require _) fun _ => ?_
  refine Prog.Only.bind (confined_orStorage (.inl hsafe)) fun _ => ?_
  exact Prog.Only.bind (confined_orStorage (.inl hsafe)) fun _ => trivial

/-- The parts are read. -/
theorem confined_assemble (hdir : isSafe dir = true) (numbers : List Nat) :
    Confined (assemble dir numbers) := by
  induction numbers with
  | nil => trivial
  | cons number numbers ih =>
    refine Prog.Only.bind (confined_orStorage (.inl (isSafe_partPath hdir number))) fun bytes => ?_
    exact Prog.Only.bind ih fun _ => trivial

/-- The parts are read, the blob is written, and the directory of the parts removed. -/
theorem confined_assembleMissing (req : CompleteBlobUpload) (hpath : isSafe path = true) :
    Confined (assembleMissing req path) := by
  refine Prog.Only.bind (Prog.only_op (.inl hpath)) fun found => ?_
  cases found with
  | true => trivial
  | false =>
    refine confined_safeJoin fun hdir => ?_
    refine Prog.Only.bind (confined_assemble hdir _) fun bytes => ?_
    refine Prog.Only.bind (confined_orStorage (.inl hpath)) fun _ => ?_
    exact Prog.only_op (.inl hdir)

/-- Completing assembles the blob if it is missing, and looks it up. -/
theorem confined_ensureUploadCompleted (req : CompleteBlobUpload) :
    Confined (ensureUploadCompleted sha256 req) := by
  refine confined_safeJoin fun hsafe => ?_
  refine Prog.Only.bind ?_ fun _ => ?_
  · -- only a multipart upload has parts
    unfold whenever
    split
    · exact confined_assembleMissing req hsafe
    · trivial
  · refine Prog.Only.bind (Prog.only_op (.inl hsafe)) fun found => ?_
    exact Prog.Only.bind (confined_require _) fun _ => confined_stat _

/-- Aborting removes the directory of the parts. -/
theorem confined_abortUpload (blobRef : String) : Confined (abortUpload blobRef) :=
  confined_safeJoin fun hdir => Prog.only_op (.inl hdir)

/-- Deleting removes the blob. -/
theorem confined_deleteBlob (blobRef : String) : Confined (deleteBlob blobRef) := by
  refine confined_safeJoin fun hsafe => ?_
  refine Prog.Only.bind (Prog.only_op (.inl hsafe)) fun r => ?_
  cases r with
  | ok u => trivial
  | error e =>
    show Confined (if e = noSuchFile then _ else _ : Proc Unit)
    split
    · trivial
    · trivial

variable {hmac : List UInt8 → List UInt8 → List UInt8} {store : Store} {now : Int}

/-- The directory that a file lies in. -/
theorem checked_parent (h : isSafe path = true) : (FsOp.createDirAll (parent path)).Checked := by
  rcases isSafe_parent h with hroot | hsafe
  · exact .inr ⟨rfl, hroot⟩
  · exact .inl hsafe

/-- Preparing makes the directory of the blob, and that of the parts. -/
theorem confined_prepareUpload (uploadId : UploadId) (mode : UploadMode) (partSize expiresIn : Nat) :
    Confined (prepareUpload hmac store uploadId mode partSize now expiresIn) := by
  refine confined_safeJoin fun hsafe => ?_
  refine Prog.Only.bind (confined_orStorage (checked_parent hsafe)) fun _ => ?_
  cases mode with
  | single => trivial
  | multipart =>
    refine confined_safeJoin fun hdir => ?_
    exact Prog.Only.bind (confined_orStorage (.inl hdir)) fun _ => trivial

/-- The transport writes a file. -/
theorem confined_upload (path : String) (query : Option String) (body : List UInt8) :
    Confined (upload hmac store now path query body) := by
  unfold upload
  cases checkSignature hmac store now "PUT" path query with
  | error response => trivial
  | ok filename =>
    -- a signed path is checked like any other
    cases hjoin : safeJoin path with
    | error e => trivial
    | ok target =>
      obtain ⟨hsafe, rfl⟩ := safeJoin_ok.mp hjoin
      refine Prog.Only.bind (Prog.only_op (checked_parent hsafe)) fun made => ?_
      cases made with
      | error e => trivial
      | ok u =>
        refine Prog.Only.bind (Prog.only_op (.inl hsafe)) fun written => ?_
        cases written with
        | error e => trivial
        | ok u => trivial

/-- The transport reads a file. -/
theorem confined_download (path : String) (query : Option String) :
    Confined (download hmac store now path query) := by
  unfold download
  cases checkSignature hmac store now "GET" path query with
  | error response => trivial
  | ok filename =>
    cases hjoin : safeJoin path with
    | error e => trivial
    | ok target =>
      obtain ⟨hsafe, rfl⟩ := safeJoin_ok.mp hjoin
      refine Prog.Only.bind (Prog.only_op (.inl hsafe)) fun r => ?_
      cases r with
      | error e => trivial
      | ok bytes => trivial

/-- Every request of the store and of its transport. -/
theorem confined_serveFile (req : FileRequest) : Confined (serveFile hmac store sha256 now req) := by
  have hdone : ∀ {β : Type} {p : Proc β}, Confined p → Confined (p >>= fun _ => return ()) :=
    fun hp => Prog.Only.bind hp fun _ => trivial
  cases req with
  | prepareUpload uploadId mode partSize expiresIn => exact hdone (confined_prepareUpload ..)
  | ensureUploadCompleted req => exact hdone (confined_ensureUploadCompleted req)
  | abortUpload blobRef => exact confined_abortUpload blobRef
  | stat blobRef => exact hdone (confined_stat blobRef)
  | deleteBlob blobRef => exact confined_deleteBlob blobRef
  | upload path query body => exact hdone (confined_upload path query body)
  | download path query => exact hdone (confined_download path query)

end Programs

/-- What `safe_join` lets pass leads strictly below the root, and nothing else
is touched; directories are also made at the root itself. -/
theorem paths_confined (root : String) :
    (∀ relative path, safeJoinAt root relative = .ok path →
      Posix.Below root.toList path.toList) ∧
    (∀ hmac store sha256 now req, (serveFile hmac store sha256 now req).Only fun op =>
      (∃ path, safeJoinAt root op.path = .ok path ∧ Posix.Below root.toList path.toList) ∨
        op.makesDirectory = true ∧ op.path = "") := by
  -- in the model paths are relative; the root is put in front of them
  have hbelow : ∀ relative, isSafe relative = true →
      safeJoinAt root relative = .ok (underRoot root relative) := by
    intro relative h
    unfold safeJoinAt
    rw [safeJoin_ok.mpr ⟨h, rfl⟩]
    rfl
  constructor
  · intro relative path h
    unfold safeJoinAt at h
    cases hjoin : safeJoin relative with
    | error e =>
      rw [hjoin] at h
      cases h
    | ok target =>
      rw [hjoin] at h
      obtain ⟨hsafe, rfl⟩ := safeJoin_ok.mp hjoin
      cases h
      exact below_root root hsafe
  · intro hmac store sha256 now req
    refine (confined_serveFile req).mono ?_
    rintro β op (hsafe | hroot)
    · exact .inl ⟨_, hbelow _ hsafe, below_root root hsafe⟩
    · exact .inr hroot

/-- The blob of an upload, below a root that ends in a slash and has a blank in it. -/
theorem paths_confined_tmp : Posix.Below "/tmp/any store/".toList "/tmp/any store/blobs/u".toList := by
  refine (paths_confined "/tmp/any store/").1 "blobs/u" _ ?_
  decide

end AnyStore.LocalFs

import Mathlib.Data.List.Basic

/-!
# File paths

Paths of a POSIX system as lists of characters. `join` is how a path below a
directory is written, `resolve` goes through the pieces of a path from left to
right without looking at the file system: empty pieces and single dots stay
where they are, two dots go up. `Below` says that a path leads to something
strictly below a directory; joining a relative path without dot segments does
(`below_join`).
-/

namespace Posix

/-- It starts with a slash. -/
def isAbsolute (path : List Char) : Bool := path.head? = some '/'

/-- `Path::join`. -/
def join (dir path : List Char) : List Char :=
  if isAbsolute path then path
  else if dir = [] ∨ dir.getLast? = some '/' then dir ++ path
  else dir ++ '/' :: path

/-- One piece of a path; the names so far are in reverse order. -/
def step (absolute : Bool) (names : List (List Char)) (piece : List Char) : List (List Char) :=
  if piece = [] ∨ piece = ['.'] then names
  else if piece = ['.', '.'] then
    match names with
    -- above the root is the root
    | [] => if absolute then [] else [piece]
    | top :: rest => if top = ['.', '.'] then piece :: names else rest
  else piece :: names

/-- The names on the way from the root or from the working directory. -/
def resolve (path : List Char) : List (List Char) :=
  ((path.splitOn '/').foldl (step (isAbsolute path)) []).reverse

/-- A piece that names an entry of a directory. -/
structure IsEntry (piece : List Char) : Prop where
  nonempty : piece ≠ []
  dot : piece ≠ ['.']
  dots : piece ≠ ['.', '.']

/-- From the directory the path goes down, and at least once. -/
structure Below (dir path : List Char) : Prop where
  anchor : isAbsolute path = isAbsolute dir
  down : ∃ names, names ≠ [] ∧ (∀ name ∈ names, IsEntry name) ∧ resolve path = resolve dir ++ names

variable {absolute : Bool} {names pieces : List (List Char)} {dir path : List Char}

/-- Names of entries are taken as they are. -/
theorem foldl_entries (h : ∀ piece ∈ pieces, IsEntry piece) :
    pieces.foldl (step absolute) names = pieces.reverse ++ names := by
  induction pieces generalizing names with
  | nil => rfl
  | cons piece pieces ih =>
    obtain ⟨hempty, hdot, hdots⟩ := h piece (List.mem_cons_self ..)
    have hstep : step absolute names piece = piece :: names := by
      unfold step
      rw [if_neg (not_or.mpr ⟨hempty, hdot⟩), if_neg hdots]
    rw [List.foldl_cons, hstep, ih fun p hp => h p (List.mem_cons_of_mem _ hp), List.reverse_cons,
      List.append_assoc, List.singleton_append]

/-- A slash between two paths, whether or not the first ends in one. -/
theorem splitOn_join (h : isAbsolute path = false) :
    ∃ front, (join dir path).splitOn '/' = front ++ path.splitOn '/' ∧
      front.foldl (step (isAbsolute dir)) [] = (dir.splitOn '/').foldl (step (isAbsolute dir)) [] := by
  unfold join
  rw [if_neg (by rw [h]; decide)]
  by_cases hempty : dir = []
  · subst hempty
    exact ⟨[], by simp, rfl⟩
  by_cases hlast : dir.getLast? = some '/'
  · rw [if_pos (.inr hlast)]
    -- the slash is there already
    obtain ⟨front, rfl⟩ := List.getLast?_eq_some_iff.mp hlast
    refine ⟨front.splitOn '/', ?_, ?_⟩
    · rw [List.append_assoc, List.singleton_append, List.splitOn_append_cons_self]
    · rw [List.splitOn_append_cons_self, List.foldl_append]
      rfl
  · rw [if_neg (not_or.mpr ⟨hempty, hlast⟩)]
    exact ⟨dir.splitOn '/', List.splitOn_append_cons_self .., rfl⟩

/-- A relative path is as absolute as its directory. -/
theorem isAbsolute_join (h : isAbsolute path = false) : isAbsolute (join dir path) = isAbsolute dir := by
  unfold join
  rw [if_neg (by rw [h]; decide)]
  cases dir with
  | nil => exact h
  | cons c dir =>
    split
    · rfl
    · rfl

/-- Joining a path that only names entries goes down. -/
theorem below_join (h : isAbsolute path = false) (hentries : ∀ piece ∈ path.splitOn '/', IsEntry piece) :
    Below dir (join dir path) := by
  refine ⟨isAbsolute_join h, path.splitOn '/', ?_, hentries, ?_⟩
  · exact List.splitOn_ne_nil '/' path
  · obtain ⟨front, hsplit, hfront⟩ := @splitOn_join dir path h
    unfold resolve
    rw [isAbsolute_join h, hsplit, List.foldl_append, hfront, foldl_entries hentries,
      List.reverse_append, List.reverse_reverse]

end Posix

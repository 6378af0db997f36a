import AnyStore.Model.Paths

/-!
# The grammar of paths

A path is a slash and then names, with any number of slashes between, before
and after them.

## Results

* `path_grammar`: which texts are paths; the names of a path are found again in
  the path that is rendered from them; a path is rendered again from its names, up
  to repeated slashes.

## Assumptions

None: every text, and every list of valid names.
-/

namespace AnyStore

variable {debug : String → String} {name path : String} {names segments : List String}

/-! ## Names -/

/-- What a name is. -/
structure IsName (name : String) : Prop where
  nonempty : name ≠ ""
  separator : '/' ∉ name.toList
  nul : '\x00' ∉ name.toList

/-- What passes the check is a name. -/
theorem IsName.of_validateName (h : validateName name = .ok ()) : IsName name := by
  unfold validateName at h
  split at h
  · cases h
  next hempty =>
  split at h
  · cases h
  split at h
  · cases h
  next hslash =>
  split at h
  · cases h
  next hnul =>
  refine ⟨?_, hslash, hnul⟩
  rintro rfl
  exact hempty rfl

/-! ## Splitting -/

/-- The pieces of a path that are not empty. -/
def segmentsOf (path : String) : List String := (pieces '/' path).filter fun piece => !piece.isEmpty

/-- The loop succeeds if and only if every piece passes. -/
theorem collectSegments_ok {rest : List String} :
    collectSegments debug rest segments = .ok names ↔
      (∀ piece ∈ rest.filter fun piece => !piece.isEmpty, validateName piece = .ok ()) ∧
        names = segments ++ rest.filter fun piece => !piece.isEmpty := by
  induction rest generalizing segments with
  | nil => simp [collectSegments, eq_comm]
  | cons raw rest ih =>
    unfold collectSegments
    -- an empty piece is skipped, another one is checked
    cases hempty : raw.isEmpty with
    | true =>
      rw [if_pos rfl, ih, List.filter_cons_of_neg (by rw [hempty]; decide)]
    | false =>
      rw [if_neg (by decide), List.filter_cons_of_pos (by rw [hempty]; rfl), List.forall_mem_cons]
      cases hname : validateName raw with
      | error e => simp
      | ok u =>
        show collectSegments debug rest (segments ++ [raw]) = _ ↔ _
        rw [ih, List.append_assoc, List.singleton_append]
        simp

/-- **Paths.** A slash in front, no U+0000, and names for pieces. -/
theorem splitPath_ok : splitPath debug path = .ok segments ↔
    path.toList.head? = some '/' ∧ '\x00' ∉ path.toList ∧
      (∀ segment ∈ segmentsOf path, validateName segment = .ok ()) ∧ segments = segmentsOf path := by
  unfold splitPath
  by_cases hhead : path.toList.head? = some '/'
  · rw [if_neg (not_not.mpr hhead)]
    by_cases hnul : '\x00' ∈ path.toList
    · rw [if_pos hnul]
      simp [hnul]
    · rw [if_neg hnul, collectSegments_ok, List.nil_append]
      exact ⟨fun h => ⟨hhead, hnul, h.1, h.2⟩, fun h => ⟨h.2.2.1, h.2.2.2⟩⟩
  · rw [if_pos hhead]
    simp [hhead]

/-! ## Rendering -/

/-- The loop puts a slash in front of every name. -/
theorem foldl_segments (out : String) : (segments.foldl (fun out segment => out ++ "/" ++ segment)
    out).toList = out.toList ++ segments.flatMap fun segment => '/' :: segment.toList := by
  induction segments generalizing out with
  | nil => simp
  | cons segment segments ih =>
    rw [List.foldl_cons, ih, String.toList_append, String.toList_append, List.flatMap_cons]
    simp [List.append_assoc]

/-- So do slashes between the pieces, behind the first one. -/
theorem intercalate_slash (front : List Char) : ['/'].intercalate (front :: segments.map String.toList) =
    front ++ segments.flatMap fun segment => '/' :: segment.toList := by
  induction segments generalizing front with
  | nil => simp [List.intercalate]
  | cons segment segments ih =>
    rw [List.map_cons, List.intercalate_cons_cons, ih, List.flatMap_cons]
    simp

/-- The rendered path of some names is an empty piece and the names, with
slashes between them. -/
theorem toList_renderPath (h : segments ≠ []) :
    (renderPath segments).toList = ['/'].intercalate ([] :: segments.map String.toList) := by
  unfold renderPath
  rw [if_neg h, foldl_segments, intercalate_slash]
  rfl

/-- A name has no slash, so the rendered path falls apart into its names. -/
theorem pieces_renderPath (h : segments ≠ []) (hnames : ∀ segment ∈ segments, IsName segment) :
    pieces '/' (renderPath segments) = "" :: segments := by
  unfold pieces
  rw [toList_renderPath h, List.splitOn_intercalate '/' ?_ (List.cons_ne_nil _ _), List.map_cons,
    List.map_map]
  · show "" :: segments.map (fun segment => String.ofList segment.toList) = _
    simp
  · intro piece hpiece
    rcases List.mem_cons.mp hpiece with rfl | hpiece
    · exact List.not_mem_nil
    · obtain ⟨segment, hsegment, rfl⟩ := List.mem_map.mp hpiece
      exact (hnames segment hsegment).separator

/-- The names of a rendered path. -/
theorem segmentsOf_renderPath (hnames : ∀ segment ∈ segments, IsName segment) :
    segmentsOf (renderPath segments) = segments := by
  by_cases h : segments = []
  · subst h
    decide
  · unfold segmentsOf
    rw [pieces_renderPath h hnames, List.filter_cons_of_neg (by decide), List.filter_eq_self]
    intro segment hsegment
    have hne := (hnames segment hsegment).nonempty
    simpa using hne

/-- It begins with a slash, -/
theorem renderPath_head : (renderPath segments).toList.head? = some '/' := by
  by_cases h : segments = []
  · subst h
    rfl
  · obtain ⟨segment, rest, rfl⟩ := List.exists_cons_of_ne_nil h
    unfold renderPath
    rw [if_neg h, foldl_segments, List.flatMap_cons]
    rfl

/-- and has no U+0000. -/
theorem renderPath_nul (hnames : ∀ segment ∈ segments, IsName segment) :
    '\x00' ∉ (renderPath segments).toList := by
  by_cases h : segments = []
  · subst h
    decide
  · unfold renderPath
    rw [if_neg h, foldl_segments]
    intro hmem
    obtain ⟨segment, hsegment, hmem⟩ := List.mem_flatMap.mp hmem
    rcases List.mem_cons.mp hmem with hslash | hmem
    · exact absurd hslash (by decide)
    · exact (hnames segment hsegment).nul hmem

/-- **Round trip.** Names are found again. -/
theorem splitPath_renderPath (hnames : ∀ segment ∈ segments, validateName segment = .ok ()) :
    splitPath debug (renderPath segments) = .ok segments := by
  have hnames' : ∀ segment ∈ segments, IsName segment :=
    fun segment hsegment => .of_validateName (hnames segment hsegment)
  rw [splitPath_ok, segmentsOf_renderPath hnames']
  exact ⟨renderPath_head, renderPath_nul hnames', hnames, rfl⟩

/-- Exactly the texts that begin with a slash and whose pieces are names are
paths; a path is rendered again from its names, up to repeated slashes. -/
theorem path_grammar (debug : String → String) :
    (∀ path segments, splitPath debug path = .ok segments ↔
      path.toList.head? = some '/' ∧ '\x00' ∉ path.toList ∧
        (∀ segment ∈ segmentsOf path, validateName segment = .ok ()) ∧
          segments = segmentsOf path) ∧
    (∀ names, (∀ name ∈ names, validateName name = .ok ()) →
      splitPath debug (renderPath names) = .ok names) ∧
    (∀ path segments, splitPath debug path = .ok segments →
      splitPath debug (renderPath segments) = .ok segments) := by
  refine ⟨fun path segments => splitPath_ok, fun names => splitPath_renderPath, ?_⟩
  intro path segments h
  obtain ⟨_, _, hnames, rfl⟩ := splitPath_ok.mp h
  exact splitPath_renderPath hnames

/-- Two names, one below the other. -/
theorem path_grammar_nested : splitPath id "/a/b" = .ok ["a", "b"] := by
  have hnames : ∀ name ∈ ["a", "b"], validateName name = .ok () := by decide
  have hpath : renderPath ["a", "b"] = "/a/b" := by decide
  rw [← hpath]
  exact (path_grammar id).2.1 ["a", "b"] hnames

example : splitPath id "//a//b/" = .ok ["a", "b"] := by decide

end AnyStore

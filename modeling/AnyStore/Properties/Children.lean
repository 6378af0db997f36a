import AnyStore.Properties.MemoryListing
import AnyStore.Refinement.Numerals

/-!
# The children of a folder

A page of `list_children` is the one of the sort keys, whatever has become of
the object that its cursor names: the cursor carries the sort key as a text, and
both adapters read it back as the value that the database ordered by.

## Results

* `list_children_complete` — a client that follows the cursors of a listing gets
  every child that stays under its sort key once and in order.
* `listings_agree` — from one state, both adapters answer a listing alike.

## Assumptions

Both are about folders whose children the adapter can list at all
(`ListChildren.Fetchable`): names and ids are texts, their instants are in the
range that RFC 3339 and PostgreSQL share, and their metadata can be parsed. What
is returned has its metadata as it was parsed (`ListChildren.Shown`).
-/

namespace AnyStore

open Keyset

variable {T : Texts} {W : WireTimes} {q : ListChildren}

/-! ## Numbers in cursors -/

/-- A printed number comes back. -/
theorem parseI64_toString {n : Int} (hlow : -(2 ^ 63) ≤ n) (hhigh : n < 2 ^ 63) :
    parseI64 (Utf8.encode (toString n)) = some n := parseI64_print hlow hhigh

/-- The sizes that a listing sorts by are bigints. -/
theorem ObjectRow.sizeKey_range (o : ObjectRow) : -(2 ^ 63) ≤ o.sizeKey ∧ o.sizeKey < 2 ^ 63 := by
  unfold ObjectRow.sizeKey
  cases o.sizeBytes with
  | none =>
    constructor
    · show -(2 ^ 63) ≤ (-1 : Int)
      omega
    · show (-1 : Int) < 2 ^ 63
      omega
  | some s =>
    have hlow := Int.le_bmod (x := s) (m := 2 ^ 64) (by decide)
    have hhigh := Int.bmod_lt (x := s) (m := 2 ^ 64) (by decide)
    constructor
    · show -(2 ^ 63) ≤ Int.bmod s (2 ^ 64)
      omega
    · show Int.bmod s (2 ^ 64) < 2 ^ 63
      omega

/-! ## What a cursor is bound as -/

/-- An instant that is written and read alike, in a cursor and on the wire. -/
structure Carries (T : Texts) (W : WireTimes) (t : Time) : Prop where
  text : T.parseRfc3339 (T.toRfc3339 t) = some t
  wire : W.toTimestamptz (W.timestamp t) = some t

/-- A row whose sort keys can be carried by a cursor. -/
structure Carried (T : Texts) (W : WireTimes) (id : ObjectId) (o : ObjectRow) : Prop where
  id : isText id = true
  name : isText o.name = true
  createdAt : Carries T W o.createdAt
  updatedAt : Carries T W o.updatedAt

/-- The text of a sort key is bound as the value that it was made from. -/
theorem Texts.bindSortKey_sortKeyOf (orderBy : OrderBy) {v : ObjectView}
    (h : Carried T W v.id v.object) :
    T.bindSortKey orderBy (T.sortKeyOf v (some orderBy)) = .ok (orderBy.expression v.object) := by
  unfold Texts.bindSortKey Texts.sortKeyOf
  cases orderBy with
  | name => rfl
  | createdAt =>
    simp only [h.createdAt.text]
    rfl
  | updatedAt =>
    simp only [h.updatedAt.text]
    rfl
  | size =>
    obtain ⟨hlow, hhigh⟩ := v.object.sizeKey_range
    simp only [parseI64_toString hlow hhigh]
    rfl

/-- A numeral can be sent. -/
theorem isText_toString (n : Int) : isText (toString n) = true := by
  unfold isText
  rw [Bool.not_eq_true', ← Bool.not_eq_true, List.contains_iff_mem]
  intro hmem
  rcases Decimal.toString_chars hmem with h | h
  · exact absurd h (by decide)
  · exact absurd h (by decide)

/-- The time of a cursor, in a listing by time, is read from the text that is sent. -/
def Texts.TimeCarried (T : Texts) (W : WireTimes) (orderBy : OrderBy) (key : Option String) : Prop :=
  orderBy = .createdAt ∨ orderBy = .updatedAt → ∀ text ∈ key, ∀ t, T.parseRfc3339 text = some t →
    W.toTimestamptz (W.timestamp t) = some t

/-- What the PostgREST adapter sends is cast to what the other one binds, and the
texts among both are the same. -/
theorem castSortKey_normalize (orderBy : OrderBy) {key : Option String}
    (hwire : T.TimeCarried W orderBy key) :
    (∃ value text, T.bindSortKey orderBy key = .ok value ∧
      T.normalizeSortKey W orderBy key = .ok text ∧ castSortKey W orderBy text = .ok value ∧
      isText text = value.texts.all isText) ∨
    (T.bindSortKey orderBy key = .error invalidCursor ∧
      T.normalizeSortKey W orderBy key = .error invalidCursor) := by
  cases key with
  | none => exact .inr ⟨rfl, rfl⟩
  | some key =>
    have htime : (∃ t, T.parseRfc3339 key = some t) ∨ T.parseRfc3339 key = none := by
      cases T.parseRfc3339 key with
      | some t => exact .inl ⟨t, rfl⟩
      | none => exact .inr rfl
    cases orderBy with
    | name =>
      refine .inl ⟨_, _, rfl, rfl, rfl, ?_⟩
      simp [SortValue.texts]
    | createdAt | updatedAt =>
      rcases htime with ⟨t, ht⟩ | ht
      · have htimestamp := hwire (by simp) key rfl t ht
        refine .inl ⟨.timestamptz t, W.timestamp t, ?_⟩
        simp [Texts.bindSortKey, Texts.normalizeSortKey, castSortKey, ht, htimestamp,
          W.timestamp_isText, SortValue.texts]
      · refine .inr ?_
        simp [Texts.bindSortKey, Texts.normalizeSortKey, ht]
    | size =>
      cases hn : parseI64 (Utf8.encode key) with
      | some n =>
        -- a number that was read is printed and read again
        obtain ⟨hlow, hhigh⟩ := parseI64_range hn
        have hagain : parseI64 (Utf8.encode n.repr) = some n := parseI64_toString hlow hhigh
        have htext : isText n.repr = true := isText_toString n
        refine .inl ⟨.bigint n, toString n, ?_⟩
        simp [Texts.bindSortKey, Texts.normalizeSortKey, castSortKey, hn, hagain, htext,
          SortValue.texts]
      | none =>
        refine .inr ?_
        simp [Texts.bindSortKey, Texts.normalizeSortKey, hn]

/-! ## The rows of a page -/

/-- The column of the query is compared as the sort keys are. -/
theorem OrderBy.compare_expression (orderBy : OrderBy) (a b : ObjectRow) :
    (orderBy.expression a).compare (orderBy.expression b) = orderBy.compare a b := by
  cases orderBy <;> rfl

/-- A row lies behind an item in the order of the keys. -/
theorem ListChildren.isBehind_iff (q : ListChildren) (v : ObjectView) (e : ObjectId × ObjectRow) :
    ListChildren.isBehind q.orderBy q.order (some (q.orderBy.expression v.object, v.id)) e.1 e.2 =
      decide (q.key (v.id, v.object) < q.key e) := by
  have hgt : q.compare e (v.id, v.object) = .gt ↔ q.key (v.id, v.object) < q.key e := by
    rw [q.compare_eq, compare_gt_iff_gt]
  rw [← decide_eq_decide.mpr hgt]
  show decide (q.order.apply (((q.orderBy.expression e.2).compare
    (q.orderBy.expression v.object)).then (Ord.compare e.1 v.id)) = .gt) = _
  rw [OrderBy.compare_expression]
  rfl

/-- The rows that a query selects. -/
theorem Db.mem_selectRows {db : Db} {keep : ObjectId → ObjectRow → Bool} {e : ObjectId × ObjectRow} :
    e ∈ db.selectRows keep ↔ db.object e.1 = some e.2 ∧ keep e.1 e.2 = true := by
  unfold Db.selectRows
  rw [List.mem_filterMap]
  constructor
  · rintro ⟨id, _, h⟩
    obtain ⟨o, ho, rfl⟩ := Option.map_eq_some_iff.mp h
    exact Option.filter_eq_some_iff.mp ho
  · rintro ⟨ho, hkeep⟩
    refine ⟨e.1, Db.mem_objectIds.mpr (by rw [ho]; rfl), ?_⟩
    rw [ho, Option.filter_some, if_pos hkeep]
    rfl

/-- Each of them once. -/
theorem Db.selectRows_ids (db : Db) (keep : ObjectId → ObjectRow → Bool) :
    ((db.selectRows keep).map Prod.fst).Nodup := by
  unfold Db.selectRows
  rw [List.map_filterMap]
  refine List.Nodup.filterMap ?_ Db.nodup_objectIds
  intro id id' x hx hx'
  simp only [Option.map_map, Option.mem_def, Option.map_eq_some_iff, Function.comp_apply] at hx hx'
  obtain ⟨_, _, rfl⟩ := hx
  obtain ⟨_, _, h⟩ := hx'
  exact h.symm

/-- A further condition is a filter on the rows. -/
theorem Db.selectRows_filter {db : Db} {keep keep' : ObjectId → ObjectRow → Bool}
    {p : ObjectId → ObjectRow → Bool} (h : ∀ id o, keep' id o = (keep id o && p id o)) :
    db.selectRows keep' = (db.selectRows keep).filter fun e => p e.1 e.2 := by
  unfold Db.selectRows
  rw [List.filter_filterMap]
  refine List.filterMap_congr ?_
  intro id _
  cases hrow : db.object id with
  | none => rfl
  | some o =>
    rw [Option.filter_some, Option.filter_some, h]
    cases keep id o <;> cases hp : p id o <;> simp [Option.filter, hp]

/-- The id is part of the key, so no two rows share one. -/
theorem ListChildren.key_injective (q : ListChildren) {rows : List (ObjectId × ObjectRow)}
    (h : (rows.map Prod.fst).Nodup) : (rows.map q.key).Nodup := by
  refine List.Nodup.map_on ?_ h.of_map
  intro x hx y hy hxy
  exact List.inj_on_of_nodup_map h hx hy (ListChildren.key_eq.mp hxy).1

/-- `ORDER BY` puts the rows in the order of their keys. -/
theorem ListChildren.sort_eq (q : ListChildren) (rows : List (ObjectId × ObjectRow)) :
    q.sort rows = arrange q.key rows := by
  unfold ListChildren.sort arrange
  have hle : (fun a b : ObjectId × ObjectRow => (q.compare a b).isLE = true) =
      fun a b => q.key a ≤ q.key b := by
    funext a b
    exact propext ListChildren.compare_le
  congr!

/-- The live children of the folder, in the order of the listing. -/
def ListChildren.children (q : ListChildren) (db : Db) : List (ObjectId × ObjectRow) :=
  q.sort (db.selectRows (q.keep none))

/-- A live child of the folder. -/
def ListChildren.Listed (q : ListChildren) (db : Db) (id : ObjectId) (o : ObjectRow) : Prop :=
  db.object id = some o ∧ o.deletedAt = none ∧ o.parentId = some q.parentId

/-- The children of the folder, and no other rows. -/
theorem ListChildren.mem_children {db : Db} {e : ObjectId × ObjectRow} :
    e ∈ q.children db ↔ q.Listed db e.1 e.2 := by
  unfold ListChildren.children ListChildren.Listed
  rw [q.sort_eq, mem_arrange, Db.mem_selectRows]
  unfold ListChildren.keep ListChildren.isBehind
  simp

/-- What a page is cut from is a child, wherever the page starts. -/
theorem ListChildren.listed_of_keep {db : Db} {bound : Option (SortValue × ObjectId)}
    {e : ObjectId × ObjectRow} (h : e ∈ q.sort (db.selectRows (q.keep bound))) :
    q.Listed db e.1 e.2 := by
  rw [q.sort_eq, mem_arrange, Db.mem_selectRows] at h
  obtain ⟨ho, hkeep⟩ := h
  unfold ListChildren.keep at hkeep
  simp only [Bool.and_eq_true, Option.isNone_iff_eq_none, decide_eq_true_eq] at hkeep
  exact ⟨ho, hkeep.1.1, hkeep.1.2⟩

/-- They are in strict order. -/
theorem ListChildren.children_sorted (q : ListChildren) (db : Db) : Sorted q.key (q.children db) := by
  unfold ListChildren.children
  rw [q.sort_eq]
  exact arrange_sorted (q.key_injective (db.selectRows_ids _))

/-- What the cursor of an item is bound as. -/
def ListChildren.boundAs (q : ListChildren) (v : ObjectView) : SortValue × ObjectId :=
  (q.orderBy.expression v.object, v.id)

/-- The condition on the cursor cuts off what is not behind it. -/
theorem ListChildren.sort_behind (q : ListChildren) (db : Db) (last : Option ObjectView) :
    q.sort (db.selectRows (q.keep (last.map q.boundAs))) =
      after q.key (last.map fun v => q.key (v.id, v.object)) (q.children db) := by
  have hkeep : ∀ id o, q.keep (last.map q.boundAs) id o = (q.keep none id o &&
      decide (∀ k ∈ last.map fun v : ObjectView => q.key (v.id, v.object), k < q.key (id, o))) := by
    intro id o
    unfold ListChildren.keep
    cases last with
    | none => simp [ListChildren.isBehind]
    | some v =>
      have hbehind := q.isBehind_iff v (id, o)
      simp only [Option.map_some, ListChildren.boundAs, hbehind]
      simp [ListChildren.isBehind]
  unfold ListChildren.children
  rw [q.sort_eq, q.sort_eq, Db.selectRows_filter hkeep,
    ← arrange_after (q.key_injective (db.selectRows_ids _))]
  rfl

/-! ## Views -/

/-- A row with the path that is rendered for it. -/
def viewIn (paths : Db) (e : ObjectId × ObjectRow) : ObjectView :=
  { id := e.1, object := e.2, path := paths.path e.1 }

/-- Every row gets its path if the second statement still finds all of them, -/
theorem attachPaths_eq {paths : Db} {rows : List (ObjectId × ObjectRow)}
    (h : ∀ e ∈ rows, (paths.object e.1).isSome = true) :
    attachPaths paths rows = .ok (rows.map (viewIn paths)) := by
  unfold attachPaths
  induction rows with
  | nil => rfl
  | cons e rows ih =>
    obtain ⟨he, hrows⟩ := List.forall_mem_cons.mp h
    rw [List.mapM_cons, ih hrows, if_pos he]
    rfl

/-- and so the page is that of the views. -/
theorem Texts.finishRows_eq {paths : Db} {rows : List (ObjectId × ObjectRow)} (limit : Nat)
    (orderBy : Option OrderBy) (h : ∀ e ∈ rows, (paths.object e.1).isSome = true) :
    T.finishRows paths rows limit orderBy =
      .ok (T.finishPage (rows.map (viewIn paths)) limit orderBy) := by
  have hattach := attachPaths_eq fun e he => h e (List.mem_of_mem_take (i := limit) he)
  unfold Texts.finishRows Texts.finishPage
  rw [hattach, List.length_map, ← List.map_take]
  show Except.ok _ = Except.ok _
  by_cases hmore : limit < rows.length
  · simp only [hmore, decide_true, if_true]
  · simp only [hmore, decide_false, if_false, Bool.false_eq_true]

/-- `decode_object` of one row. -/
abbrev decodeRow (r : ObjectId × ObjectRow) : Option (ObjectId × ObjectRow) :=
  (r.2.read columnRoom).map (r.1, ·)

/-- Parsing rows and attaching paths is parsing views. -/
theorem decodeRows_views {paths : Db} (rows : List (ObjectId × ObjectRow)) :
    (decodeRows rows).map (List.map (viewIn paths)) =
      Adapter.sqlx.parseViews (rows.map (viewIn paths)) := by
  -- row by row; the path plays no part in decoding
  have hmapM : (rows.mapM decodeRow).map (List.map (viewIn paths)) =
      (rows.map (viewIn paths)).mapM (·.read columnRoom) := by
    induction rows with
    | nil => rfl
    | cons e rows ih =>
      rw [List.mapM_cons, List.map_cons, List.mapM_cons, ← ih]
      have hread : (viewIn paths e).read columnRoom =
          (e.2.read columnRoom).map fun o => viewIn paths (e.1, o) := rfl
      have hrow : decodeRow e = (e.2.read columnRoom).map (e.1, ·) := rfl
      rw [hread, hrow]
      cases e.2.read columnRoom with
      | none => rfl
      | some o => cases rows.mapM decodeRow <;> rfl
  unfold decodeRows Adapter.parseViews
  rw [show Adapter.sqlx.pageRoom = columnRoom from rfl, ← hmapM]
  cases rows.mapM decodeRow <;> rfl

/-- The ids of the rows are kept. -/
theorem mem_decodeRows {rows decoded : List (ObjectId × ObjectRow)}
    (h : decodeRows rows = .ok decoded) {e : ObjectId × ObjectRow} (he : e ∈ decoded) :
    ∃ o, (e.1, o) ∈ rows ∧ o.read columnRoom = some e.2 := by
  -- by induction on the rows that were fetched
  have hdecoded : ∀ found, rows.mapM decodeRow = some found → e ∈ found →
      ∃ o, (e.1, o) ∈ rows ∧ o.read columnRoom = some e.2 := by
    clear h he
    induction rows with
    | nil =>
      intro found hfound hmem
      rw [List.mapM_nil] at hfound
      obtain rfl := Option.some.inj hfound
      cases hmem
    | cons r rows ih =>
      intro found hfound hmem
      rw [List.mapM_cons] at hfound
      obtain ⟨e', he', found', hfound', hcons⟩ : ∃ e', decodeRow r = some e' ∧
          ∃ found', rows.mapM decodeRow = some found' ∧ e' :: found' = found := by
        simpa [Option.bind_eq_some_iff] using hfound
      rw [← hcons] at hmem
      rcases List.mem_cons.mp hmem with rfl | hmem
      · obtain ⟨o, ho, rfl⟩ := Option.map_eq_some_iff.mp he'
        exact ⟨r.2, List.mem_cons_self .., ho⟩
      · obtain ⟨o, ho, hread⟩ := ih found' hfound' hmem
        exact ⟨o, List.mem_cons_of_mem _ ho, hread⟩
  unfold decodeRows at h
  cases hm : rows.mapM decodeRow with
  | none =>
    rw [hm] at h
    cases h
  | some found =>
    rw [hm] at h
    obtain rfl := Except.ok.inj h
    exact hdecoded _ hm he

/-! ## Answers -/

/-- Where an adapter reads the paths. -/
def Snapshots.pathsOf (db : Snapshots) : Adapter → Db
  | .sqlx => db.paths
  | .rpc => db.rows

/-- The views that one statement fetches. -/
def ListChildren.fetched (a : Adapter) (q : ListChildren) (db : Snapshots)
    (bound : Option (SortValue × ObjectId)) : List ObjectView :=
  ((q.sort (db.rows.selectRows (q.keep bound))).take (q.limit + 1)).map (viewIn (db.pathsOf a))

/-- The answer to a listing whose cursor is bound so. -/
def ListChildren.answer (T : Texts) (a : Adapter) (q : ListChildren) (db : Snapshots)
    (bound : Option (SortValue × ObjectId)) : DomainResult Page :=
  (a.parseViews (q.fetched a db bound)).map fun items => T.finishPage items q.limit (some q.orderBy)

/-- The texts that are sent with a cursor. -/
def ListChildren.texts (q : ListChildren) (bound : Option (SortValue × ObjectId)) : List String :=
  q.parentId :: bound.elim [] fun b => b.2 :: b.1.texts

/-- A listing that can be sent is answered, and no other is. -/
def ListChildren.reply (T : Texts) (a : Adapter) (q : ListChildren) (db : Snapshots)
    (bound : Option (SortValue × ObjectId)) : DomainResult Page :=
  if (q.texts bound).all isText then q.answer T a db bound else .error (mapSqlx .other)

/-- What is fetched is there when the paths are read. -/
theorem ListChildren.finish_decoded (q : ListChildren) (db : Snapshots)
    (bound : Option (SortValue × ObjectId)) :
    ((decodeRows ((q.sort (db.rows.selectRows (q.keep bound))).take (q.limit + 1))).bind
      fun rows => T.finishRows db.paths rows q.limit (some q.orderBy)) =
        q.answer T .sqlx db bound := by
  unfold ListChildren.answer ListChildren.fetched
  rw [show db.pathsOf .sqlx = db.paths from rfl, ← decodeRows_views]
  cases hdecoded : decodeRows ((q.sort (db.rows.selectRows (q.keep bound))).take (q.limit + 1)) with
  | error e => rfl
  | ok rows =>
    -- a row that was selected is still there when the paths are read
    refine Texts.finishRows_eq _ _ ?_
    intro e he
    obtain ⟨o, ho, -⟩ := mem_decodeRows hdecoded he
    have hmem := List.mem_of_mem_take ho
    rw [q.sort_eq, mem_arrange, Db.mem_selectRows] at hmem
    refine db.kept e.1 ?_
    rw [hmem.1]
    rfl

/-- Text with U+0000 never reaches the database. -/
theorem sendTexts_bind {α : Type} (texts : List String) (f : Unit → DomainResult α) :
    (sendTexts texts).bind f = if texts.all isText then f () else .error (mapSqlx .other) := by
  unfold sendTexts
  by_cases h : texts.all isText
  · rw [if_pos h, if_pos h]
    rfl
  · rw [if_neg h, if_neg h]
    rfl

/-- What the `sqlx` adapter makes of a cursor. -/
def Texts.boundBy (T : Texts) (q : ListChildren) : DomainResult (Option (SortValue × ObjectId)) :=
  (T.readCursor q.cursor).bind fun cursor => match cursor with
    | none => .ok none
    | some c => (T.bindSortKey q.orderBy c.k).map fun key => some (key, c.i)

/-- **Driver.** Read the cursor, and answer with what lies behind it. -/
theorem ListChildren.runSqlx_eq (q : ListChildren) (db : Snapshots) :
    q.runSqlx T db = (T.boundBy q).bind (q.reply T .sqlx db) := by
  have hreply : ∀ bound : Option (SortValue × ObjectId), ((sendTexts (q.texts bound)).bind fun _ =>
      (decodeRows ((q.sort (db.rows.selectRows (q.keep bound))).take (q.limit + 1))).bind
        fun rows => T.finishRows db.paths rows q.limit (some q.orderBy)) =
          q.reply T .sqlx db bound := by
    intro bound
    rw [sendTexts_bind, q.finish_decoded]
    rfl
  unfold Texts.boundBy
  -- the three ways in which a cursor is read
  cases hread : T.readCursor q.cursor with
  | error e =>
    show (T.readCursor q.cursor).bind _ = _
    rw [hread]
    rfl
  | ok cursor =>
    cases cursor with
    | none =>
      show (T.readCursor q.cursor).bind _ = _
      rw [hread]
      exact hreply none
    | some c =>
      show (T.readCursor q.cursor).bind _ = _
      rw [hread]
      show ((T.bindSortKey q.orderBy c.k).map fun key => some (key, c.i)).bind _ =
        ((T.bindSortKey q.orderBy c.k).map fun key => some (key, c.i)).bind _
      cases T.bindSortKey q.orderBy c.k with
      | error e => rfl
      | ok key => exact hreply (some (key, c.i))

/-! ## The two adapters -/

/-- Rows that are numbered in their order stay in it. -/
theorem insertionSort_zipIdx {α : Type} (rows : List α) (n : Nat) :
    ((rows.zipIdx.take n).insertionSort fun a b => a.2 ≤ b.2).map Prod.fst = rows.take n := by
  have hsorted : (rows.zipIdx.take n).Pairwise fun a b => a.2 ≤ b.2 := by
    refine List.Pairwise.sublist (List.take_sublist _ _) ?_
    rw [← List.pairwise_map (R := (· ≤ ·)) (f := Prod.snd), List.zipIdx_map_snd]
    exact List.pairwise_le_range'
  rw [List.Pairwise.insertionSort_eq hsorted, List.map_take, List.zipIdx_map_fst]

/-- The procedure knows every sort column, -/
theorem sortExpression_name (orderBy : OrderBy) :
    sortExpression (orderByName orderBy) = some orderBy := by
  cases orderBy <;> rfl

/-- and both directions. -/
theorem sortDirection_name (order : ListOrder) : sortDirection (orderName order) = some order := by
  cases order <;> rfl

/-- Rows that are numbered, cut and put in the order of their numbers. -/
theorem numbered_views (db : Db) (limit : Nat) (rows : List (ObjectId × ObjectRow)) :
    ((rows.zipIdx.take limit).insertionSort fun a b => a.2 ≤ b.2).map (fun r => viewIn db r.1) =
      (rows.take limit).map (viewIn db) := by
  rw [← insertionSort_zipIdx rows limit, List.map_map]
  rfl

/-- What the procedure returns behind a cursor that it can cast. -/
theorem opListChildren_eq (db : Db) (limit : Nat) {key : Option String} {cursor : Option ObjectId}
    {bound : Option (SortValue × ObjectId)}
    (hbound : (key = none ∧ cursor = none ∧ bound = none) ∨
      ∃ text id value, key = some text ∧ cursor = some id ∧ bound = some (value, id) ∧
        castSortKey W q.orderBy text = .ok value) :
    opListChildren W (.mk q.parentId limit (orderByName q.orderBy) (orderName q.order) key cursor) db =
      .ok (((q.sort (db.selectRows (q.keep bound))).take limit).map (viewIn db)) := by
  unfold opListChildren
  simp only [sortExpression_name, sortDirection_name]
  rcases hbound with ⟨rfl, rfl, rfl⟩ | ⟨text, id, value, rfl, rfl, rfl, hcast⟩
  · exact congrArg Except.ok (numbered_views db limit _)
  · simp only [hcast]
    exact congrArg Except.ok (numbered_views db limit _)

/-- Whatever the cursor is cast to, the rows of the RPC are children. -/
theorem mem_opListChildren {db : Db} {limit : Nat} {key : Option String} {cursor : Option ObjectId}
    {items : List ObjectView}
    (h : opListChildren W (.mk q.parentId limit (orderByName q.orderBy) (orderName q.order) key
      cursor) db = .ok items) {v : ObjectView} (hv : v ∈ items) :
    q.Listed db v.id v.object := by
  -- whatever the bound, only children are selected
  have hrows : ∀ bound, v ∈ ((q.sort (db.selectRows (q.keep bound))).take limit).map (viewIn db) →
      q.Listed db v.id v.object := by
    intro bound hmem
    obtain ⟨e, he, rfl⟩ := List.mem_map.mp hmem
    exact ListChildren.listed_of_keep (List.mem_of_mem_take he)
  unfold opListChildren at h
  simp only [sortExpression_name, sortDirection_name] at h
  -- without a cursor or with one, and its key may fail to cast
  cases cursor with
  | none =>
    obtain rfl := Except.ok.inj h
    exact hrows none ((numbered_views db limit _) ▸ hv)
  | some id =>
    cases key with
    | none =>
      obtain rfl := Except.ok.inj h
      cases hv
    | some key =>
      cases hcast : castSortKey W q.orderBy key with
      | error e =>
        simp only [hcast] at h
        cases h
      | ok value =>
        simp only [hcast] at h
        obtain rfl := Except.ok.inj h
        exact hrows (some (value, id)) ((numbered_views db limit _) ▸ hv)

/-- The time that the cursor of a listing carries can be sent. -/
def ListChildren.CursorCarried (T : Texts) (W : WireTimes) (q : ListChildren) : Prop :=
  ∀ c, T.readCursor q.cursor = .ok (some c) → T.TimeCarried W q.orderBy c.k

/-- **Procedure.** The same where the cursor comes over the wire as it was. -/
theorem ListChildren.runRpc_eq (q : ListChildren) (db : Snapshots) (hwire : q.CursorCarried T W) :
    q.runRpc T W db.rows = (T.boundBy q).bind (q.reply T .rpc db) := by
  -- once the bound is known, both sides send, select and parse in the same order
  have hanswer : ∀ {key : Option String} {cursor : Option ObjectId}
      {bound : Option (SortValue × ObjectId)},
      ((key = none ∧ cursor = none ∧ bound = none) ∨
        ∃ text id value, key = some text ∧ cursor = some id ∧ bound = some (value, id) ∧
          castSortKey W q.orderBy text = .ok value) →
      ((q.parentId :: (key.toList ++ cursor.toList)).all isText = (q.texts bound).all isText) →
      ((sendTexts (q.parentId :: (key.toList ++ cursor.toList))).bind fun _ =>
        (opListChildren W (.mk q.parentId (q.limit + 1) (orderByName q.orderBy) (orderName q.order)
          key cursor) db.rows).bind fun items => (Adapter.rpc.parseViews items).bind fun items =>
            (.ok (T.finishPage items q.limit (some q.orderBy)) : DomainResult Page)) =
        q.reply T .rpc db bound := by
    intro key cursor bound hbound htexts
    rw [sendTexts_bind, opListChildren_eq db.rows (q.limit + 1) hbound, htexts]
    unfold ListChildren.reply ListChildren.answer
    by_cases hsent : (q.texts bound).all isText
    · rw [if_pos hsent, if_pos hsent]
      show (Adapter.rpc.parseViews (q.fetched .rpc db bound)).bind _ = _
      cases Adapter.rpc.parseViews (q.fetched .rpc db bound) <;> rfl
    · rw [if_neg hsent, if_neg hsent]
  unfold Texts.boundBy
  cases hread : T.readCursor q.cursor with
  | error e =>
    show (T.readCursor q.cursor).bind _ = _
    rw [hread]
    rfl
  | ok cursor =>
    cases cursor with
    | none =>
      show (T.readCursor q.cursor).bind _ = _
      rw [hread]
      exact hanswer (.inl ⟨rfl, rfl, rfl⟩) rfl
    | some c =>
      show (T.readCursor q.cursor).bind _ = _
      rw [hread]
      show ((T.normalizeSortKey W q.orderBy c.k).map some).bind _ =
        ((T.bindSortKey q.orderBy c.k).map fun key => some (key, c.i)).bind _
      -- either both sides take the key of the cursor, or both refuse it
      rcases castSortKey_normalize q.orderBy (hwire c hread) with
        ⟨value, text, hbind, hnormalize, hcast, htext⟩ | ⟨hbind, hnormalize⟩
      · rw [hbind, hnormalize]
        refine hanswer (.inr ⟨text, c.i, value, rfl, rfl, rfl, hcast⟩) ?_
        show (isText q.parentId && (isText text && (isText c.i && true))) =
          (isText q.parentId && (isText c.i && value.texts.all isText))
        rw [← htext, Bool.and_true, Bool.and_comm (isText text)]
      · rw [hbind, hnormalize]
        rfl

/-- What an adapter replies to a listing. -/
theorem ListChildren.run_eq (a : Adapter) (q : ListChildren) (db : Snapshots)
    (hwire : q.CursorCarried T W) :
    q.run T W a db = (T.boundBy q).bind (q.reply T a db) := by
  cases a with
  | sqlx => exact q.runSqlx_eq db
  | rpc => exact q.runRpc_eq db hwire

/-! ## Folders that can be listed -/

/-- What keeps no adapter from listing the children. -/
structure ListChildren.Fetchable (T : Texts) (W : WireTimes) (a : Adapter) (q : ListChildren)
    (db : Db) : Prop where
  carried : ∀ id o, q.Listed db id o → Carried T W id o
  parsed : ∀ id o, q.Listed db id o → (o.read a.pageRoom).isSome

/-- A live child of the folder, with its metadata as an adapter parses it. -/
def ListChildren.Shown (a : Adapter) (q : ListChildren) (db : Db) (id : ObjectId)
    (o : ObjectRow) : Prop :=
  ∃ stored, q.Listed db id stored ∧ stored.read a.pageRoom = some o

/-- Reading changes the metadata only. -/
theorem ObjectRow.read_eq {room : Nat} {o o' : ObjectRow} (h : o.read room = some o') :
    o' = { o with metadata := o'.metadata } := by
  obtain ⟨metadata, -, rfl⟩ := Option.map_eq_some_iff.mp h
  rfl

/-- Parsing changes no sort key. -/
theorem ListChildren.key_read {room : Nat} {o o' : ObjectRow} (h : o.read room = some o')
    (id : ObjectId) : q.key (id, o') = q.key (id, o) := by
  have hkey : q.orderBy.sortKey o' = q.orderBy.sortKey o := by
    rw [ObjectRow.read_eq h]
    cases q.orderBy <;> rfl
  unfold ListChildren.key
  rw [hkey]

/-- Every child of a listing that can be fetched is shown. -/
theorem ListChildren.Fetchable.shown {db : Db} (h : q.Fetchable T W a db) {id : ObjectId}
    {o : ObjectRow} (ho : q.Listed db id o) : ∃ o', o.read a.pageRoom = some o' ∧
      q.Shown a db id o' := by
  obtain ⟨o', hread⟩ := Option.isSome_iff_exists.mp (h.parsed id o ho)
  exact ⟨o', hread, o, ho, hread⟩

/-! ## Traversals -/

/-- One page. -/
def ListChildren.fetch (T : Texts) (W : WireTimes) (a : Adapter) (q : ListChildren)
    (cursor : Option String) (db : Snapshots) : DomainResult Page :=
  { q with cursor }.run T W a db

/-- The key of a view. -/
def ListChildren.viewKey (q : ListChildren) (v : ObjectView) : q.order.Keys := q.key (v.id, v.object)

/-- The children with the paths that an adapter renders, as it shows them. -/
def ListChildren.views (a : Adapter) (q : ListChildren) (db : Snapshots) : List ObjectView :=
  (q.children db.rows).map fun e => a.shown (viewIn (db.pathsOf a) e)

/-- No key depends on the metadata. -/
theorem ListChildren.viewKey_shown (a : Adapter) (q : ListChildren) (v : ObjectView) :
    q.viewKey (a.shown v) = q.viewKey v := by
  obtain ⟨metadata, h⟩ := a.shown_eq v
  have hkey : q.orderBy.sortKey { v.object with metadata } = q.orderBy.sortKey v.object := by
    cases q.orderBy <;> rfl
  unfold ListChildren.viewKey ListChildren.key
  rw [h]
  simp only [hkey]

/-- The views are in strict order. -/
theorem ListChildren.views_sorted (a : Adapter) (q : ListChildren) (db : Snapshots) :
    Sorted q.viewKey (q.views a db) := by
  unfold Sorted ListChildren.views
  rw [List.pairwise_map]
  refine (q.children_sorted db.rows).imp ?_
  intro e e' h
  rw [ListChildren.viewKey_shown, ListChildren.viewKey_shown]
  exact h

/-- What is seen of a listed row that can be parsed. -/
theorem shown_viewIn {a : Adapter} {paths : Db} {id : ObjectId} {o o' : ObjectRow}
    (h : o.read a.pageRoom = some o') :
    a.shown (viewIn paths (id, o)) = viewIn paths (id, o') := by
  have hread : (viewIn paths (id, o)).read a.pageRoom = some (viewIn paths (id, o')) := by
    show (o.read a.pageRoom).map _ = _
    rw [h]
    rfl
  unfold Adapter.shown
  rw [hread]
  rfl

/-- They are those of the children. -/
theorem ListChildren.mem_views {a : Adapter} {db : Snapshots} (h : q.Fetchable T W a db.rows)
    {id : ObjectId} {o : ObjectRow} :
    (∃ v ∈ q.views a db, v.id = id ∧ v.object = o) ↔ q.Shown a db.rows id o := by
  unfold ListChildren.views
  constructor
  · rintro ⟨v, hv, rfl, rfl⟩
    obtain ⟨⟨id, stored⟩, he, rfl⟩ := List.mem_map.mp hv
    have hlisted := ListChildren.mem_children.mp he
    obtain ⟨o', hread, hshown⟩ := h.shown hlisted
    rw [shown_viewIn hread]
    exact hshown
  · rintro ⟨stored, hlisted, hread⟩
    have hmem : (id, stored) ∈ q.children db.rows := ListChildren.mem_children.mpr hlisted
    refine ⟨_, List.mem_map_of_mem hmem, ?_⟩
    rw [shown_viewIn hread]
    exact ⟨rfl, rfl⟩

/-- An item whose cursor can be sent and read. -/
def ListChildren.Follows (T : Texts) (W : WireTimes) (last : Option ObjectView) : Prop :=
  ∀ v ∈ last, Carried T W v.id v.object

/-- The page behind an item. -/
theorem ListChildren.fetch_eq (hcodec : ∀ c, T.decodeCursor (T.encodeCursor c) = some c)
    (a : Adapter) (q : ListChildren) (hparent : isText q.parentId = true) (db : Snapshots)
    (h : q.Fetchable T W a db.rows) {last : Option ObjectView}
    (hlast : ListChildren.Follows T W last) :
    q.fetch T W a (last.map (T.cursorOf (some q.orderBy))) db =
      .ok (T.keysetPage q.viewKey q.limit (some q.orderBy) (last.map q.viewKey)
        (q.views a db)) := by
  have hread : ∀ v, T.readCursor (some (T.cursorOf (some q.orderBy) v)) =
      .ok (some { k := T.sortKeyOf v (some q.orderBy), i := v.id }) := by
    intro v
    unfold Texts.readCursor Texts.cursorOf
    simp only [hcodec]
  -- the cursor is bound as the sort key of the item, and its texts can be sent
  have hbound : T.boundBy { q with cursor := last.map (T.cursorOf (some q.orderBy)) } =
      .ok (last.map q.boundAs) := by
    cases last with
    | none => rfl
    | some v =>
      show (T.readCursor _).bind _ = _
      rw [Option.map_some, hread]
      show (T.bindSortKey q.orderBy (T.sortKeyOf v (some q.orderBy))).map _ = _
      rw [Texts.bindSortKey_sortKeyOf q.orderBy (hlast v rfl)]
      rfl
  have htexts : (q.texts (last.map q.boundAs)).all isText = true := by
    cases last with
    | none => simp [ListChildren.texts, hparent]
    | some v =>
      have hv := hlast v rfl
      cases hby : q.orderBy <;>
        simp [ListChildren.texts, ListChildren.boundAs, OrderBy.expression, SortValue.texts, hby,
          hparent, hv.id, hv.name]
  have hwire : ListChildren.CursorCarried T W
      { q with cursor := last.map (T.cursorOf (some q.orderBy)) } := by
    intro c hc hby text htext t ht
    cases last with
    | none => cases hc
    | some v =>
      have hv := hlast v rfl
      rw [Option.map_some, hread] at hc
      obtain rfl := Option.some.inj (Except.ok.inj hc)
      unfold Texts.sortKeyOf at htext
      rcases hby with hby | hby
      · replace hby : q.orderBy = .createdAt := hby
        simp only [hby] at htext
        obtain rfl := Option.some.inj htext
        rw [hv.createdAt.text] at ht
        exact Option.some.inj ht ▸ hv.createdAt.wire
      · replace hby : q.orderBy = .updatedAt := hby
        simp only [hby] at htext
        obtain rfl := Option.some.inj htext
        rw [hv.updatedAt.text] at ht
        exact Option.some.inj ht ▸ hv.updatedAt.wire
  have hparsed : ∀ v ∈ q.fetched a db (last.map q.boundAs), (v.read a.pageRoom).isSome := by
    intro v hv
    obtain ⟨e, he, rfl⟩ := List.mem_map.mp hv
    have hmem := List.mem_of_mem_take he
    rw [q.sort_behind] at hmem
    have hlisted := ListChildren.mem_children.mp (List.mem_of_mem_filter hmem)
    obtain ⟨o', ho', -⟩ := h.shown hlisted
    show ((e.2.read a.pageRoom).map _).isSome
    rw [ho']
    rfl
  -- the page is cut from the children behind the item, each as it is shown
  have hitems : (q.fetched a db (last.map q.boundAs)).map a.shown =
      (after q.viewKey (last.map q.viewKey) (q.views a db)).take (q.limit + 1) := by
    have hkey : (fun e => q.viewKey (a.shown (viewIn (db.pathsOf a) e))) = q.key := by
      funext e
      exact q.viewKey_shown a (viewIn (db.pathsOf a) e)
    have hafter := map_after q.viewKey (fun e => a.shown (viewIn (db.pathsOf a) e))
      (last.map q.viewKey) (q.children db.rows)
    rw [hkey] at hafter
    unfold ListChildren.fetched ListChildren.views
    rw [q.sort_behind, List.map_map, List.map_take, ← hafter]
    rfl
  have hpage := ListChildren.run_eq a { q with cursor := last.map (T.cursorOf (some q.orderBy)) }
    db hwire
  unfold ListChildren.fetch
  rw [hpage, hbound]
  show (if (q.texts (last.map q.boundAs)).all isText then q.answer T a db (last.map q.boundAs)
    else _) = _
  rw [if_pos htexts]
  unfold ListChildren.answer
  rw [a.parseViews_eq, if_pos hparsed, hitems]
  show Except.ok (T.finishPage _ q.limit _) = _
  rw [T.finishPage_take, T.finishPage_after]

/-- Whatever the cursor is, a page has children only. -/
theorem ListChildren.listed_of_fetch {cursor : Option String} {db : Snapshots} {page : Page}
    (h : q.fetch T W a cursor db = .ok page) {v : ObjectView} (hv : v ∈ page.items) :
    ∃ o, q.Listed db.rows v.id o ∧ v.object = { o with metadata := v.object.metadata } := by
  -- a row on the page is a child, with the metadata as they were read
  have hshown : ∀ {views items : List ObjectView}, a.parseViews views = .ok items →
      (∀ w ∈ views, q.Listed db.rows w.id w.object) → v ∈ items →
      ∃ o, q.Listed db.rows v.id o ∧ v.object = { o with metadata := v.object.metadata } := by
    intro views items hparse hlisted hmem
    rw [a.parseViews_eq] at hparse
    split at hparse
    · obtain rfl := Except.ok.inj hparse
      obtain ⟨w, hw, rfl⟩ := List.mem_map.mp hmem
      obtain ⟨metadata, heq⟩ := a.shown_eq w
      rw [heq]
      exact ⟨w.object, hlisted w hw, rfl⟩
    · cases hparse
  cases a with
  | sqlx =>
    replace h : ListChildren.runSqlx T { q with cursor } db = .ok page := h
    rw [ListChildren.runSqlx_eq] at h
    obtain ⟨bound, -, h⟩ := Except.exists_of_bind_ok h
    unfold ListChildren.reply at h
    split at h
    · obtain ⟨items, hparse, h⟩ := Except.exists_of_bind_ok h
      obtain rfl := Except.ok.inj h
      refine hshown hparse ?_ (List.mem_of_mem_take hv)
      intro w hw
      obtain ⟨e, he, rfl⟩ := List.mem_map.mp hw
      exact ListChildren.listed_of_keep (q := q) (List.mem_of_mem_take he)
    · cases h
  | rpc =>
    replace h : ListChildren.runRpc T W { q with cursor } db.rows = .ok page := h
    unfold ListChildren.runRpc at h
    -- the same behind the call of the procedure
    have hrest : ∀ (key : Option String) (id : Option ObjectId),
        ((sendTexts (q.parentId :: (key.toList ++ id.toList))).bind fun _ =>
          (opListChildren W (.mk q.parentId (q.limit + 1) (orderByName q.orderBy)
            (orderName q.order) key id) db.rows).bind fun items =>
              (Adapter.rpc.parseViews items).bind fun items =>
                .ok (T.finishPage items q.limit (some q.orderBy))) = .ok page →
        ∃ o, q.Listed db.rows v.id o ∧ v.object = { o with metadata := v.object.metadata } := by
      intro key id h
      obtain ⟨-, -, h⟩ := Except.exists_of_bind_ok h
      obtain ⟨views, hviews, h⟩ := Except.exists_of_bind_ok h
      obtain ⟨items, hparse, h⟩ := Except.exists_of_bind_ok h
      obtain rfl := Except.ok.inj h
      refine hshown hparse ?_ (List.mem_of_mem_take hv)
      intro w hw
      exact mem_opListChildren hviews hw
    obtain ⟨c, -, h⟩ := Except.exists_of_bind_ok h
    cases c with
    | none => exact hrest none none h
    | some c =>
      obtain ⟨key, -, h⟩ := Except.exists_of_bind_ok h
      exact hrest _ (some c.i) h

variable {fetches : List (Snapshots × DomainResult Page)} {ended : Prop}

/-- Every page of a traversal was fetched. -/
theorem Browsing.fetched {σ : Type} {fetch : Option String → σ → DomainResult Page}
    {cursor : Option String} {fetches : List (σ × DomainResult Page)}
    (h : Browsing fetch cursor fetches ended) {f : σ × DomainResult Page} (hf : f ∈ fetches) :
    ∃ c, fetch c f.1 = f.2 := by
  induction h with
  | pause => cases hf
  | failed hfetch | last hfetch =>
    obtain rfl := List.mem_singleton.mp hf
    exact ⟨_, hfetch⟩
  | next hfetch _ _ ih =>
    rcases List.mem_cons.mp hf with rfl | hf
    · exact ⟨_, hfetch⟩
    · exact ih hf

/-- The children as they are shown. -/
theorem ListChildren.shown_unique {db : Db} {id : ObjectId} {o o' : ObjectRow}
    (h : q.Shown a db id o) (h' : q.Shown a db id o') : o = o' := by
  obtain ⟨stored, hlisted, hread⟩ := h
  obtain ⟨stored', hlisted', hread'⟩ := h'
  obtain rfl := Option.some.inj (hlisted.1.symm.trans hlisted'.1)
  exact Option.some.inj (hread.symm.trans hread')

/-- The children of a folder, with their metadata as an adapter parses it. -/
def ListChildren.shownChildren (a : Adapter) (q : ListChildren) (db : Db) :
    List (ObjectId × ObjectRow) :=
  (q.children db).map fun e => (e.1, (e.2.read a.pageRoom).getD e.2)

/-- The children as they are shown. -/
theorem ListChildren.Fetchable.mem_shownChildren {db : Db} (h : q.Fetchable T W a db)
    {e : ObjectId × ObjectRow} : e ∈ q.shownChildren a db ↔ q.Shown a db e.1 e.2 := by
  unfold ListChildren.shownChildren
  rw [List.mem_map]
  constructor
  · rintro ⟨stored, hmem, rfl⟩
    have hlisted := ListChildren.mem_children.mp hmem
    obtain ⟨o, hread, hshown⟩ := h.shown hlisted
    rw [hread]
    exact hshown
  · rintro ⟨stored, hlisted, hread⟩
    refine ⟨(e.1, stored), ListChildren.mem_children.mpr hlisted, ?_⟩
    rw [hread]
    rfl

/-- They are in strict order. -/
theorem ListChildren.Fetchable.shownChildren_sorted {db : Db} (h : q.Fetchable T W a db) :
    Sorted q.key (q.shownChildren a db) := by
  unfold Sorted ListChildren.shownChildren
  rw [List.pairwise_map]
  refine (q.children_sorted db).imp_of_mem ?_
  intro e e' he he' hlt
  obtain ⟨o, hread, -⟩ := h.shown (ListChildren.mem_children.mp he)
  obtain ⟨o', hread', -⟩ := h.shown (ListChildren.mem_children.mp he')
  rw [hread, hread']
  show q.key (e.1, o) < q.key (e'.1, o')
  rw [ListChildren.key_read hread, ListChildren.key_read hread']
  exact hlt

/-- What a traversal returns where the folder stays as it is. -/
theorem ListChildren.returned_eq {db : Db} (hfetchable : q.Fetchable T W a db)
    (hstatic : ∀ f ∈ fetches, f.1.rows = db)
    (h : Complete (fun s => q.Shown a s.rows) q.orderBy.sortKey
      (fun v w => q.compare (v.id, v.object) (w.id, w.object) = .lt) fetches True) :
    (allItems fetches).map (fun v => (v.id, v.object)) = q.shownChildren a db := by
  have hshown : ∀ v ∈ allItems fetches, q.Shown a db v.id v.object := by
    intro v hv
    obtain ⟨f, hf, hfv⟩ := List.mem_flatMap.mp hv
    have hv' := h.listed f hf v hfv
    rwa [hstatic f hf] at hv'
  have hsorted : Sorted q.key ((allItems fetches).map fun v => (v.id, v.object)) := by
    unfold Sorted
    rw [List.pairwise_map]
    exact h.ordered.imp ListChildren.compare_lt.mp
  have hsorted' := hfetchable.shownChildren_sorted
  refine hsorted.eq_of_perm hsorted' ?_
  refine (List.perm_ext_iff_of_nodup hsorted.nodup_keys.of_map hsorted'.nodup_keys.of_map).mpr ?_
  intro e
  rw [hfetchable.mem_shownChildren, List.mem_map]
  constructor
  · rintro ⟨v, hv, rfl⟩
    exact hshown v hv
  · intro he
    -- a child is listed at every fetch, and so it is returned
    have honce := h.once trivial e.1 (q.orderBy.sortKey e.2) (by
      intro f hf
      rw [hstatic f hf]
      exact ⟨e.2, he, rfl⟩)
    have hmem : e.1 ∈ (allItems fetches).map (·.id) := by
      rw [← List.count_pos_iff]
      omega
    obtain ⟨v, hv, hid⟩ := List.mem_map.mp hmem
    have hrow := ListChildren.shown_unique (hid ▸ hshown v hv) he
    exact ⟨v, hv, Prod.ext hid hrow⟩

/-- A client that follows the cursors of a listing meets every child that stays
under its sort key exactly once and in order, whatever is written in between.
Where the folder stays as it is, it comes to its end and has met its children. -/
theorem list_children_complete (hcodec : ∀ c, T.decodeCursor (T.encodeCursor c) = some c)
    (hparent : isText q.parentId = true) (hlimit : 0 < q.limit)
    (hfetchable : ∀ f ∈ fetches, q.Fetchable T W a f.1.rows)
    (h : Browsing (q.fetch T W a) none fetches ended) :
    Complete (fun s => q.Shown a s.rows) q.orderBy.sortKey
      (fun v w => q.compare (v.id, v.object) (w.id, w.object) = .lt) fetches ended ∧
    ∀ db : Db, (∀ f ∈ fetches, f.1.rows = db) →
      q.limit * fetches.length ≤ (q.children db).length + q.limit ∧
      (ended → (allItems fetches).map (fun v => (v.id, v.object)) = q.shownChildren a db) := by
  have hpage : ∀ (s : Snapshots) (v : Option ObjectView),
      q.Fetchable T W a s.rows ∧ ListChildren.Follows T W v →
      q.fetch T W a (v.map (T.cursorOf (some q.orderBy))) s =
        .ok (T.keysetPage q.viewKey q.limit (some q.orderBy) (v.map q.viewKey) (q.views a s)) :=
    fun s v hs => q.fetch_eq hcodec a hparent s hs.1 hs.2
  have hhead : ∀ f ∈ fetches.head?, q.Fetchable T W a f.1.rows ∧ ListChildren.Follows T W none := by
    intro f hf
    exact ⟨hfetchable f (List.mem_of_mem_head? hf), by simp [ListChildren.Follows]⟩
  -- the cursor of a page is that of a child, which can be carried
  have hchain : fetches.IsChain fun f g => q.Fetchable T W a g.1.rows ∧
      ListChildren.Follows T W (itemsOf f.2).getLast? := by
    refine List.Pairwise.isChain (List.pairwise_of_forall_mem_list ?_)
    intro f hf g hg
    refine ⟨hfetchable g hg, ?_⟩
    intro v hv
    obtain ⟨c, hfetch⟩ := h.fetched hf
    have hmem := List.mem_of_getLast? hv
    cases hok : f.2 with
    | error e =>
      rw [hok] at hmem
      cases hmem
    | ok page =>
      rw [hok] at hmem hfetch
      obtain ⟨o, hlisted, heq⟩ := ListChildren.listed_of_fetch hfetch hmem
      have hcarried := (hfetchable f hf).carried v.id o hlisted
      rw [heq]
      exact ⟨hcarried.id, hcarried.name, hcarried.createdAt, hcarried.updatedAt⟩
  have hcomplete : Complete (fun s => q.Shown a s.rows) q.orderBy.sortKey
      (fun v w => q.compare (v.id, v.object) (w.id, w.object) = .lt) fetches ended := by
    have hbefore : (fun v w : ObjectView => q.compare (v.id, v.object) (w.id, w.object) = .lt) =
        fun v w => q.viewKey v < q.viewKey w := by
      funext v w
      exact propext ListChildren.compare_lt
    rw [hbefore]
    refine @Browsing.complete q.order.Keys _ Snapshots SortKey T (q.fetch T W a) q.viewKey q.limit
      (some q.orderBy) (fun s _ => q.views a s)
      (fun s v => q.Fetchable T W a s.rows ∧ ListChildren.Follows T W v) fetches ended
      (fun s => q.Shown a s.rows) q.orderBy.sortKey (fun k => (ofLex (q.order.ofKey k)).2) hlimit hpage
      (fun s _ => q.views_sorted a s) ?_ ?_ ?_ ?_ ?_ h hhead hchain
    · intro f hf _ v hv
      exact (ListChildren.mem_views (hfetchable f hf)).mp ⟨v, hv, rfl, rfl⟩
    · intro f hf _ id o ho _
      exact (ListChildren.mem_views (hfetchable f hf)).mpr ho
    · intro s id o o' ho ho'
      exact ListChildren.shown_unique ho ho'
    · intro v w
      exact ListChildren.key_eq
    · intro v
      exact q.key_id _
  refine ⟨hcomplete, ?_⟩
  intro db hstatic
  -- an empty traversal has ended nowhere
  cases hfetches : fetches with
  | nil =>
    rw [hfetches] at h
    constructor
    · simp
    · intro hended
      cases h
      exact hended.elim
  | cons first others =>
    have hfirst : first ∈ fetches := by
      rw [hfetches]
      exact List.mem_cons_self ..
    have hdb : q.Fetchable T W a db := hstatic first hfirst ▸ hfetchable first hfirst
    rw [← hfetches]
    constructor
    · obtain ⟨found, hfollows, hfound⟩ := @Browsing.follows q.order.Keys _ Snapshots T
        (q.fetch T W a) q.viewKey q.limit (some q.orderBy) (fun s _ => q.views a s)
        (fun s v => q.Fetchable T W a s.rows ∧ ListChildren.Follows T W v) none fetches ended hlimit
        hpage h none rfl hhead hchain
      have hreturned := @allItems_eq_returned q.order.Keys Snapshots (fun s _ => q.views a s)
        fetches found hfound
      have hlength := hfollows.length_le
      rw [← hreturned, ← hfound.length_eq] at hlength
      -- nothing is returned twice, and nothing else than the children
      have hsub : ((allItems fetches).map fun v => (v.id, v.object)) ⊆ q.shownChildren a db := by
        intro e he
        obtain ⟨v, hv, rfl⟩ := List.mem_map.mp he
        obtain ⟨f, hf, hfv⟩ := List.mem_flatMap.mp hv
        have hv' := hcomplete.listed f hf v hfv
        rw [hstatic f hf] at hv'
        exact hdb.mem_shownChildren.mpr hv'
      have hnodup : ((allItems fetches).map fun v => (v.id, v.object)).Nodup := by
        have hsorted : Sorted q.key ((allItems fetches).map fun v => (v.id, v.object)) := by
          unfold Sorted
          rw [List.pairwise_map]
          exact hcomplete.ordered.imp ListChildren.compare_lt.mp
        exact hsorted.nodup_keys.of_map
      have hle := (hnodup.subperm hsub).length_le
      unfold ListChildren.shownChildren at hle
      rw [List.length_map, List.length_map] at hle
      omega
    · intro hended
      rw [eq_true hended] at hcomplete
      exact ListChildren.returned_eq hdb hstatic hcomplete

/-! ## Two folders, one to a page -/

/-- A text for an instant, which is the one of the wire for the epoch. -/
def spellTime (epoch : String) (t : Time) : String := if t = 0 then epoch else toString t

/-- The integer that `Decimal.print` has written. -/
def unprint (digits : List UInt8) : Int :=
  if digits.head? = some 0x2D then -(Decimal.value digits.tail : Int) else Decimal.value digits

/-- The number comes back. -/
theorem unprint_print (n : Int) : unprint (Decimal.print n) = n := by
  unfold unprint
  rcases Decimal.print_cases n with ⟨hn, hnumeral⟩ | ⟨hn, digits, hprint, hnumeral⟩
  · -- a numeral starts with a digit
    have hhead : ¬ (Decimal.print n).head? = some 0x2D := by
      intro hminus
      exact absurd (hnumeral.digits _ (List.mem_of_head? hminus)) (by decide)
    rw [if_neg hhead, hnumeral.value_eq]
    omega
  · rw [hprint, if_pos List.head?_cons, List.tail_cons, hnumeral.value_eq]
    omega

/-- The instant that `spellTime` has written. -/
def unspellTime (epoch text : String) : Option Time :=
  some (if text = epoch then 0 else unprint (Utf8.encode text))

/-- It comes back: no numeral has a `T` in it. -/
theorem unspellTime_spellTime {epoch : String} (h : 'T' ∈ epoch.toList) (t : Time) :
    unspellTime epoch (spellTime epoch t) = some t := by
  unfold unspellTime spellTime
  by_cases ht : t = 0
  · rw [if_pos ht, if_pos rfl, ht]
  · have hne : toString t ≠ epoch := by
      rintro rfl
      rcases Decimal.toString_chars h with h | h
      · exact absurd h (by decide)
      · exact absurd h (by decide)
    rw [if_neg ht, if_neg hne]
    exact congrArg some (unprint_print t)

/-- The cursor behind the folder `a`, as `serde_json` and `base64` write it. -/
def behindA : String := "eyJrIjoiMTk3MC0wMS0wMVQwMDowMDowMCswMDowMCIsImkiOiJhIn0"

/-- What that text stands for. -/
def epochA : KeysetCursor := { k := some "1970-01-01T00:00:00+00:00", i := "a" }

/-- Texts of cursors and instants, of which one is the real one. -/
def epochTexts : Texts where
  encodeCursor c := if c = epochA then behindA else String.ofList (Memory.spell c)
  decodeCursor text := if text = behindA then some epochA else Memory.unspell text.toList
  toRfc3339 := spellTime "1970-01-01T00:00:00+00:00"
  parseRfc3339 := unspellTime "1970-01-01T00:00:00+00:00"

/-- Texts of instants on the wire. -/
def epochTimes : WireTimes where
  timestamp := spellTime "1970-01-01T00:00:00.000000Z"
  toTimestamptz := unspellTime "1970-01-01T00:00:00.000000Z"
  timestamp_isText t := by
    unfold spellTime
    by_cases ht : t = 0
    · rw [if_pos ht]
      decide +kernel
    · rw [if_neg ht]
      exact isText_toString t

/-- Every instant comes through. -/
theorem epochTimes_carries (t : Time) : Carries epochTexts epochTimes t where
  text := unspellTime_spellTime (by decide) t
  wire := unspellTime_spellTime (by decide) t

/-- Every cursor comes back. -/
theorem epochTexts_codec (c : KeysetCursor) :
    epochTexts.decodeCursor (epochTexts.encodeCursor c) = some c := by
  by_cases h : c = epochA
  · rw [h]
    rfl
  · have hne : String.ofList (Memory.spell c) ≠ behindA := by
      intro heq
      refine Memory.spell_head c ?_
      rw [← String.toList_ofList (l := Memory.spell c), heq]
      rfl
    have hencode : epochTexts.encodeCursor c = String.ofList (Memory.spell c) := if_neg h
    have hdecode : epochTexts.decodeCursor (String.ofList (Memory.spell c)) =
        Memory.unspell (String.ofList (Memory.spell c)).toList := if_neg hne
    rw [hencode, hdecode, String.toList_ofList]
    exact Memory.unspell_spell c

/-- A folder below the root, made at the epoch. -/
def folderRow (name : String) : ObjectRow where
  revision := 1
  kind := .folder
  name
  parentId := some rootId
  metadata := .obj .nil
  createdAt := 0
  updatedAt := 0

/-- Two of them. -/
def foldersAB : Db :=
  ((initialDb 0).insert (.object "a") (folderRow "a")).insert (.object "b") (folderRow "b")

/-- The same, once `a` is deleted. -/
def folderB : Db := foldersAB.insert (.object "a") ((folderRow "a").tombstone 1)

/-- The folders by time, one to a page. -/
def oldestFirst : ListChildren :=
  { parentId := rootId, limit := 1, cursor := none, orderBy := .createdAt, order := .asc }

/-- Folders whose metadata is empty can be fetched. -/
theorem fetchable_folders {db : Db} {names : List String}
    (h : oldestFirst.children db = names.map fun name => (name, folderRow name))
    (htexts : ∀ name ∈ names, isText name = true) :
    oldestFirst.Fetchable epochTexts epochTimes a db := by
  have hfolder : ∀ id o, oldestFirst.Listed db id o → isText id = true ∧ o = folderRow id := by
    intro id o hlisted
    have hmem : (id, o) ∈ oldestFirst.children db := ListChildren.mem_children.mpr hlisted
    rw [h] at hmem
    obtain ⟨name, hname, heq⟩ := List.mem_map.mp hmem
    obtain ⟨rfl, rfl⟩ := Prod.mk.inj heq
    exact ⟨htexts _ hname, rfl⟩
  constructor
  · intro id o hlisted
    obtain ⟨hid, rfl⟩ := hfolder id o hlisted
    exact ⟨hid, hid, epochTimes_carries _, epochTimes_carries _⟩
  · intro id o hlisted
    obtain ⟨-, rfl⟩ := hfolder id o hlisted
    cases a <;> rfl

/-- The object that the cursor names is gone at the second fetch. -/
theorem list_children_complete_gone : ∃ fetches : List (Snapshots × DomainResult Page),
    fetches.map (fun f => (f.1.rows.live "a").isSome) = [true, false] ∧
    (allItems fetches).map (·.id) = ["a", "b"] ∧
    Complete (fun s => oldestFirst.Shown .rpc s.rows) oldestFirst.orderBy.sortKey
      (fun v w => oldestFirst.compare (v.id, v.object) (w.id, w.object) = .lt) fetches True := by
  obtain ⟨page, v, hfetch, hnext, hitems, hv⟩ : ∃ page v,
      oldestFirst.fetch epochTexts epochTimes .rpc none ⟨foldersAB, foldersAB, fun _ => id⟩ = .ok page ∧
        page.nextCursor = some behindA ∧ page.items = [v] ∧ v.id = "a" := ⟨_, _, rfl, rfl, rfl, rfl⟩
  obtain ⟨page', w, hfetch', hlast, hitems', hw⟩ : ∃ page v,
      oldestFirst.fetch epochTexts epochTimes .rpc (some behindA) ⟨folderB, folderB, fun _ => id⟩ =
        .ok page ∧ page.nextCursor = none ∧ page.items = [v] ∧ v.id = "b" :=
    ⟨_, _, rfl, rfl, rfl, rfl⟩
  have hfetchable : ∀ f ∈ [((⟨foldersAB, foldersAB, fun _ => id⟩ : Snapshots), (.ok page : DomainResult Page)),
      (⟨folderB, folderB, fun _ => id⟩, .ok page')],
      oldestFirst.Fetchable epochTexts epochTimes .rpc f.1.rows := by
    intro f hf
    rcases List.mem_pair.mp hf with rfl | rfl
    · exact @fetchable_folders .rpc foldersAB ["a", "b"] rfl (by decide +kernel)
    · exact @fetchable_folders .rpc folderB ["b"] rfl (by decide +kernel)
  refine ⟨[(⟨foldersAB, foldersAB, fun _ => id⟩, .ok page),
    (⟨folderB, folderB, fun _ => id⟩, .ok page')], rfl, ?_, ?_⟩
  · simp [allItems, itemsOf, hitems, hitems', hv, hw]
  · exact (list_children_complete epochTexts_codec (by decide +kernel) (by decide)
      hfetchable (.next hfetch hnext (.last hfetch' hlast))).1

/-- Where the rows and their paths are read from one state and the PostgREST
adapter can parse the children, the adapters answer alike, whatever the cursor says. -/
theorem listings_agree (q : ListChildren) (db : Db) (hwire : q.CursorCarried T W)
    (hparsed : ∀ id o, q.Listed db id o → (o.read Adapter.rpc.pageRoom).isSome) :
    q.run T W .rpc ⟨db, db, fun _ => id⟩ = q.run T W .sqlx ⟨db, db, fun _ => id⟩ := by
  have hanswer : ∀ bound, q.answer T .rpc ⟨db, db, fun _ => id⟩ bound =
      q.answer T .sqlx ⟨db, db, fun _ => id⟩ bound := by
    intro bound
    have hread : ∀ v ∈ q.fetched .rpc ⟨db, db, fun _ => id⟩ bound,
        (v.read Adapter.rpc.pageRoom).isSome := by
      intro v hv
      obtain ⟨e, he, rfl⟩ := List.mem_map.mp hv
      obtain ⟨o, ho⟩ := Option.isSome_iff_exists.mp
        (hparsed e.1 e.2 (ListChildren.listed_of_keep (List.mem_of_mem_take he)))
      show ((e.2.read Adapter.rpc.pageRoom).map _).isSome
      rw [ho]
      rfl
    have hread' : ∀ v ∈ q.fetched .rpc ⟨db, db, fun _ => id⟩ bound,
        (v.read Adapter.sqlx.pageRoom).isSome := by
      intro v hv
      obtain ⟨w, hw⟩ := Option.isSome_iff_exists.mp (hread v hv)
      rw [ObjectView.read_mono Adapter.sqlx.pageRoom_le hw]
      rfl
    have hshown : (q.fetched .rpc ⟨db, db, fun _ => id⟩ bound).map Adapter.rpc.shown =
        (q.fetched .rpc ⟨db, db, fun _ => id⟩ bound).map Adapter.sqlx.shown := by
      refine List.map_congr_left ?_
      intro v hv
      exact (Adapter.shown_of_read (hread v hv) .sqlx).symm
    -- with one state for rows and paths, both fetch the same views
    have hfetched : q.fetched .sqlx ⟨db, db, fun _ => id⟩ bound =
        q.fetched .rpc ⟨db, db, fun _ => id⟩ bound := rfl
    unfold ListChildren.answer
    rw [hfetched, Adapter.parseViews_eq, Adapter.parseViews_eq, if_pos hread, if_pos hread', hshown]
  rw [q.run_eq .rpc _ hwire, q.run_eq .sqlx _ hwire]
  cases T.boundBy q with
  | error e => rfl
  | ok bound =>
    show q.reply T .rpc _ bound = q.reply T .sqlx _ bound
    unfold ListChildren.reply
    rw [hanswer]

/-- The cursor of a listing by time comes with one by size. -/
theorem listings_agree_otherOrder : ∃ e, { oldestFirst with
      orderBy := .size, cursor := some behindA }.run epochTexts epochTimes .rpc
        ⟨foldersAB, foldersAB, fun _ => id⟩ = .error e ∧
    { oldestFirst with orderBy := .size, cursor := some behindA }.run epochTexts epochTimes .sqlx
      ⟨foldersAB, foldersAB, fun _ => id⟩ = .error e := by
  obtain ⟨e, he⟩ : ∃ e, { oldestFirst with orderBy := .size, cursor := some behindA }.run epochTexts
      epochTimes .sqlx ⟨foldersAB, foldersAB, fun _ => id⟩ = .error e := ⟨_, rfl⟩
  have hfetchable := @fetchable_folders .rpc foldersAB ["a", "b"] rfl (by decide +kernel)
  have hagree := @listings_agree epochTexts epochTimes
    { oldestFirst with orderBy := .size, cursor := some behindA } foldersAB
    (fun _ _ _ _ _ t _ => (epochTimes_carries t).wire) hfetchable.parsed
  exact ⟨e, hagree.trans he, he⟩

end AnyStore

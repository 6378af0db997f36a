import AnyStore.Refinement.Listing

/-!
# Queries of the two stores

The `sqlx` adapter appends one clause per condition, in which a missing key is
`NULL`; the RPC ships the conditions and asks that none of them be refused. Both
select the objects that meet every condition. What they make of them is another
matter: the database refuses a text with U+0000, and the client of the RPC parses
the page with less room for nested metadata than the driver parses a row.

## Results

* `queries_agree` — both answer with the same page, the first `limit` of the
  objects that meet every condition, if and only if the query can be sent and the
  metadata of these objects, and of the one behind them, can be parsed in the
  room that a page leaves (`ObjectQuery.Answerable`).
* `queries_disagree` — metadata nested 124 deep cannot.
-/

namespace AnyStore

open Keyset

variable {q : ObjectQuery} {doc : Json} {key : String}

/-! ## What a query selects -/

/-- The top-level key is there with the value, or is there as expected. -/
def MetadataCondition.Met (doc : Json) (key : String) : MetadataCondition → Prop
  | .eq value => ∃ x, doc.get? key = some x ∧ x.jsonbEq value = true
  | .present expected => doc.hasKey key = expected

structure ObjectQuery.Selects (q : ObjectQuery) (o : ObjectRow) : Prop where
  live : o.deletedAt = none
  kind : ∀ kind ∈ q.kind, o.kind = kind
  name : ∀ name ∈ q.name, o.name = name
  parent : ∀ parent ∈ q.parentId, o.parentId = some parent
  metadata : ∀ c ∈ q.metadata, c.2.Met o.metadata c.1

/-! ## The two encodings of a condition -/

/-- A clause of the driver is true exactly if its condition is met. -/
theorem MetadataCondition.clause_eq_true {c : MetadataCondition} :
    c.clause doc key = some true ↔ c.Met doc key := by
  rcases c with value | _ | _
  · -- a missing key is `NULL`, which is not true
    unfold MetadataCondition.clause MetadataCondition.Met sqlEq
    cases doc.get? key <;> simp
  · unfold MetadataCondition.clause MetadataCondition.Met SqlBool.not
    simp
  · unfold MetadataCondition.clause MetadataCondition.Met
    simp

/-- A condition is refused if and only if it is not met: its test is never `NULL`. -/
theorem refused_iff {c : String × MetadataCondition} :
    (∀ r ∈ rpcConditions [c], (SqlBool.not (r.holds doc)).keeps = false) ↔ c.2.Met doc c.1 := by
  obtain ⟨key, value | expected⟩ := c
  · unfold rpcConditions MetadataCondition.Met RpcCondition.holds isNotDistinctFrom
    cases hget : doc.get? key <;> simp [SqlBool.not, SqlBool.keeps, hget]
  · unfold rpcConditions MetadataCondition.Met RpcCondition.holds
    cases hkey : doc.hasKey key <;> cases expected <;>
      simp [SqlBool.not, SqlBool.keeps, Json.toBoolean, hkey]

/-- The procedure refuses a row for any condition that is not met. -/
theorem noneRefused_iff {conditions : List (String × MetadataCondition)} :
    ((rpcConditions conditions).filter fun r =>
        (SqlBool.not (r.holds doc)).keeps).isEmpty = true ↔
      ∀ c ∈ conditions, c.2.Met doc c.1 := by
  rw [List.isEmpty_iff, List.filter_eq_nil_iff]
  constructor
  · intro h c hc
    refine refused_iff.mp ?_
    intro r hr
    have hmem : r ∈ rpcConditions conditions := by
      unfold rpcConditions at hr ⊢
      rw [List.map_singleton, List.mem_singleton] at hr
      exact hr ▸ List.mem_map_of_mem hc
    simpa using h r hmem
  · intro h r hr
    obtain ⟨c, hc, rfl⟩ := List.mem_map.mp hr
    simpa using refused_iff.mpr (h c hc) _ (List.mem_singleton_self _)

/-! ## The two `WHERE` clauses -/

variable {cursor : Option KeysetCursor} {id : ObjectId} {o : ObjectRow}

/-- So the driver selects the objects that meet every condition, behind the cursor, -/
theorem ObjectQuery.whereSqlx_keeps : (q.whereSqlx cursor id o).keeps = true ↔
    q.Selects o ∧ ∀ k ∈ cursor.map KeysetCursor.i, k < id := by
  rw [SqlBool.keeps_iff]
  unfold ObjectQuery.whereSqlx
  rw [SqlBool.foldl_and]
  simp only [List.forall_mem_cons, List.forall_mem_append, List.forall_mem_map,
    MetadataCondition.clause_eq_true, sqlFilter_eq_true, sqlAfter_eq_true, List.not_mem_nil, IsEmpty.forall_iff, implies_true,
    Option.some.injEq, true_and, and_true, Option.isNone_iff_eq_none]
  constructor
  · rintro ⟨hlive, hkind, hname, hparent, hmetadata, hafter⟩
    exact ⟨⟨hlive, hkind, hname, hparent, hmetadata⟩, hafter⟩
  · rintro ⟨h, hafter⟩
    exact ⟨h.live, h.kind, h.name, h.parent, h.metadata, hafter⟩

/-- and the procedure the same ones. -/
theorem ObjectQuery.whereRpc_keeps : (q.whereRpc cursor id o).keeps = true ↔
    q.Selects o ∧ ∀ k ∈ cursor.map KeysetCursor.i, k < id := by
  rw [SqlBool.keeps_iff]
  unfold ObjectQuery.whereRpc
  rw [SqlBool.foldl_and]
  simp only [List.forall_mem_cons, sqlFilter_eq_true, sqlAfter_eq_true, List.not_mem_nil, IsEmpty.forall_iff, implies_true,
    Option.some.injEq, true_and, and_true, Option.isNone_iff_eq_none, noneRefused_iff]
  constructor
  · rintro ⟨hlive, hkind, hname, hparent, hafter, hmetadata⟩
    exact ⟨⟨hlive, hkind, hname, hparent, hmetadata⟩, hafter⟩
  · rintro ⟨h, hafter⟩
    exact ⟨h.live, h.kind, h.name, h.parent, hafter, h.metadata⟩

/-- Both conditions come to the same. -/
theorem ObjectQuery.where_eq : (q.whereRpc cursor id o).keeps = (q.whereSqlx cursor id o).keeps :=
  Bool.eq_iff_iff.mpr (q.whereRpc_keeps.trans q.whereSqlx_keeps.symm)

/-! ## The pages -/

/-- Everything that a query selects, in the order of the ids. -/
def ObjectQuery.found (q : ObjectQuery) (db : Db) : List ObjectView :=
  arrange (·.id) (db.selectViews fun id o => (q.whereSqlx none id o).keeps)

/-- What is found is in the order of the ids. -/
theorem ObjectQuery.found_sorted (q : ObjectQuery) (db : Db) :
    Sorted (·.id) (q.found db) :=
  arrange_sorted Db.selectViews_ids

/-- It is what the query selects. -/
theorem ObjectQuery.mem_found {db : Db} {v : ObjectView} :
    v ∈ q.found db ↔ ∃ o, db.object v.id = some o ∧ q.Selects o ∧ v = db.viewOf v.id o := by
  unfold ObjectQuery.found
  rw [mem_arrange, Db.mem_selectViews]
  simp [ObjectQuery.whereSqlx_keeps]

/-- The rows of one statement, ordered and cut. -/
theorem ObjectQuery.firstById_select (db : Db) (n : Nat) :
    firstById n (db.selectViews fun id o => (q.whereSqlx cursor id o).keeps) =
      (after (·.id) (cursor.map KeysetCursor.i) (q.found db)).take n := by
  have hkeep : ∀ id o, (q.whereSqlx cursor id o).keeps = ((q.whereSqlx none id o).keeps &&
      decide (∀ k ∈ cursor.map KeysetCursor.i, k < id)) := by
    intro id o
    rw [Bool.eq_iff_iff, ObjectQuery.whereSqlx_keeps, Bool.and_eq_true,
      ObjectQuery.whereSqlx_keeps, decide_eq_true_eq]
    simp
  rw [firstById_eq_arrange, ObjectQuery.found, ← arrange_after Db.selectViews_ids,
    Db.selectViews_filter hkeep]
  rfl

/-- What one statement fetches: the page behind the cursor and one object more. -/
def ObjectQuery.fetched (q : ObjectQuery) (cursor : Option KeysetCursor)
    (found : List ObjectView) : List ObjectView :=
  (after (·.id) (cursor.map KeysetCursor.i) found).take (q.limit + 1)

/-- What both adapters do once they have read the cursor. -/
theorem ObjectQuery.run_eq (T : Texts) (a : Adapter) (q : ObjectQuery) (db : Db) :
    q.run T a db = (T.readCursor q.cursor).bind fun cursor =>
      if q.hasNul cursor then .error (mapSqlx .other)
      else if ∀ v ∈ q.fetched cursor (q.found db), (v.read a.pageRoom).isSome then
        .ok (T.finishPage ((q.fetched cursor (q.found db)).map a.shown) q.limit none)
      else .error a.unparsed := by
  have hparse : ∀ cursor : Option KeysetCursor,
      ((a.parseViews (q.fetched cursor (q.found db))).bind fun items =>
        (.ok (T.finishPage items q.limit none) : DomainResult Page)) =
      if ∀ v ∈ q.fetched cursor (q.found db), (v.read a.pageRoom).isSome then
        .ok (T.finishPage ((q.fetched cursor (q.found db)).map a.shown) q.limit none)
      else .error a.unparsed := by
    intro cursor
    rw [Adapter.parseViews_eq]
    by_cases hall : ∀ v ∈ q.fetched cursor (q.found db), (v.read a.pageRoom).isSome
    · rw [if_pos hall, if_pos hall]
      rfl
    · rw [if_neg hall, if_neg hall]
      rfl
  cases hread : T.readCursor q.cursor with
  | error e =>
    cases a with
    | sqlx =>
      show (T.readCursor q.cursor).bind _ = _
      rw [hread]
      rfl
    | rpc =>
      show (T.readCursor q.cursor).bind _ = _
      rw [hread]
      rfl
  | ok cursor =>
    show _ = if q.hasNul cursor then _ else _
    rw [← hparse]
    cases a with
    | sqlx =>
      show (T.readCursor q.cursor).bind _ = _
      rw [hread]
      show (q.send cursor).bind _ = _
      unfold ObjectQuery.send ObjectQuery.fetched
      rw [← ObjectQuery.firstById_select]
      by_cases hnul : q.hasNul cursor
      · rw [if_pos hnul, if_pos hnul]
        rfl
      · rw [if_neg hnul, if_neg hnul]
        rfl
    | rpc =>
      show (T.readCursor q.cursor).bind _ = _
      rw [hread]
      show (q.send cursor).bind _ = _
      -- sorting the sorted rows once more changes nothing
      have hsorted : Sorted (·.id) (firstById (q.limit + 1)
          (db.selectViews fun id o => (q.whereSqlx cursor id o).keeps)) :=
        (arrange_sorted Db.selectViews_ids).sublist (List.take_sublist _ _)
      have hagain := hsorted.arrange_eq
      unfold arrange at hagain
      simp only [ObjectQuery.where_eq]
      rw [hagain]
      unfold ObjectQuery.send ObjectQuery.fetched
      rw [← ObjectQuery.firstById_select]
      by_cases hnul : q.hasNul cursor
      · rw [if_pos hnul, if_pos hnul]
        rfl
      · rw [if_neg hnul, if_neg hnul]
        rfl

/-- A query that can be sent is answered unless what is fetched cannot be parsed. -/
theorem ObjectQuery.run_sent {T : Texts} {q : ObjectQuery} {cursor : Option KeysetCursor}
    (hread : T.readCursor q.cursor = .ok cursor) (hplain : q.hasNul cursor = false) (a : Adapter)
    (db : Db) : q.run T a db =
      if ∀ v ∈ q.fetched cursor (q.found db), (v.read a.pageRoom).isSome then
        .ok (T.finishPage ((q.fetched cursor (q.found db)).map a.shown) q.limit none)
      else .error a.unparsed := by
  rw [ObjectQuery.run_eq, hread]
  show (if q.hasNul cursor then _ else _) = _
  rw [hplain, if_neg Bool.false_ne_true]

/-! ## Agreement -/

/-- The page, with its metadata as it is parsed. -/
structure Page.Shows (page expected : Page) : Prop where
  items : List.Forall₂ (fun v w => w.read columnRoom = some v) page.items expected.items
  nextCursor : page.nextCursor = expected.nextCursor
  hasMore : page.hasMore = expected.hasMore

/-- Both stores answer with the first `limit` of the objects found, in the order
of their ids behind the cursor. -/
def ObjectQuery.Agrees (T : Texts) (q : ObjectQuery) (db : Db) (found : List ObjectView) : Prop :=
  ∀ cursor, T.readCursor q.cursor = .ok cursor → ∃ page : Page, (∀ a, q.run T a db = .ok page) ∧
    page.Shows (T.keysetPage (·.id) q.limit none (cursor.map KeysetCursor.i) found)

/-- No text of the query has U+0000, and the metadata of what is fetched can be
parsed where it lies in a page. -/
def ObjectQuery.Answerable (T : Texts) (q : ObjectQuery) (found : List ObjectView) : Prop :=
  ∀ cursor, T.readCursor q.cursor = .ok cursor → q.hasNul cursor = false ∧
    ∀ v ∈ q.fetched cursor found, (v.read Adapter.rpc.pageRoom).isSome

/-- Parsing changes neither the length of a page nor where it ends. -/
theorem Texts.finishPage_shown (T : Texts) (a : Adapter) (items : List ObjectView) (limit : Nat)
    (h : ∀ v ∈ items, (v.read a.pageRoom).isSome) (hroom : a.pageRoom ≤ columnRoom) :
    (T.finishPage (items.map a.shown) limit none).Shows (T.finishPage items limit none) := by
  have hitems : (T.finishPage (items.map a.shown) limit none).items =
      (items.take limit).map a.shown := (List.map_take ..).symm
  -- the cursor is made of the id alone
  have hcursor : ∀ v, T.cursorOf none (a.shown v) = T.cursorOf none v := by
    intro v
    unfold Texts.cursorOf
    rw [Adapter.shown_id]
    rfl
  refine ⟨?_, ?_, ?_⟩
  · rw [hitems]
    show List.Forall₂ _ _ (items.take limit)
    rw [List.forall₂_map_left_iff, List.forall₂_same]
    intro v hv
    obtain ⟨w, hw⟩ := Option.isSome_iff_exists.mp (h v (List.mem_of_mem_take hv))
    unfold Adapter.shown
    rw [hw]
    exact ObjectView.read_mono hroom hw
  · show (if limit < (items.map a.shown).length then
        ((items.map a.shown).take limit).getLast?.map (T.cursorOf none) else none) =
      if limit < items.length then (items.take limit).getLast?.map (T.cursorOf none) else none
    rw [List.length_map, ← List.map_take, List.getLast?_map, Option.map_map]
    congr 2
    funext v
    exact hcursor v
  · show decide (limit < (items.map a.shown).length) = decide (limit < items.length)
    rw [List.length_map]

/-- Where everything can be parsed in the lesser room, both hand out one page. -/
theorem ObjectQuery.run_answerable {T : Texts} {q : ObjectQuery} {db : Db}
    {cursor : Option KeysetCursor} (hread : T.readCursor q.cursor = .ok cursor)
    (hplain : q.hasNul cursor = false)
    (hall : ∀ v ∈ q.fetched cursor (q.found db), (v.read Adapter.rpc.pageRoom).isSome)
    (a : Adapter) : q.run T a db =
      .ok (T.finishPage ((q.fetched cursor (q.found db)).map Adapter.rpc.shown) q.limit none) := by
  have hmore : ∀ v ∈ q.fetched cursor (q.found db), (v.read a.pageRoom).isSome := by
    intro v hv
    obtain ⟨w, hw⟩ := Option.isSome_iff_exists.mp (hall v hv)
    rw [ObjectView.read_mono a.pageRoom_le hw]
    rfl
  have hshown : (q.fetched cursor (q.found db)).map a.shown =
      (q.fetched cursor (q.found db)).map Adapter.rpc.shown :=
    List.map_congr_left fun v hv => Adapter.shown_of_read (hall v hv) a
  rw [ObjectQuery.run_sent hread hplain, if_pos hmore, hshown]

/-- The adapters agree on what is found exactly if both can answer. -/
theorem ObjectQuery.agrees_iff (T : Texts) (q : ObjectQuery) (db : Db) :
    q.Agrees T db (q.found db) ↔ q.Answerable T (q.found db) := by
  constructor
  · intro h cursor hread
    obtain ⟨page, hpage, -⟩ := h cursor hread
    -- the RPC has answered, so it could send the query and parse the page
    have hrpc := hpage .rpc
    rw [ObjectQuery.run_eq, hread] at hrpc
    change (if q.hasNul cursor then _ else _) = _ at hrpc
    cases hnul : q.hasNul cursor with
    | true =>
      rw [hnul, if_pos rfl] at hrpc
      cases hrpc
    | false =>
      rw [hnul, if_neg Bool.false_ne_true] at hrpc
      refine ⟨rfl, ?_⟩
      by_contra hall
      rw [if_neg hall] at hrpc
      cases hrpc
  · intro h cursor hread
    obtain ⟨hplain, hall⟩ := h cursor hread
    refine ⟨_, ObjectQuery.run_answerable hread hplain hall, ?_⟩
    have hshows := T.finishPage_shown .rpc (q.fetched cursor (q.found db)) q.limit hall (by decide)
    have hpage : T.finishPage (q.fetched cursor (q.found db)) q.limit none =
        T.keysetPage (·.id) q.limit none (cursor.map KeysetCursor.i) (q.found db) := by
      unfold ObjectQuery.fetched
      rw [T.finishPage_take, T.finishPage_after]
    rwa [hpage] at hshows

/-- A query finds the live objects that meet every condition. Both stores answer
with the first `limit` of them behind the cursor exactly where the query can be
sent and what is fetched can be parsed; a corrupt cursor is refused by both. -/
theorem queries_agree (T : Texts) (q : ObjectQuery) (db : Db) :
    ∃ found : List ObjectView,
      Sorted (·.id) found ∧
      (∀ v, v ∈ found ↔ ∃ o, db.object v.id = some o ∧ q.Selects o ∧ v = db.viewOf v.id o) ∧
      (∀ e, T.readCursor q.cursor = .error e → ∀ a, q.run T a db = .error e) ∧
      (q.Agrees T db found ↔ q.Answerable T found) := by
  refine ⟨q.found db, q.found_sorted db, fun v => q.mem_found, ?_, q.agrees_iff T db⟩
  intro e he a
  rw [ObjectQuery.run_eq, he]
  rfl

/-! ## Metadata that is nested deep -/

/-- An array in an array, and so on. -/
def nestedArrays : Nat → Json
  | 0 => .null
  | n + 1 => .arr (.cons (nestedArrays n) .nil)

/-- Arrays in one another are read as long as there is room for them. -/
theorem read_nestedArrays (n room : Nat) :
    (nestedArrays n).read room = if n ≤ room then some (nestedArrays n) else none := by
  induction n generalizing room with
  | zero => rw [if_pos (Nat.zero_le room)]; rfl
  | succ n ih =>
    cases room with
    | zero => rfl
    | succ room =>
      show ((do return .cons (← (nestedArrays n).read room) .nil : Option Items)).map Json.arr = _
      rw [ih]
      by_cases h : n ≤ room
      · rw [if_pos h, if_pos (Nat.succ_le_succ h)]
        rfl
      · rw [if_neg h, if_neg fun h' => h (Nat.le_of_succ_le_succ h')]
        rfl

/-- A folder below the root, with metadata 124 levels deep. -/
def deepRow : ObjectRow where
  revision := 1
  kind := .folder
  name := "a"
  parentId := some rootId
  metadata := .obj (.cons "k" (nestedArrays 123) .nil)
  createdAt := 0
  updatedAt := 0

/-- The object below the root. -/
def deepDb : Db := (initialDb 0).insert (.object "a") deepRow

/-- The same of the object that holds them. -/
theorem read_deepView (room : Nat) : (deepDb.viewOf "a" deepRow).read (room + 1) =
    if 123 ≤ room then some (deepDb.viewOf "a" deepRow) else none := by
  have hmetadata : deepRow.metadata.read (room + 1) =
      if 123 ≤ room then some deepRow.metadata else none := by
    show ((Members.cons "k" (nestedArrays 123) .nil).read room).map Json.obj = _
    rw [Members.read_cons, read_nestedArrays]
    by_cases h : 123 ≤ room
    · rw [if_pos h, if_pos h]
      rfl
    · rw [if_neg h, if_neg h]
      rfl
  show ((deepRow.metadata.read (room + 1)).map fun metadata => { deepRow with metadata }).map
    (fun object => { deepDb.viewOf "a" deepRow with object }) = _
  rw [hmetadata]
  by_cases h : 123 ≤ room
  · rw [if_pos h, if_pos h]
    rfl
  · rw [if_neg h, if_neg h]
    rfl

/-- The folders below the root. -/
def belowRoot : ObjectQuery where
  kind := none
  name := none
  parentId := some rootId
  metadata := []
  limit := 10
  cursor := none

/-- No cursor is written or read here. -/
def noCursors : Texts where
  encodeCursor _ := ""
  decodeCursor _ := none
  toRfc3339 := toString
  parseRfc3339 _ := none

/-- The driver parses the row, and the client of the RPC cannot parse the page. -/
theorem queries_disagree :
    (∃ page, belowRoot.run noCursors .sqlx deepDb = .ok page ∧ page.items.map (·.id) = ["a"]) ∧
      belowRoot.run noCursors .rpc deepDb = .error Adapter.rpc.unparsed ∧
      ∀ found, ¬ belowRoot.Agrees noCursors deepDb found := by
  have hfetched : belowRoot.fetched none (belowRoot.found deepDb) = [deepDb.viewOf "a" deepRow] := rfl
  have hrun := fun a : Adapter =>
    @ObjectQuery.run_sent noCursors belowRoot none rfl (by decide) a deepDb
  -- the page leaves room for 123 containers only
  have hrpc : belowRoot.run noCursors .rpc deepDb = .error Adapter.rpc.unparsed := by
    have hnot : ¬ ∀ v ∈ [deepDb.viewOf "a" deepRow], (v.read Adapter.rpc.pageRoom).isSome := by
      rw [List.forall_mem_singleton, show Adapter.rpc.pageRoom = 122 + 1 from rfl, read_deepView,
        if_neg (by decide)]
      exact Bool.false_ne_true
    rw [hrun, hfetched, if_neg hnot]
  -- a row leaves room for 127
  have hsqlx : belowRoot.run noCursors .sqlx deepDb =
      .ok (noCursors.finishPage [deepDb.viewOf "a" deepRow] 10 none) := by
    have hshown : Adapter.sqlx.shown (deepDb.viewOf "a" deepRow) = deepDb.viewOf "a" deepRow := by
      unfold Adapter.shown
      rw [show Adapter.sqlx.pageRoom = 126 + 1 from rfl, read_deepView]
      rfl
    have hall : ∀ v ∈ [deepDb.viewOf "a" deepRow], (v.read Adapter.sqlx.pageRoom).isSome := by
      rw [List.forall_mem_singleton, show Adapter.sqlx.pageRoom = 126 + 1 from rfl, read_deepView,
        if_pos (by decide)]
      rfl
    rw [hrun, hfetched, if_pos hall, List.map_singleton, hshown]
    rfl
  refine ⟨⟨_, hsqlx, rfl⟩, hrpc, ?_⟩
  intro found h
  obtain ⟨page, hpage, -⟩ := h none rfl
  rw [hpage .rpc] at hrpc
  cases hrpc

end AnyStore

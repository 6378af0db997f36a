import AnyStore.Lib.Decimal
import AnyStore.Model.Objects
import Mathlib.Algebra.Group.Int.Defs
import Mathlib.Algebra.Group.Nat.Defs

/-!
# Listings and queries

`list_children` and `query_objects` of the two SQL stores, over the rows of the
snapshots that they read. Strings are compared by code points, as under the `C`
collation. The text of a cursor and RFC 3339 times come from other crates and are
parameters; times are whole microseconds.

Both adapters send the texts of a query to the database, which refuses U+0000,
and parse the metadata of every row that comes back, the look-ahead row too.
-/

namespace AnyStore

/-! ## Commands -/

inductive OrderBy
  | name
  | createdAt
  | updatedAt
  | size
  deriving DecidableEq

inductive ListOrder
  | asc
  | desc
  deriving DecidableEq

structure ListChildren where
  parentId : ObjectId
  limit : Nat
  cursor : Option String
  orderBy : OrderBy
  order : ListOrder

/-- A condition on one top-level key of the metadata: `Eq` or `Exists`. -/
inductive MetadataCondition
  | eq (value : Json)
  | present (expected : Bool)

structure ObjectQuery where
  kind : Option ObjectKind
  name : Option String
  parentId : Option ObjectId
  metadata : List (String × MetadataCondition)
  limit : Nat
  cursor : Option String

/-- The sort key and the id of the last item of a page. -/
structure KeysetCursor where
  k : Option String
  i : ObjectId
  deriving DecidableEq

structure Page where
  items : List ObjectView
  nextCursor : Option String
  hasMore : Bool

/-- `encode_cursor` and `decode_cursor`, which go through `serde_json` and
`base64`, and the texts of times, which `chrono` writes and reads. -/
structure Texts where
  encodeCursor : KeysetCursor → String
  decodeCursor : String → Option KeysetCursor
  toRfc3339 : Time → String
  parseRfc3339 : String → Option Time

variable (T : Texts)

def invalidCursor : DomainError := .invalidRequest "Invalid cursor."

def Texts.readCursor (cursor : Option String) : DomainResult (Option KeysetCursor) :=
  match cursor with
  | none => .ok none
  | some text =>
    match T.decodeCursor text with
    | some c => .ok (some c)
    | none => .error invalidCursor

/-- Texts that are sent to the database. -/
def sendTexts (texts : List String) : DomainResult Unit :=
  if texts.all isText then .ok () else .error (mapSqlx .other)

/-- In the answer of `client.rs` a page is an array in an object in the envelope. -/
def Adapter.pageRoom (a : Adapter) : Nat :=
  match a with
  | .sqlx => columnRoom
  | .rpc => columnRoom - 4

def Adapter.parseViews (a : Adapter) (views : List ObjectView) : DomainResult (List ObjectView) :=
  match views.mapM (·.read a.pageRoom) with
  | some views => .ok views
  | none => .error a.unparsed

/-! ## Sort keys -/

/-- `size.map(|s| s as i64).unwrap_or(-1)`. -/
def ObjectRow.sizeKey (o : ObjectRow) : Int :=
  match o.sizeBytes with
  | some s => Int.bmod s (2 ^ 64)
  | none => -1

/-- `sort_key_of`. -/
def Texts.sortKeyOf (view : ObjectView) (orderBy : Option OrderBy) : Option String :=
  match orderBy with
  | none => none
  | some .name => some view.object.name
  | some .createdAt => some (T.toRfc3339 view.object.createdAt)
  | some .updatedAt => some (T.toRfc3339 view.object.updatedAt)
  | some .size => some (toString view.object.sizeKey)

/-- The sort expression of an order; ties are broken by the id. -/
def OrderBy.compare (orderBy : OrderBy) (a b : ObjectRow) : Ordering :=
  match orderBy with
  | .name => Ord.compare a.name b.name
  | .createdAt => Ord.compare a.createdAt b.createdAt
  | .updatedAt => Ord.compare a.updatedAt b.updatedAt
  | .size => Ord.compare a.sizeKey b.sizeKey

def ListOrder.apply (order : ListOrder) (ordering : Ordering) : Ordering :=
  match order with
  | .asc => ordering
  | .desc => ordering.swap

def ListChildren.compare (q : ListChildren) (a b : ObjectId × ObjectRow) : Ordering :=
  q.order.apply ((q.orderBy.compare a.2 b.2).then (Ord.compare a.1 b.1))

/-! ## Pages -/

/-- `finish_page`: trims the look-ahead row and builds the continuation cursor. -/
def Texts.finishPage (items : List ObjectView) (limit : Nat) (orderBy : Option OrderBy) : Page where
  items := items.take limit
  nextCursor :=
    if limit < items.length then
      (items.take limit).getLast?.map fun last =>
        T.encodeCursor { k := T.sortKeyOf last orderBy, i := last.id }
    else none
  hasMore := decide (limit < items.length)

/-! ## Metadata conditions -/

def Members.get? (key : String) : Members → Option Json
  | .nil => none
  | .cons k x m => if k = key then some x else m.get? key

def Items.hasStr (key : String) : Items → Bool
  | .nil => false
  | .cons x xs => x = .str key || xs.hasStr key

/-- `jsonb -> text`; `none` is `NULL`. -/
def Json.get? (doc : Json) (key : String) : Option Json :=
  match doc with
  | .obj m => m.get? key
  | _ => none

/-- `jsonb_exists`: the text is a top-level key or an element of an array. -/
def Json.hasKey (doc : Json) (key : String) : Bool :=
  match doc with
  | .obj m => (m.get? key).isSome
  | .arr xs => xs.hasStr key
  | .str s => s = key
  | _ => false

/-- Equality of `jsonb`. -/
def Json.jsonbEq (x y : Json) : Bool := x.normalize true = y.normalize true

/-- A truth value of SQL; `none` is `NULL`. -/
abbrev SqlBool := Option Bool

def SqlBool.and : SqlBool → SqlBool → SqlBool
  | some false, _ => some false
  | _, some false => some false
  | some true, some true => some true
  | _, _ => none

def SqlBool.not (b : SqlBool) : SqlBool := b.map (!·)

/-- `=` of `jsonb`: `NULL` is equal to nothing. -/
def sqlEq (x y : Option Json) : SqlBool :=
  match x, y with
  | some x, some y => some (x.jsonbEq y)
  | _, _ => none

def isNotDistinctFrom (x y : Option Json) : Bool :=
  match x, y with
  | some x, some y => x.jsonbEq y
  | none, none => true
  | _, _ => false

/-- The text that the `sqlx` adapter appends for one condition. -/
def MetadataCondition.clause (doc : Json) (key : String) : MetadataCondition → SqlBool
  | .eq value => sqlEq (doc.get? key) (some value)
  | .present true => some (doc.hasKey key)
  | .present false => SqlBool.not (some (doc.hasKey key))

/-- An element of the array that the PostgREST adapter sends. -/
structure RpcCondition where
  key : String
  op : String
  value : Json

/-- `metadata_conditions`. -/
def rpcConditions (conditions : List (String × MetadataCondition)) : List RpcCondition :=
  conditions.map fun c =>
    match c.2 with
    | .eq value => { key := c.1, op := "eq", value }
    | .present expected => { key := c.1, op := "exists", value := .bool expected }

/-- `(cond->>'value')::boolean`, on what the adapter sends. -/
def Json.toBoolean : Json → SqlBool
  | .bool b => some b
  | _ => none

/-- The `CASE` over one condition. -/
def RpcCondition.holds (doc : Json) (c : RpcCondition) : SqlBool :=
  if c.op = "eq" then some (isNotDistinctFrom (doc.get? c.key) (some c.value))
  else if c.op = "exists" then c.value.toBoolean.map fun b => doc.hasKey c.key == b
  else some false

/-! ## `query_objects` -/

/-- `column = $n` for a filter that was given; a column may be `NULL`. -/
def sqlFilter {α : Type} [DecidableEq α] (column filter : Option α) : SqlBool :=
  match filter with
  | none => some true
  | some x => column.map fun y => decide (y = x)

def sqlAfter (id : ObjectId) (cursor : Option KeysetCursor) : SqlBool :=
  match cursor with
  | none => some true
  | some c => some (decide (c.i < id))

/-- Rows that a `WHERE` clause keeps. -/
def SqlBool.keeps (b : SqlBool) : Bool := b = some true

/-- The `WHERE` clause that the `sqlx` adapter builds. -/
def ObjectQuery.whereSqlx (q : ObjectQuery) (cursor : Option KeysetCursor) (id : ObjectId)
    (o : ObjectRow) : SqlBool :=
  let metadata := q.metadata.map fun c => c.2.clause o.metadata c.1
  let clauses := some o.deletedAt.isNone :: sqlFilter (some o.kind) q.kind ::
    sqlFilter (some o.name) q.name :: sqlFilter o.parentId q.parentId ::
      (metadata ++ [sqlAfter id cursor])
  clauses.foldl SqlBool.and (some true)

/-- The `WHERE` clause of `anystore_op_query_objects`. -/
def ObjectQuery.whereRpc (q : ObjectQuery) (cursor : Option KeysetCursor) (id : ObjectId)
    (o : ObjectRow) : SqlBool :=
  let refused := (rpcConditions q.metadata).filter fun c =>
    (SqlBool.not (c.holds o.metadata)).keeps
  let clauses := [some o.deletedAt.isNone, sqlFilter (some o.kind) q.kind,
    sqlFilter (some o.name) q.name, sqlFilter o.parentId q.parentId, sqlAfter id cursor,
    some refused.isEmpty]
  clauses.foldl SqlBool.and (some true)

/-- `SELECT … WHERE …`, in the order in which the rows are scanned. -/
def Db.selectViews (db : Db) (keep : ObjectId → ObjectRow → Bool) : List ObjectView :=
  db.objectIds.filterMap fun id =>
    ((db.object id).filter (keep id)).map fun object => { id, object, path := db.path id }

/-- `ORDER BY id ASC LIMIT n`. -/
def firstById (n : Nat) (views : List ObjectView) : List ObjectView :=
  (views.insertionSort fun a b => a.id ≤ b.id).take n

/-- A text of the query, or of its cursor, has U+0000 in it. -/
def ObjectQuery.hasNul (q : ObjectQuery) (cursor : Option KeysetCursor) : Bool :=
  q.name.any (!isText ·) || q.parentId.any (!isText ·) || cursor.any (!isText ·.i) ||
    q.metadata.any fun c => !isText c.1 || match c.2 with
      | .eq value => value.hasNul
      | .present _ => false

def ObjectQuery.send (q : ObjectQuery) (cursor : Option KeysetCursor) : DomainResult Unit :=
  if q.hasNul cursor then .error (mapSqlx .other) else .ok ()

def ObjectQuery.runSqlx (q : ObjectQuery) (db : Db) : DomainResult Page := do
  let cursor ← T.readCursor q.cursor
  q.send cursor
  let rows := db.selectViews fun id o => (q.whereSqlx cursor id o).keeps
  let items ← Adapter.sqlx.parseViews (firstById (q.limit + 1) rows)
  return T.finishPage items q.limit none

/-- The views are aggregated by `jsonb_agg(t.view ORDER BY t.id)` once more. -/
def ObjectQuery.runRpc (q : ObjectQuery) (db : Db) : DomainResult Page := do
  let cursor ← T.readCursor q.cursor
  q.send cursor
  let rows := db.selectViews fun id o => (q.whereRpc cursor id o).keeps
  let items ← Adapter.rpc.parseViews
    ((firstById (q.limit + 1) rows).insertionSort fun a b => a.id ≤ b.id)
  return T.finishPage items q.limit none

def ObjectQuery.run (a : Adapter) : ObjectQuery → Db → DomainResult Page :=
  match a with
  | .sqlx => ObjectQuery.runSqlx T
  | .rpc => ObjectQuery.runRpc T

/-! ## `list_children` -/

/-- A value that a sort expression has or is compared with. -/
inductive SortValue
  | text (s : String)
  | timestamptz (t : Time)
  | bigint (n : Int)
  deriving DecidableEq

/-- `order_expression`; `COALESCE(size_bytes, -1)` over a column of 64 bits. -/
def OrderBy.expression (orderBy : OrderBy) (o : ObjectRow) : SortValue :=
  match orderBy with
  | .name => .text o.name
  | .createdAt => .timestamptz o.createdAt
  | .updatedAt => .timestamptz o.updatedAt
  | .size => .bigint o.sizeKey

def SortValue.compare : SortValue → SortValue → Ordering
  | .text a, .text b => Ord.compare a b
  | .timestamptz a, .timestamptz b => Ord.compare a b
  | .bigint a, .bigint b => Ord.compare a b
  -- the sides of a comparison have one type
  | _, _ => .eq

/-- `bind_sort_key`. -/
def Texts.bindSortKey (orderBy : OrderBy) (key : Option String) : DomainResult SortValue :=
  match key with
  | none => .error invalidCursor
  | some key =>
    match orderBy with
    | .name => .ok (.text key)
    | .createdAt | .updatedAt =>
      match T.parseRfc3339 key with
      | some t => .ok (.timestamptz t)
      | none => .error invalidCursor
    | .size =>
      match parseI64 (Utf8.encode key) with
      | some n => .ok (.bigint n)
      | none => .error invalidCursor

/-- `(sort_expr, id) > (key, cursor)`, or `<` where the order is descending. -/
def ListChildren.isBehind (orderBy : OrderBy) (order : ListOrder)
    (bound : Option (SortValue × ObjectId)) (id : ObjectId) (o : ObjectRow) : Bool :=
  match bound with
  | none => true
  | some (value, cursor) =>
    order.apply (((orderBy.expression o).compare value).then (Ord.compare id cursor)) = .gt

/-- The rows that a `WHERE` clause keeps. -/
def Db.selectRows (db : Db) (keep : ObjectId → ObjectRow → Bool) : List (ObjectId × ObjectRow) :=
  db.objectIds.filterMap fun id => ((db.object id).filter (keep id)).map fun o => (id, o)

/-- `ORDER BY sort_expr, id`. -/
def ListChildren.sort (q : ListChildren) (rows : List (ObjectId × ObjectRow)) :
    List (ObjectId × ObjectRow) :=
  rows.insertionSort fun a b => (q.compare a b).isLE

def ListChildren.keep (q : ListChildren) (bound : Option (SortValue × ObjectId)) (id : ObjectId)
    (o : ObjectRow) : Bool :=
  o.deletedAt.isNone && decide (o.parentId = some q.parentId) &&
    ListChildren.isBehind q.orderBy q.order bound id o

/-- `attach_paths`. -/
def attachPaths (paths : Db) (rows : List (ObjectId × ObjectRow)) : DomainResult (List ObjectView) :=
  rows.mapM fun r =>
    if (paths.object r.1).isSome then .ok { id := r.1, object := r.2, path := paths.path r.1 }
    else .error (.internal "failed to render object path")

/-- `finish_page`, which renders the paths of the rows that stay. -/
def Texts.finishRows (paths : Db) (rows : List (ObjectId × ObjectRow)) (limit : Nat)
    (orderBy : Option OrderBy) : DomainResult Page := do
  let hasMore := decide (limit < rows.length)
  let items ← attachPaths paths (rows.take limit)
  return {
    items
    nextCursor :=
      if hasMore then items.getLast?.map fun last =>
        T.encodeCursor { k := T.sortKeyOf last orderBy, i := last.id }
      else none
    hasMore }

/-- What a listing reads: the rows, and then the paths, in statements of their
own. No row of an object is ever removed. -/
structure Snapshots where
  rows : Db
  paths : Db
  kept : ∀ id, (rows.object id).isSome → (paths.object id).isSome

/-- `decode_object` of every row. -/
def decodeRows (rows : List (ObjectId × ObjectRow)) : DomainResult (List (ObjectId × ObjectRow)) :=
  match rows.mapM fun r => (r.2.read columnRoom).map (r.1, ·) with
  | some rows => .ok rows
  | none => .error (mapSqlx .other)

def SortValue.texts : SortValue → List String
  | .text s => [s]
  | _ => []

def ListChildren.runSqlx (q : ListChildren) (db : Snapshots) : DomainResult Page := do
  let bound ← match ← T.readCursor q.cursor with
    | none => .ok none
    | some c => (T.bindSortKey q.orderBy c.k).map fun key => some (key, c.i)
  sendTexts (q.parentId :: bound.elim [] fun b => b.2 :: b.1.texts)
  let rows ← decodeRows ((q.sort (db.rows.selectRows (q.keep bound))).take (q.limit + 1))
  T.finishRows db.paths rows q.limit (some q.orderBy)

/-! ## `anystore_op_list_children` -/

/-- Times as the PostgREST adapter writes them and as a cast reads them. -/
structure WireTimes where
  timestamp : Time → String
  toTimestamptz : String → Option Time
  timestamp_isText : ∀ t, isText (timestamp t) = true

def orderByName : OrderBy → String
  | .name => "name"
  | .createdAt => "created_at"
  | .updatedAt => "updated_at"
  | .size => "size"

def orderName : ListOrder → String
  | .asc => "asc"
  | .desc => "desc"

/-- `normalize_sort_key`. -/
def Texts.normalizeSortKey (W : WireTimes) (orderBy : OrderBy) (key : Option String) :
    DomainResult String :=
  match key with
  | none => .error invalidCursor
  | some key =>
    match orderBy with
    | .name => .ok key
    | .createdAt | .updatedAt =>
      match T.parseRfc3339 key with
      | some t => .ok (W.timestamp t)
      | none => .error invalidCursor
    | .size =>
      match parseI64 (Utf8.encode key) with
      | some n => .ok (toString n)
      | none => .error invalidCursor

/-- The parameters of the RPC. -/
structure RpcListing where
  parentId : ObjectId
  limit : Nat
  orderBy : String
  order : String
  cursorKey : Option String
  cursorId : Option ObjectId

/-- `v_sort`. -/
def sortExpression (orderBy : String) : Option OrderBy :=
  if orderBy = "name" then some .name
  else if orderBy = "created_at" then some .createdAt
  else if orderBy = "updated_at" then some .updatedAt
  else if orderBy = "size" then some .size
  else none

/-- `v_dir` and `v_cmp`. -/
def sortDirection (order : String) : Option ListOrder :=
  if order = "asc" then some .asc else if order = "desc" then some .desc else none

/-- `v_cast`; numbers arrive as `to_string` prints them. -/
def castSortKey (W : WireTimes) (orderBy : OrderBy) (key : String) :
    Except ReadCommitted.SqlError SortValue :=
  match orderBy with
  | .name => .ok (.text key)
  | .createdAt | .updatedAt =>
    match W.toTimestamptz key with
    | some t => .ok (.timestamptz t)
    | none => .error .other
  | .size =>
    match parseI64 (Utf8.encode key) with
    | some n => .ok (.bigint n)
    | none => .error .other

/-- The views of one statement, numbered in the order of the listing, cut, and
aggregated in the order of their numbers. -/
def opListChildren (W : WireTimes) (p : RpcListing) (db : Db) : DomainResult (List ObjectView) :=
  match sortExpression p.orderBy, sortDirection p.order with
  | some orderBy, some order => do
    let q : ListChildren :=
      { parentId := p.parentId, limit := p.limit, cursor := none, orderBy, order }
    let bound ← match p.cursorId with
      | none => .ok none
      | some id =>
        match p.cursorKey with
        -- nothing is greater or less than `NULL`
        | none => return []
        | some key =>
          match castSortKey W orderBy key with
          | .ok value => .ok (some (value, id))
          | .error e => .error (mapSqlx e)
    let numbered := (q.sort (db.selectRows (q.keep bound))).zipIdx.take p.limit
    return (numbered.insertionSort fun a b => a.2 ≤ b.2).map fun r =>
      { id := r.1.1, object := r.1.2, path := db.path r.1.1 }
  | _, _ => .error (.invalidRequest "Invalid listing order.")

def ListChildren.runRpc (W : WireTimes) (q : ListChildren) (db : Db) : DomainResult Page := do
  let cursor ← T.readCursor q.cursor
  let cursorKey ← match cursor with
    | none => .ok none
    | some c => (T.normalizeSortKey W q.orderBy c.k).map some
  sendTexts (q.parentId :: (cursorKey.toList ++ (cursor.map (·.i)).toList))
  let items ← opListChildren W {
    parentId := q.parentId
    -- one extra row decides `has_more`
    limit := q.limit + 1
    orderBy := orderByName q.orderBy
    order := orderName q.order
    cursorKey
    cursorId := cursor.map (·.i) } db
  let items ← Adapter.rpc.parseViews items
  return T.finishPage items q.limit (some q.orderBy)

/-- The RPC is one statement: it reads its paths with its rows. -/
def ListChildren.run (W : WireTimes) (a : Adapter) (q : ListChildren) (db : Snapshots) :
    DomainResult Page :=
  match a with
  | .sqlx => q.runSqlx T db
  | .rpc => q.runRpc T W db.rows

end AnyStore

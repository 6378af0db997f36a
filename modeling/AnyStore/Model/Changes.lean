import AnyStore.Model.Uploads

/-!
# The Changes feed

`read_changes` of the two SQL stores. A cursor is created unmaterialised; its
first read binds the page limit and the page bounds to it.
-/

namespace AnyStore

open ReadCommitted

/-- The Change records with `lo < seq ≤ hi`, in the order of the feed. -/
def Db.changesBetween (db : Db) (lo hi : Nat) : List (Nat × ChangeRecord) :=
  ((db.seqs.filter fun seq => lo < seq ∧ seq ≤ hi).insertionSort (· ≤ ·)).filterMap fun seq =>
    (db.change seq).map (seq, ·)

def Db.countChangesAfter (db : Db) (afterSeq : Nat) : Nat :=
  (db.seqs.filter fun seq => afterSeq < seq).length

/-- `COALESCE(MAX(seq), after_seq)`, and no less than `after_seq`. -/
def Db.snapshotMaxSeq (db : Db) (afterSeq : Nat) : Nat := max (db.seqs.max?.getD afterSeq) afterSeq

structure BuiltPage where
  items : List (Nat × ChangeRecord)
  pageEndSeq : Nat
  snapshotMaxSeq : Nat
  hasMore : Bool
  lag : Nat

/-- The end of a page: its last record, or where it starts. -/
def pageEnd (items : List (Nat × ChangeRecord)) (afterSeq : Nat) : Nat :=
  (items.getLast?.map Prod.fst).getD afterSeq

def selectPage (afterSeq snapshot limit : Nat) : Stmt (List (Nat × ChangeRecord)) :=
  statement (.page afterSeq) fun db => .ok {
    result := (db.changesBetween afterSeq snapshot).take limit }

/-- `build_page`: four statements, each with its own snapshot. -/
def buildPage (afterSeq limit : Nat) : Store BuiltPage := do
  let snapshot ← run (select fun db => db.snapshotMaxSeq afterSeq)
  -- records that were committed since lie behind the snapshot
  let items ← run (selectPage afterSeq snapshot limit)
  let hasMore ← run (select fun db =>
    decide (db.changesBetween (pageEnd items afterSeq) snapshot ≠ []))
  let lag ← run (select fun db => db.countChangesAfter (pageEnd items afterSeq))
  return { items, pageEndSeq := pageEnd items afterSeq, snapshotMaxSeq := snapshot, hasMore, lag }

/-- `anystore_build_change_page` is `STABLE`, so its queries share one snapshot. -/
def buildPageAtOnce (afterSeq limit : Nat) : Stmt BuiltPage :=
  statement (.page afterSeq) fun db =>
    let snapshot := db.snapshotMaxSeq afterSeq
    let items := (db.changesBetween afterSeq snapshot).take limit
    .ok { result := {
      items
      pageEndSeq := pageEnd items afterSeq
      snapshotMaxSeq := snapshot
      hasMore := (db.changesBetween (pageEnd items afterSeq) snapshot) ≠ []
      lag := db.countChangesAfter (pageEnd items afterSeq) } }

def Adapter.buildPage (a : Adapter) (afterSeq limit : Nat) : Store BuiltPage :=
  match a with
  | .sqlx => AnyStore.buildPage afterSeq limit
  | .rpc => run (buildPageAtOnce afterSeq limit)

def insertCursor (id : CursorId) (row : CursorRow) : Stmt Unit :=
  statement .other fun db =>
    if (db.cursor id).isSome then .error .uniqueKey
    else .ok { result := (), writes := [⟨.cursor id, some row⟩] }

def selectCursorForUpdate (id : CursorId) : Stmt (Option CursorRow) :=
  statement .other fun db => .ok {
    result := db.cursor id
    locks := if (db.cursor id).isSome then [(.cursor id, .update)] else [] }

def CursorRow.materialize (c : CursorRow) (limit : Nat) (built : BuiltPage) (next : CursorId) :
    CursorRow :=
  { c with
    materialized := true
    pageLimit := some limit
    snapshotMaxSeq := some built.snapshotMaxSeq
    pageEndSeq := some built.pageEndSeq
    hasMore := some built.hasMore
    nextCursorId := some next }

def materializeCursor (id : CursorId) (limit : Nat) (built : BuiltPage) (next : CursorId) :
    Stmt Unit :=
  statement .other fun db =>
    match db.cursor id with
    -- the row is locked, and does not go
    | none => .ok { result := () }
    | some c => .ok { result := (), writes := [⟨.cursor id, some (c.materialize limit built next)⟩] }

/-- The id of the continuation cursor: drawn when it is inserted, or by the
PostgREST adapter beforehand. -/
def cursorId (given : Option CursorId) : Store CursorId :=
  match given with
  | some id => return id
  | none => return CursorId.pre ++ (← ulid none)

/-- The page that follows `afterSeq`, with a new cursor at its end. -/
def freshPage (a : Adapter) (req : ReadChanges) (given : Option CursorId) (afterSeq : Nat) :
    Store (BuiltPage × CursorId) := do
  let built ← a.buildPage afterSeq req.limit
  let next ← cursorId given
  run (insertCursor next {
    afterSeq := built.pageEndSeq, createdAt := req.now, expiresAt := req.cursorExpiresAt })
  return (built, next)

def BuiltPage.page (built : BuiltPage) (next : CursorId) : ChangePage where
  items := built.items.map Prod.snd
  nextCursor := next
  hasMore := built.hasMore
  lag := built.lag

def selectMaterializedPage (afterSeq pageEndSeq : Nat) : Stmt (List ChangeRecord) :=
  statement (.page afterSeq) fun db => .ok {
    result := (db.changesBetween afterSeq pageEndSeq).map Prod.snd }

/-- Reads the page of a cursor that was read before. -/
def materializedPage (req : ReadChanges) (c : CursorRow) : Store ChangePage := do
  -- the page is the one of the first read
  require (c.pageLimit = some req.limit)
    (DomainError.invalidRequest "This cursor was already read with a different limit.")
  let pageEndSeq ← Prog.orFail (.sqlx .other) c.pageEndSeq
  let hasMore ← Prog.orFail (.sqlx .other) c.hasMore
  let nextCursor ← Prog.orFail (.sqlx .other) c.nextCursorId
  let items ← run (selectMaterializedPage c.afterSeq pageEndSeq)
  let lag ← run (select fun db => db.countChangesAfter pageEndSeq)
  return { items, nextCursor, hasMore, lag }

def readPage (a : Adapter) (req : ReadChanges) (given : Option CursorId) : Store ChangePage :=
  transaction mapSqlx (.readChanges req) do
    let watermark ← Prog.orFail (.sqlx .other) (← run (select fun db => db.purgedThrough))
    match req.cursor with
    | none =>
      -- an initial read starts from the oldest retained Change
      let (built, next) ← freshPage a req given watermark
      return built.page next
    | some cursor =>
      require (CursorId.isWellFormed cursor) (DomainError.invalidRequest "Invalid cursor.")
      requireText cursor
      -- a second reader waits here, and finds the cursor materialised
      let c ← Prog.orFail .changesCursorExpired (← run (selectCursorForUpdate cursor))
      -- too old, or what follows it was purged
      require (¬ (c.expiresAt ≤ req.now ∨ c.afterSeq < watermark)) DomainError.changesCursorExpired
      if c.materialized then materializedPage req c
      else
        let (built, next) ← freshPage a req given c.afterSeq
        run (materializeCursor cursor req.limit built next)
        return built.page next

def readChanges (a : Adapter) (req : ReadChanges) : Store ChangePage :=
  match a with
  | .sqlx => readPage a req none
  | .rpc => do
    require (∀ c ∈ req.cursor, CursorId.isWellFormed c) (DomainError.invalidRequest "Invalid cursor.")
    -- the id goes with the payload, whether it is needed or not
    let next ← cursorId none
    readPage a req (some next)

end AnyStore

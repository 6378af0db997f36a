import AnyStore.Model.Listing
import AnyStore.Model.Paths

/-!
# Resolving paths

`get_object` and `resolve_path` of the two SQL stores. The sqlx adapter walks
down in one snapshot, reads the row in a later one and the path in a third; the
function of the RPC adapter reads everything in one. Either has to parse the
metadata of the object that it returns.
-/

namespace AnyStore

-- `{:?}` of a string
variable (debug : String → String)

/-- The live objects below `parent` with this name. -/
def Db.named (db : Db) (parent : ObjectId) (name : String) : List ObjectId :=
  db.objectIds.filter fun id =>
    (db.live id).any fun o => o.parentId = some parent ∧ o.name = name

/-- `RESOLVE_QUERY`: from the rows of the walk with one index to those with the
next one. -/
def Db.walkDown (db : Db) : List ObjectId → List String → List ObjectId
  | ids, [] => ids
  | ids, segment :: segments => db.walkDown (ids.flatMap fun id => db.named id segment) segments

/-- An object that was found, with its metadata parsed. -/
def Adapter.parseFound (a : Adapter) (found : Option ObjectView) :
    DomainResult (Option ObjectView) :=
  match found with
  | none => .ok none
  | some view =>
    match view.read a.viewRoom with
    | some view => .ok (some view)
    | none => .error a.unparsed

/-- What `load_view` fetches. -/
def Snapshots.getObject (db : Snapshots) (id : ObjectId) : Option ObjectView :=
  (db.rows.live id).map fun object => { id, object, path := db.paths.path id }

def resolvePathSqlx (path : String) (walk : Db) (db : Snapshots) :
    DomainResult (Option ObjectView) := do
  let segments ← splitPath debug path
  if segments = [] then Adapter.sqlx.parseFound (db.getObject rootId)
  else Adapter.sqlx.parseFound ((walk.walkDown [rootId] segments).head?.bind db.getObject)

/-- `anystore_op_get_object`. -/
def Db.getObject (db : Db) (id : ObjectId) : Option ObjectView :=
  (db.live id).map fun object => { id, object, path := db.path id }

/-- The loop of `anystore_op_resolve_path`; `SELECT INTO` takes the first row. -/
def Db.follow (db : Db) : ObjectId → List String → Option ObjectId
  | id, [] => some id
  | id, segment :: segments =>
    match (db.named id segment).head? with
    | none => none
    | some child => db.follow child segments

def resolvePathRpc (path : String) (db : Db) : DomainResult (Option ObjectView) := do
  let segments ← splitPath debug path
  Adapter.rpc.parseFound ((db.follow rootId segments).bind db.getObject)

/-- A lookup that no other write comes between. -/
def resolvePath (a : Adapter) (path : String) (db : Db) : DomainResult (Option ObjectView) :=
  match a with
  | .sqlx => resolvePathSqlx debug path db ⟨db, db, fun _ => id⟩
  | .rpc => resolvePathRpc debug path db

end AnyStore

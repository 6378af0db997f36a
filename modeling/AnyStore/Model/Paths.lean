import AnyStore.Model.Domain

/-!
# Paths

`path.rs` of `anystore-domain`: paths are made of the names on the way down
from the root.
-/

namespace AnyStore

-- `{:?}` of a string
variable (debug : String → String)

def invalidSegment (raw : String) : DomainError :=
  .invalidRequest ("path segment " ++ debug raw ++ " is not a valid name.")

/-- The loop of `split_path`. Empty pieces are passed over, which tolerates a
trailing slash and collapses repeated separators. -/
def collectSegments : List String → List String → DomainResult (List String)
  | [], segments => .ok segments
  | raw :: pieces, segments =>
    if raw.isEmpty then collectSegments pieces segments
    else
      match validateName raw with
      | .ok () => collectSegments pieces (segments ++ [raw])
      | .error _ => .error (invalidSegment debug raw)

/-- `split` at a character. -/
def pieces (sep : Char) (text : String) : List String :=
  (text.toList.splitOn sep).map String.ofList

def splitPath (path : String) : DomainResult (List String) :=
  if path.toList.head? ≠ some '/' then .error (.invalidRequest "path must start with '/'.")
  else if '\x00' ∈ path.toList then .error (.invalidRequest "path must not contain NUL.")
  else collectSegments debug (pieces '/' path) []

def renderPath (segments : List String) : String :=
  if segments = [] then "/"
  else segments.foldl (fun out segment => out ++ "/" ++ segment) ""

end AnyStore

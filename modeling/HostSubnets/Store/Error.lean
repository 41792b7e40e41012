import HostSubnets.SortedMap

/-!
# Errors of the node store

* `ApiError` : why a request to the API server has no result;
* `StoreError` : why a node record was not read or written, with the two causes a caller acts on:
  `StoreError.isConflict` and `StoreError.isNotFound`;
* `StoreError.ofApi` : the cause that a server's answer stands for;
* `CacheError` : why there is no local copy of the node records.
-/

namespace HostSubnets

inductive ApiError where
  | status (code : Nat) (reason : String)
  | undecodable
  | unbuildable
deriving DecidableEq, Repr

namespace ApiError

/-- The object changed since it was read. -/
def isConflict : ApiError → Bool
  | .status code _ => code == 409
  | _ => false

def isNotFound : ApiError → Bool
  | .status code _ => code == 404
  | _ => false

end ApiError

inductive StoreError where
  | conflict (node : String)
  | notFound (node : String)
  | api (error : ApiError)
  | encode (node reason : String)
deriving DecidableEq, Repr

namespace StoreError

def isConflict : StoreError → Bool
  | .conflict _ => true
  | _ => false

def isNotFound : StoreError → Bool
  | .notFound _ => true
  | _ => false

/-- The message of an error; the wording of the API server's errors is left open. -/
def message? : StoreError → Option String
  | .conflict node => some ("node " ++ node ++ " was modified since it was read")
  | .notFound node => some ("node " ++ node ++ " not found")
  | .api _ => none
  | .encode node reason => some ("failed to encode node " ++ node ++ ": " ++ reason)

/-- The cause that a failed request for one node stands for. -/
def ofApi (node : String) (e : ApiError) : StoreError :=
  if e.isConflict then .conflict node else if e.isNotFound then .notFound node else .api e

end StoreError

inductive CacheError where
  | creation (reason : String)
  | api (error : ApiError)
deriving DecidableEq, Repr

def CacheError.message? : CacheError → Option String
  | .creation reason => some ("failed to create store: " ++ reason)
  | .api _ => none

end HostSubnets

import HostSubnets.Api.Server

/-!
# A local copy of the node records

The copy is filled from a list of all records and then follows the changes that are reported. A
list that the server refuses is asked for again after a while. A node without a name cannot be
kept, so the copy is given up when the list has one.

* `Cache.ofNodes`, `Cache.absorb` : the copy after a list and after a change;
* `Cache.ofList` : the copy that a list makes, if it can be kept;
* `Cache.list` : one request for the list;
* `Cache.fill` : requests within a limit of time.
-/

namespace HostSubnets

/-- Node records as they were last seen. -/
abbrev Cache := Records

namespace Cache

def listDelay : Nat := 1200

def timedOut : CacheError := .creation "timed out waiting for store"

def abandoned : CacheError := .creation "writer was dropped before store became ready"

def ofNodes (nodes : List Node) : Cache := nodes.foldl (fun cache n => Records.put n cache) .empty

def absorb (cache : Cache) : Api.Change → Cache
  | .written n => Records.put n cache
  | .removed n => SortedMap.erase cache n.key

def ofList (nodes : List Node) : Except CacheError Cache :=
  if nodes.all (·.name.isSome) then .ok (ofNodes nodes) else .error abandoned

/-- One request for all records, none if it is refused. Changes up to now are part of the list. -/
def list (server : Api.Server) : Option (Except CacheError Cache) × Api.Server :=
  let (result, server) := Api.Server.ops.list "" server
  (result.toOption.map ofList, server.takeChanges.2)

def fillFrom (server : Api.Server) : (attempts : Nat) → Except CacheError Cache × Api.Server
  | 0 => (.error timedOut, server)
  | attempts + 1 =>
    match list server with
    | (some result, server) => (result, server)
    | (none, server) => fillFrom server attempts

/-- Requests until one succeeds. They are made at once and then after `listDelay` each, as long as
`limit` milliseconds have not passed. -/
def fill (limit : Nat) (server : Api.Server) : Except CacheError Cache × Api.Server :=
  fillFrom server ((limit + listDelay - 1) / listDelay)

end Cache

end HostSubnets

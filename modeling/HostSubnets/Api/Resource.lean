import HostSubnets.Text.Uri

/-!
# What addresses refer to

* `Api.nodesPath` : the path of all records;
* `Api.Resource` : what a server keeps at its addresses;
* `Api.Resource.ofUri?` : the resource of an address. Names stand in the path as they are.
-/

namespace HostSubnets.Api

def nodesPath : String := "/api/v1/nodes"

inductive Resource where
  | nodes (selector : String)
  | node (name : String)
  /-- The part of a record that may be written. -/
  | status (name : String)
deriving DecidableEq, Repr

namespace Resource

def queryValue? (name : String) (query : List Char) : Option String :=
  let start := name.toList ++ ['=']
  ((query.splitOn '&').find? start.isPrefixOf).bind fun part =>
    Text.formDecode (part.drop start.length)

def ofName (name : List Char) : Resource :=
  let ending := "/status".toList
  if ending.isSuffixOf name then .status (String.ofList (name.take (name.length - ending.length)))
  else .node (String.ofList name)

/-- The resource of an address without its fragment. -/
def ofUri? (uri : List Char) : Option Resource :=
  let path := Text.pathOf uri
  let start := nodesPath.toList
  if path = start ∨ path = start ++ ['/'] then
    some (.nodes ((queryValue? "labelSelector" (Text.queryOf uri)).getD ""))
  else if (start ++ ['/']).isPrefixOf path then some (ofName (path.drop (start.length + 1)))
  else none

end Resource

end HostSubnets.Api

import HostSubnets.Metrics.Text
import HostSubnets.Text.Uri

/-!
# What is served about a controller

Two pages: the metrics, and whether the controller is ready.

* `Page.at?` : the page of a path;
* `PageReply`, `PageReply.of` : the reply to a request.
-/

namespace HostSubnets

inductive Page where
  | metrics
  | readiness
deriving DecidableEq, Repr

def Page.at? (path : List Char) : Option Page :=
  if path = "/metrics".toList then some .metrics
  else if path = "/readyz".toList then some .readiness
  else none

inductive PageBody where
  | empty
  | text (text : String)
  | lines (lines : List String)
deriving DecidableEq, Repr

structure PageReply where
  code : Nat
  body : PageBody
deriving DecidableEq, Repr

namespace PageReply

def shown (ready : Bool) (m : Metrics) : Page → PageReply
  | .metrics => ⟨200, .lines m.lines⟩
  | .readiness => if ready then ⟨200, .text "Ok"⟩ else ⟨500, .text "NotReady"⟩

/-- Whether a text may be a method: a word of letters, digits and a few signs. -/
def isMethod (method : String) : Bool :=
  method ≠ "" && method.toList.all fun c => c.isAlphanum || "!#$%&'*+-.^_|~\x60".toList.contains c

/-- The reply to a request for a path. Pages can be read, with or without their body. -/
def ofPath (method : String) (path : List Char) (ready : Bool) (m : Metrics) : PageReply :=
  match Page.at? path with
  | none => ⟨404, .empty⟩
  | some page =>
    if method = "GET" then shown ready m page
    else if method = "HEAD" then { shown ready m page with body := .empty }
    else ⟨405, .empty⟩

/-- The reply to a request, which may be malformed. -/
def of (method target : String) (ready : Bool) (m : Metrics) : PageReply :=
  match Text.targetPath? target.toList with
  | none => ⟨400, .empty⟩
  | some path => if isMethod method then ofPath method path ready m else ⟨400, .empty⟩

end PageReply

end HostSubnets

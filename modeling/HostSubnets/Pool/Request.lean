import HostSubnets.Pool.Basic
import HostSubnets.Task

/-!
# Pool operations as requests

Every operation of a pool is carried out in one piece, so that programs on different tasks see it
happen at once.

* `Pool.Request`, `Pool.Request.Reply` : the operations and what they answer;
* `Pool.Request.perform` : their effect;
* `Pool.Program` : programs of such requests.
-/

namespace HostSubnets.Pool

inductive Request where
  | addRange (network : Cidr) (hostLength : Nat)
  | allocate (owner : String) (family : Family)
  | mark (owner : String) (subnets : List Cidr)
  | release (owner : String) (subnets : List Cidr)
  | releaseAll (owner : String)
  | allocated (owner : String)
  | count
  | usage

namespace Request

abbrev Reply : Request → Type
  | addRange .. => Except PoolError Unit
  | allocate .. => Except PoolError (Option Cidr)
  | mark .. => Except PoolError Unit
  | release .. => Except PoolError Unit
  | releaseAll .. => List Cidr
  | allocated .. => List Cidr
  | count => PerFamily Nat
  | usage => PerFamily Nat

/-- The reply to a request and the pool after it. -/
def perform : (request : Request) → Pool → request.Reply × Pool
  | addRange network hostLength, p => p.addRange network hostLength
  | allocate owner family, p => p.allocate owner family
  | mark owner subnets, p => p.mark owner subnets
  | release owner subnets, p => p.release owner subnets
  | releaseAll owner, p => p.releaseAll owner
  | allocated owner, p => (p.allocated owner, p)
  | count, p => (p.count, p)
  | usage, p => (p.usage, p)

end Request

abbrev Program (α : Type) := Task Request Request.Reply α

def Program.runAlone {α : Type} (program : Program α) (p : Pool) : α × Pool :=
  Task.run Request.perform program p

end HostSubnets.Pool

import HostSubnets.Cidr.Basic
import HostSubnets.Cidr.V6

/-!
# Address blocks as text

An address, a slash and a length. Without slash and length the block is the single address. An IPv4
length may also be written as a netmask; a netmask that is not contiguous is an error.

* `Cidr.read` : a text as a block, read as IPv4 first;
* `Cidr.write`, `Cidr.toString` : the text of a block, host bits kept;
* `Cidr.invalidAddress` : the message for a text that is no block.
-/

namespace HostSubnets.Cidr

open HostSubnets.Text (readNat showNat)

def writeAddress : Family → Nat → List Char
  | .v4 => V4.write
  | .v6 => V6.write

/-- The text before the only slash and the text after it; none if there are two slashes. -/
def splitLength (s : List Char) : Option (List Char × Option (List Char)) :=
  match s.span (· != '/') with
  | (address, []) => some (address, none)
  | (address, _ :: length) => if '/' ∈ length then none else some (address, some length)

def readLength (bits : Nat) (s : List Char) : Option Nat :=
  match readNat 255 s with
  | .ok length => if length ≤ bits then some length else none
  | .error _ => none

def readV4 (s : List Char) : Option Cidr := do
  let (address, length) ← splitLength s
  let address ← V4.read address
  match length with
  | none => of? .v4 address 32
  | some text =>
    match V4.read text with
    | some mask => of? .v4 address (← V4.netmaskLength mask)
    | none => of? .v4 address (← readLength 32 text)

def readV6 (s : List Char) : Option Cidr := do
  let (address, length) ← splitLength s
  let address ← V6.read address
  match length with
  | none => of? .v6 address 128
  | some text => of? .v6 address (← readLength 128 text)

/-- The block that a text names. -/
def read (s : List Char) : Option Cidr := readV4 s <|> readV6 s

def write (c : Cidr) : List Char :=
  writeAddress c.family c.address ++ '/' :: showNat c.length

protected def toString (c : Cidr) : String := String.ofList c.write

def addressText (c : Cidr) : String := String.ofList (writeAddress c.family c.address)

def invalidAddress (s : List Char) : String := "invalid address: " ++ String.ofList s

end HostSubnets.Cidr

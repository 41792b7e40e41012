import HostSubnets.Cidr.V4

/-!
# IPv6 addresses as text

Eight groups of sixteen bits in hexadecimal with colons between them. One run of zero groups may be
left out as a double colon, and the last two groups may be written as an IPv4 address.

* `readGroups` : groups at the start of a text, as many as there is room for;
* `readStart` : an address at the start of a text and what follows it;
* `read` : a text that is an address and nothing else;
* `groups`, `ofGroups` : an address and its eight groups;
* `longestRun` : the first of the longest runs of zero groups;
* `write` : the canonical text: lower case, no leading zeros, the longest run of at least two zero
  groups left out, and IPv4-mapped addresses with their IPv4 part in its own notation.
-/

namespace HostSubnets.V6

open HostSubnets.Text (hexValue)

def hexDigits : List Char → List Nat
  | [] => []
  | c :: rest =>
    match hexValue c with
    | some d => d :: hexDigits rest
    | none => []

def readGroup (s : List Char) : Option (Nat × List Char) :=
  let digits := hexDigits s
  if digits = [] ∨ 4 < digits.length then none
  else some (digits.foldl (fun value d => 16 * value + d) 0, s.drop digits.length)

/-- Groups read from the start of a text. -/
structure Groups where
  values : List Nat
  /-- The last two groups were written as an IPv4 address. -/
  mixed : Bool
  rest : List Char

/-- Up to `room` groups. All but the very first follow a colon, and an IPv4 address, which ends the
groups, needs room for two. -/
def readGroups (started : Bool) : (room : Nat) → List Char → Groups
  | 0, s => ⟨[], false, s⟩
  | room + 1, s =>
    let group := match started, s with
      | false, s => some s
      | true, ':' :: s => some s
      | true, _ => none
    match group with
    | none => ⟨[], false, s⟩
    | some text =>
      match if room = 0 then none else V4.readStart text with
      | some (address, rest) => ⟨[address / 65536, address % 65536], true, rest⟩
      | none =>
        match readGroup text with
        | none => ⟨[], false, s⟩
        | some (value, rest) =>
          let more := readGroups true room rest
          ⟨value :: more.values, more.mixed, more.rest⟩

def ofGroups (values : List Nat) : Nat := values.foldl (fun address g => address * 65536 + g) 0

def groups (address : Nat) : List Nat :=
  [7, 6, 5, 4, 3, 2, 1, 0].map fun i => address / 65536 ^ i % 65536

def readStart (s : List Char) : Option (Nat × List Char) :=
  let head := readGroups false 8 s
  let known := head.values.length
  if known = 8 then some (ofGroups head.values, head.rest)
  else if head.mixed then none
  else
    match head.rest with
    | ':' :: ':' :: rest =>
      let tail := readGroups false (7 - known) rest
      let gap := List.replicate (8 - known - tail.values.length) 0
      some (ofGroups (head.values ++ gap ++ tail.values), tail.rest)
    | _ => none

def read (s : List Char) : Option Nat :=
  match readStart s with
  | some (address, []) => some address
  | _ => none

/-- Start and length of the first of the longest runs of zeros; positions count from `start`. -/
def longestRun (start : Nat) : List Nat → Nat × Nat
  | [] => (start, 0)
  | g :: rest =>
    let here := ((g :: rest).takeWhile (· == 0)).length
    let later := longestRun (start + 1) rest
    if here < later.2 then later else (start, here)

def writeGroups (values : List Nat) : List Char :=
  ((values.map (Nat.toDigits 16)).intersperse [':']).flatten

/-- The canonical text of an address. -/
def write (address : Nat) : List Char :=
  if address / 2 ^ 32 = 0xffff then "::ffff:".toList ++ V4.write (address % 2 ^ 32)
  else
    let values := groups address
    let (start, length) := longestRun 0 values
    if 1 < length then
      writeGroups (values.take start) ++ ':' :: ':' :: writeGroups (values.drop (start + length))
    else writeGroups values

end HostSubnets.V6

import HostSubnets.Text.Numeral

/-!
# Texts in addresses of resources

* `formEncode`, `formDecode` : a text as a value in a query. Letters, digits and `*`, `-`, `.`, `_`
  stay as they are, a blank becomes a plus sign, and every other byte of the UTF-8 form is written
  in hexadecimal after a percent sign;
* `checkUri` : a path with a query, if all its characters may stand there. What follows a number
  sign is left out;
* `pathOf`, `queryOf` : the parts before and after the first question mark;
* `targetPath?` : the path of the target of a request.
-/

namespace HostSubnets.Text

def utf8 (s : List Char) : List UInt8 := s.flatMap String.utf8EncodeChar

/-- A hexadecimal digit in upper case. -/
def upperHexDigit (n : Nat) : Char := (Nat.digitChar n).toUpper

/-- Whether a byte stays as it is in a query value. -/
def isFormByte (b : UInt8) : Bool :=
  let c := Char.ofNat b.toNat
  b < 0x80 && (c.isAlphanum || c == '*' || c == '-' || c == '.' || c == '_')

def formEncodeByte (b : UInt8) : List Char :=
  if isFormByte b then [Char.ofNat b.toNat]
  else if b = 0x20 then ['+']
  else ['%', upperHexDigit (b.toNat / 16), upperHexDigit (b.toNat % 16)]

def formEncode (s : List Char) : List Char := (utf8 s).flatMap formEncodeByte

def formBytes : List Char → List UInt8
  | [] => []
  | '+' :: rest => 0x20 :: formBytes rest
  | '%' :: a :: b :: rest =>
    match hexValue a, hexValue b with
    | some high, some low => UInt8.ofNat (16 * high + low) :: formBytes rest
    | _, _ => utf8 ['%'] ++ formBytes (a :: b :: rest)
  | c :: rest => utf8 [c] ++ formBytes rest

/-- The text that a value in a query stands for, if its bytes are UTF-8. -/
def formDecode (s : List Char) : Option String := String.fromUTF8? ⟨(formBytes s).toArray⟩

/-! ## Paths and queries -/

def isPathChar (c : Char) : Bool :=
  let n := c.toNat
  n == 0x21 || n == 0x22 || (0x24 ≤ n && n ≤ 0x3b) || n == 0x3d || (0x40 ≤ n && n ≤ 0x5f) ||
    (0x61 ≤ n && n ≤ 0x7e) || 0x80 ≤ n

def isQueryChar (c : Char) : Bool :=
  let n := c.toNat
  n == 0x21 || (0x24 ≤ n && n ≤ 0x3b) || n == 0x3d || (0x3f ≤ n && n ≤ 0x7e) || 0x80 ≤ n

/-- A query whose characters may all stand there. -/
def checkQuery : List Char → Option (List Char)
  | [] => some []
  | '#' :: _ => some []
  | c :: rest => if isQueryChar c then (checkQuery rest).map (c :: ·) else none

def checkUri : List Char → Option (List Char)
  | [] => some []
  | '#' :: _ => some []
  | '?' :: query => (checkQuery query).map ('?' :: ·)
  | c :: rest => if isPathChar c then (checkUri rest).map (c :: ·) else none

def pathOf (uri : List Char) : List Char := uri.takeWhile (· != '?')

def queryOf (uri : List Char) : List Char := (uri.dropWhile (· != '?')).tail

/-! ## Targets of requests -/

def isTargetChar (c : Char) : Bool := ' ' < c && c != '\x7f'

def isSchemeChar (c : Char) : Bool :=
  c.isAlphanum || c == '+' || c == '-' || c == '.' || c == '~'

def maxSchemeLength : Nat := 64

/-- What follows a scheme, with whether there is one; none if its name is too long. -/
def afterScheme (s : List Char) : Option (Bool × List Char) :=
  let name := s.takeWhile isSchemeChar
  match s.drop name.length with
  | ':' :: '/' :: '/' :: rest => if maxSchemeLength < name.length then none else some (true, rest)
  | _ => some (false, s)

/-- Characters of an authority, a percent sign left aside. -/
def isAuthorityChar (c : Char) : Bool :=
  c.isAlphanum || "!$&'()*+,-.:;=@[]_~".toList.contains c

def isAuthorityEnd (c : Char) : Bool := c == '/' || c == '?' || c == '#'

/-- What was seen of an authority. Colons and percent signs count from the last at sign or closing
bracket on. -/
structure AuthorityScan where
  colons : Nat
  percent : Bool
  opened : Bool
  closed : Bool
  atSign : Bool

/-- Between brackets stand no more colons than in an address with a service. -/
def AuthorityScan.maxColons : Nat := 8

def AuthorityScan.step (a : AuthorityScan) (c : Char) : Option AuthorityScan :=
  let a := { a with atSign := false }
  match c with
  | ':' => if a.colons < maxColons then some { a with colons := a.colons + 1 } else none
  | '[' => if a.percent || a.opened then none else some { a with opened := true }
  | ']' =>
    if !a.opened || a.closed then none
    else some { a with closed := true, colons := 0, percent := false }
  | '@' => some { a with colons := 0, percent := false, atSign := true }
  | '%' => some { a with percent := true }
  | c => if isAuthorityChar c then some a else none

def AuthorityScan.mayEnd (a : AuthorityScan) : Bool :=
  a.opened == a.closed && decide (a.colons ≤ 1) && !a.percent && !a.atSign

/-- Whether a text is the authority of an address: a host, with a user before it and the number of
a service after it if they are known. -/
def isAuthority (s : List Char) : Bool :=
  ((s.foldlM AuthorityScan.step ⟨0, false, false, false, false⟩).map (·.mayEnd)).getD false

def checkPath? (s : List Char) : Option (List Char) :=
  (checkUri s).map fun uri => if pathOf uri = [] then ['/'] else pathOf uri

/-- The path of a target: a path, an asterisk, an address with a scheme, or an authority, which has
no path. None if the target is malformed. -/
def targetPath? (s : List Char) : Option (List Char) :=
  if s = [] ∨ !s.all isTargetChar then none
  else if s = ['*'] then some s
  else if s.head? = some '/' then checkPath? s
  else
    match afterScheme s with
    | none => none
    | some (false, s) => if isAuthority s then some [] else none
    | some (true, s) =>
      let authority := s.takeWhile (!isAuthorityEnd ·)
      if authority ≠ [] ∧ isAuthority authority then checkPath? (s.drop authority.length) else none

end HostSubnets.Text

/-!
# Texts without effect on a terminal

* `inert` : a text in which characters that would steer a terminal are written as escapes. Blanks and
  the ends of lines stay as they are (`inert_of_not_steers`);
* `lines` : the lines of a text, each without its end.
-/

namespace HostSubnets.Text

/-- Whether a character steers a terminal: the bell, the backspace, the form feed, the escape and
the delete character do, and those of the second set of control characters. -/
def steers (c : Char) : Bool :=
  [0x07, 0x08, 0x0c, 0x1b, 0x7f].contains c.toNat || (0x80 ≤ c.toNat && c.toNat ≤ 0x9f)

/-- A character that steers a terminal as an escape. -/
def steeringEscape (c : Char) : List Char :=
  let n := c.toNat
  if n < 0x80 then ['\\', 'x', Nat.digitChar (n / 16), Nat.digitChar (n % 16)]
  else ['\\', 'u', '\x7b'] ++ Nat.toDigits 16 n ++ ['\x7d']

def inert (s : List Char) : List Char :=
  s.flatMap fun c => if steers c then steeringEscape c else [c]

theorem inert_append (s t : List Char) : inert (s ++ t) = inert s ++ inert t :=
  List.flatMap_append

theorem inert_of_not_steers {s : List Char} (h : ∀ c ∈ s, steers c = false) : inert s = s := by
  induction s with
  | nil => rfl
  | cons c rest ih =>
    rw [inert, List.flatMap_cons, h c (by simp)]
    exact congrArg (c :: ·) (ih fun d hd => h d (by simp [hd]))

/-- A line without a carriage return at its end. -/
def trimReturn (line : List Char) : List Char :=
  if line.getLast? = some '\r' then line.dropLast else line

def lines (s : List Char) : List (List Char) := (s.splitOn '\n').map trimReturn

end HostSubnets.Text

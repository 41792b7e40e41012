/-!
# Blank characters

The characters of the Unicode property `White_Space`, and trimming by it.

* `isBlank` : the 25 characters of the property, the ASCII blanks among them
  (`isBlank_of_isWhitespace`);
* `trim` : a text without the blanks at its two ends; `trim_of_not_blank` (a text that neither starts
  nor ends blank is unchanged).
-/

namespace HostSubnets.Text

/-- The property `White_Space`. -/
def isBlank (c : Char) : Bool :=
  let n := c.toNat
  (0x09 ≤ n && n ≤ 0x0d) || n == 0x20 || n == 0x85 || n == 0xa0 || n == 0x1680 ||
    (0x2000 ≤ n && n ≤ 0x200a) || n == 0x2028 || n == 0x2029 || n == 0x202f || n == 0x205f ||
    n == 0x3000

theorem isBlank_of_isWhitespace (c : Char) (h : c.isWhitespace = true) : isBlank c = true := by
  simp only [Char.isWhitespace, Bool.or_eq_true, decide_eq_true_eq] at h
  rcases h with ((h | h) | h) | h <;> subst h <;> rfl

def trim (s : List Char) : List Char :=
  ((s.dropWhile isBlank).reverse.dropWhile isBlank).reverse

theorem trim_of_not_blank {s : List Char} (first : ∀ c ∈ s.head?, isBlank c = false)
    (last : ∀ c ∈ s.getLast?, isBlank c = false) : trim s = s := by
  have unchanged : ∀ {t : List Char}, (∀ c ∈ t.head?, isBlank c = false) →
      t.dropWhile isBlank = t := by
    intro t h
    cases t with
    | nil => rfl
    | cons c r => exact List.dropWhile_cons_of_neg (by simp [h c (by simp)])
  have h2 : s.reverse.dropWhile isBlank = s.reverse :=
    unchanged (by simpa [List.head?_reverse] using last)
  rw [trim, unchanged first, h2, List.reverse_reverse]

end HostSubnets.Text

/-!
# Blanks, lines and fields

The layout of a delimited text: which characters count as blank, how a text falls into lines and a
line into fields, and how blanks are trimmed.
-/

namespace Gazetteer

/-- The characters of the Unicode property White_Space. -/
def isBlank (c : Char) : Bool :=
  let n := c.toNat
  (9 ≤ n && n ≤ 13) || n == 32 || n == 0x85 || n == 0xa0 || n == 0x1680 ||
    (0x2000 ≤ n && n ≤ 0x200a) || n == 0x2028 || n == 0x2029 || n == 0x202f || n == 0x205f ||
    n == 0x3000

/-- Drops the blanks at the start. -/
def trimStart (cs : List Char) : List Char := cs.dropWhile isBlank

/-- Drops the blanks at the end. -/
def trimEnd (cs : List Char) : List Char := (cs.reverse.dropWhile isBlank).reverse

/-- Drops the blanks at both ends. -/
def trim (cs : List Char) : List Char := trimEnd (trimStart cs)

/-- Splits a list at every occurrence of a separator; there is one piece more than separators. -/
def splitAtEach (sep : Char) : List Char → List (List Char)
  | [] => [[]]
  | c :: cs =>
    if c = sep then [] :: splitAtEach sep cs
    else match splitAtEach sep cs with
      | [] => [[c]]
      | piece :: pieces => (c :: piece) :: pieces

/-- Drops the last piece when it is empty: a final line break ends a line and starts none. -/
def dropEmptyLast : List (List Char) → List (List Char)
  | [] => []
  | [[]] => []
  | l :: ls => l :: dropEmptyLast ls

/-- The lines of a text, without their line feeds. A carriage return before a line feed is a blank,
and stays. -/
def lines (text : List Char) : List (List Char) := dropEmptyLast (splitAtEach '\n' text)

/-! ## Lemmas -/

theorem splitAtEach_ne_nil (sep : Char) (cs : List Char) : splitAtEach sep cs ≠ [] := by
  cases cs with
  | nil => simp [splitAtEach]
  | cons c cs =>
    simp only [splitAtEach]
    split
    · simp
    · split <;> simp

end Gazetteer

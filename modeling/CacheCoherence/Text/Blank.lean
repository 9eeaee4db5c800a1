/-!
# Blank — white space and the pieces between it

A character is blank if it has the Unicode property `White_Space`. A text is
trimmed of the blanks at its ends, and its fields are the maximal runs of
characters that are not blank.
-/

namespace CacheCoherence.Text

/-- The ranges of code points with the property `White_Space`, both ends included. -/
def blankRanges : List (Nat × Nat) :=
  [(0x0009, 0x000d), (0x0020, 0x0020), (0x0085, 0x0085), (0x00a0, 0x00a0), (0x1680, 0x1680),
    (0x2000, 0x200a), (0x2028, 0x2029), (0x202f, 0x202f), (0x205f, 0x205f), (0x3000, 0x3000)]

-- The property holds of 25 code points.
example : (blankRanges.map fun (first, last) => last + 1 - first).sum = 25 := by
  decide

/-- Whether `c` is white space. -/
def isBlank (c : Char) : Bool := blankRanges.any fun (first, last) => first ≤ c.toNat && c.toNat ≤ last

/-- The text without the blanks at its two ends. -/
def trim (cs : List Char) : List Char :=
  ((cs.dropWhile isBlank).reverse.dropWhile isBlank).reverse

/-- The pieces of a text that blanks separate. -/
def fields (cs : List Char) : List (List Char) :=
  match h : cs.dropWhile isBlank with
  | [] => []
  | c :: rest =>
      have : (rest.dropWhile fun d => !isBlank d).length < cs.length := by
        have hrest := (List.dropWhile_suffix (l := rest) fun d => !isBlank d).length_le
        have hcs := (List.dropWhile_suffix (l := cs) isBlank).length_le
        rw [h, List.length_cons] at hcs
        omega
      (c :: rest.takeWhile fun d => !isBlank d) :: fields (rest.dropWhile fun d => !isBlank d)
termination_by cs.length

/-- The lines of a text. A line ends at a line feed, and a carriage return just
before that is not part of it; what follows the last line feed is a line unless
it is empty. -/
def lines : List Char → List (List Char)
  | [] => []
  | '\n' :: rest => [] :: lines rest
  | '\r' :: '\n' :: rest => [] :: lines rest
  | c :: rest =>
      match lines rest with
      | [] => [[c]]
      | line :: more => (c :: line) :: more

end CacheCoherence.Text

/-!
# Blanks, words and lines

Text is taken apart as a list of characters. A blank is a character with the Unicode property `White_Space`, which is
wider than the ASCII blanks.

* `trim` drops the blanks at both ends;
* `words` are the maximal runs of characters that are no blanks;
* `cutAt` splits at the first occurrence of a separator, `splitAll` at every one.
-/

namespace Parley.Text

/-- The characters with the Unicode property `White_Space`. -/
def isBlank (c : Char) : Bool :=
  let n := c.toNat
  (9 ≤ n && n ≤ 13) || n == 0x20 || n == 0x85 || n == 0xA0 || n == 0x1680 || (0x2000 ≤ n && n ≤ 0x200A) ||
    n == 0x2028 || n == 0x2029 || n == 0x202F || n == 0x205F || n == 0x3000

/-- Drops the blanks at both ends. -/
def trim (cs : List Char) : List Char :=
  ((cs.dropWhile isBlank).reverse.dropWhile isBlank).reverse

/-- The characters before and after the first `sep`, or `none` if there is no `sep`. -/
def cutAt (sep : Char) (cs : List Char) : Option (List Char × List Char) :=
  match cs.dropWhile (· != sep) with
  | [] => none
  | _ :: rest => some (cs.takeWhile (· != sep), rest)

/-- Adds a character to the first piece. -/
def consHead (c : Char) : List (List Char) → List (List Char)
  | [] => [[c]]
  | p :: ps => (c :: p) :: ps

/-- The pieces between occurrences of characters that satisfy `p`, empty ones included: always one more piece than
there are such characters. -/
def splitAll (p : Char → Bool) (cs : List Char) : List (List Char) :=
  cs.foldr (fun c pieces => if p c then [] :: pieces else consHead c pieces) [[]]

/-- The maximal runs of characters that are no blanks. -/
def words (cs : List Char) : List (List Char) :=
  (splitAll isBlank cs).filter (fun w => !w.isEmpty)

/-- The lines that hold more than blanks, each trimmed. -/
def contentLines (cs : List Char) : List (List Char) :=
  ((splitAll (· == '\n') cs).map trim).filter (fun l => !l.isEmpty)

/-- Splits off the leading characters whose UTF-8 encodings take exactly `n` bytes together; `none` if the text is
shorter, or if byte `n` falls inside a character. -/
def splitBytes : Nat → List Char → Option (List Char × List Char)
  | 0, cs => some ([], cs)
  | _ + 1, [] => none
  | n + 1, c :: cs =>
    if c.utf8Size ≤ n + 1 then (splitBytes (n + 1 - c.utf8Size) cs).map (fun (a, b) => (c :: a, b)) else none

/-- Joins pieces with a separator between them. -/
def join (sep : List Char) : List (List Char) → List Char
  | [] => []
  | [p] => p
  | p :: q :: ps => p ++ sep ++ join sep (q :: ps)

end Parley.Text

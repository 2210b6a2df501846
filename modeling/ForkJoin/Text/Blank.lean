/-!
# Blank characters and lines

The characters that Unicode counts as white space, how a text is trimmed of them, and where one
line of a text ends and the next begins. Line ends are a smaller class than blanks and a wider one
than the newline alone, so the two are kept apart.
-/

namespace ForkJoin.Text

/-! ### Blanks -/

/-- White space in the sense of Unicode, the four information separators included. -/
def isBlank (c : Char) : Bool :=
  let n := c.toNat
  (9 ≤ n && n ≤ 13) || (28 ≤ n && n ≤ 32) || n == 0x85 || n == 0xa0 || n == 0x1680 ||
    (0x2000 ≤ n && n ≤ 0x200a) || n == 0x2028 || n == 0x2029 || n == 0x202f || n == 0x205f ||
    n == 0x3000

/-- What is left of a text when the characters of a class are taken off both ends. -/
def trimBy (p : Char → Bool) (cs : List Char) : List Char :=
  (((cs.dropWhile p).reverse).dropWhile p).reverse

/-- A text without the blanks at its two ends. -/
def trim (s : String) : String :=
  String.ofList (trimBy isBlank s.toList)

/-! ### Lines -/

/-- A character that ends a line. -/
def endsLine (c : Char) : Bool :=
  let n := c.toNat
  (10 ≤ n && n ≤ 13) || (28 ≤ n && n ≤ 30) || n == 0x85 || n == 0x2028 || n == 0x2029

/-- The characters before the first line end, and nothing when the text has no first line. -/
def firstLine? (s : String) : Option String :=
  match s.toList with
  | [] => none
  | cs => some (String.ofList (cs.takeWhile fun c => !endsLine c))

/-- A text followed by blanks up to a width, counted in characters; never shortened. -/
def padRight (width : Nat) (s : String) : String :=
  s ++ String.ofList (List.replicate (width - s.length) ' ')

def blanks (n : Nat) : String :=
  String.ofList (List.replicate n ' ')

end ForkJoin.Text

import ForkJoin.Text.Blank

/-!
# Texts with brackets

How a list of options, each in brackets, is tidied and cut into pieces. Tidying takes out blanks at
the inner side of a bracket, then brackets with nothing in them, then round brackets around
anything that offers no choice. A piece is a bracketed stretch up to a blank, or a word.

The stretches are found by their brackets alone, so brackets in the names that a list holds count
like all others.
-/

namespace ForkJoin.CommandLine.Bracketed

def isOpening (c : Char) : Bool :=
  c == '[' || c == '('

def isClosing (c : Char) : Bool :=
  c == ']' || c == ')'

/-! ### Tidying -/

/-- Takes out one blank behind every opening bracket. -/
def dropBlankBehind : List Char → List Char
  | [] => []
  | c :: rest =>
    match isOpening c, rest with
    | true, ' ' :: rest => c :: dropBlankBehind rest
    | _, rest => c :: dropBlankBehind rest

/-- Takes out one blank before every closing bracket. -/
def dropBlankBefore : List Char → List Char
  | [] => []
  | c :: rest =>
    if c == ' ' && (rest.head?.map isClosing).getD false then dropBlankBefore rest
    else c :: dropBlankBefore rest

/-- How many characters are a pair of brackets with at most blanks in it, from the start on. -/
def emptyPair? : List Char → Option Nat
  | [] => none
  | c :: rest =>
    if isOpening c && ((rest.dropWhile (· == ' ')).head?.map isClosing).getD false then
      some ((rest.takeWhile (· == ' ')).length + 2)
    else none

/-- Takes out the pairs of brackets that hold nothing; `skip` characters belong to a pair that was
found before. -/
def dropEmpty (skip : Nat) : List Char → List Char
  | [] => []
  | c :: rest =>
    match skip, emptyPair? (c :: rest) with
    | skip + 1, _ => dropEmpty skip rest
    | 0, some n => dropEmpty (n - 1) rest
    | 0, none => c :: dropEmpty 0 rest

/-- How many characters stand before the last closing round bracket in front of any bar. -/
def lastClosing? (cs : List Char) : Option Nat :=
  match ((cs.takeWhile (· != '|')).reverse).dropWhile (· != ')') with
  | [] => none
  | _ :: before => some before.length

/-- Takes out round brackets, each time from an opening one to the last that can close it. What is
between them is kept as it is; `inside` counts what is left of it and the closing bracket. -/
def dropRound (inside : Nat) : List Char → List Char
  | [] => []
  | c :: rest =>
    match inside with
    | n + 2 => c :: dropRound (n + 1) rest
    | 1 => dropRound 0 rest
    | 0 =>
      match c, lastClosing? rest with
      | '(', some n => dropRound (n + 1) rest
      | c, _ => c :: dropRound 0 rest

def tidy (cs : List Char) : List Char :=
  dropRound 0 (dropEmpty 0 (dropBlankBefore (dropBlankBehind cs)))

/-! ### Pieces -/

/-- How many characters lead up to the first closing bracket that ends a piece, if one does so on
the same line. -/
def closing? (close : Char) : List Char → Option Nat
  | [] => none
  | c :: rest =>
    if c == '\n' then none
    else if c == close && (rest.head?.map Text.isBlank).getD true then some 1
    else (closing? close rest).map (· + 1)

/-- How many characters from the start on are a word. -/
def wordLength (cs : List Char) : Nat :=
  (cs.takeWhile fun c => !Text.isBlank c).length

/-- How many characters from the start on are a piece; at a blank none are. -/
def pieceLength : List Char → Nat
  | [] => 0
  | c :: rest =>
    let bracketed :=
      match c with
      | '(' => closing? ')' rest
      | '[' => closing? ']' rest
      | _ => none
    match bracketed with
    | some n => n + 1
    | none => wordLength (c :: rest)

/-- The pieces of a text; `skip` characters belong to the piece before. -/
def pieces (skip : Nat) : List Char → List (List Char)
  | [] => []
  | c :: rest =>
    match skip, pieceLength (c :: rest) with
    | skip + 1, _ => pieces skip rest
    | 0, 0 => pieces 0 rest
    | 0, n + 1 => (c :: rest).take (n + 1) :: pieces n rest

end ForkJoin.CommandLine.Bracketed

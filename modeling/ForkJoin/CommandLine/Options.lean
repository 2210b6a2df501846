import ForkJoin.CommandLine.Usage

/-!
# Reading the command line

Every word is first told to be an option or not, which does not depend on the words around it. Then
the options are taken from left to right, each with the words behind it that it needs. What no
option takes is left over, and the command line is refused if anything is.

A word is an option when it starts with a dash, unless it is the dash alone, a negative number or
holds a blank. A long option may be shortened as long as only one option begins that way, and may
carry its argument behind an equals sign. After a double dash no word is an option.
-/

namespace ForkJoin.CommandLine

/-! ### Options -/

inductive Switch where
  | help
  | demo
  | values
  | list
  | debug
  | scopedLet
  | version
  deriving DecidableEq, Inhabited, Repr

inductive Takes where
  | nothing
  | one
  | many
  deriving DecidableEq, Inhabited, Repr

def Switch.takes : Switch → Takes
  | .demo => .one
  | .values => .many
  | _ => .nothing

/-- The spellings of the options, in the order of the help. -/
def spellings : List (String × Switch) := [
  ("-h", .help), ("--help", .help), ("--demo", .demo), ("--values", .values), ("--list", .list),
  ("--debug", .debug), ("--scoped-let", .scopedLet), ("--version", .version)]

def Switch.name (o : Switch) : String :=
  "/".intercalate ((spellings.filter (·.2 == o)).map (·.1))

/-! ### Words -/

/-- What a word is: an option with the spelling it is meant by and the argument attached to it, an
option that does not exist, the double dash that ends the options, or none of these. -/
inductive Word where
  | option (o : Switch) (spelling : String) (attached : Option String)
  | unknown
  | separator
  | plain
  deriving Inhabited, Repr

def splitEquals (word : String) : String × Option String :=
  let cs := word.toList
  let before := String.ofList (cs.takeWhile (· != '='))
  match cs.dropWhile (· != '=') with
  | [] => (before, none)
  | _ :: rest => (before, some (String.ofList rest))

def beginsWith (s start : String) : Bool :=
  start.toList.isPrefixOf s.toList

/-- The options that a word can be short for. A word with one dash is the short option of its first
letter with the other letters attached. -/
def candidates (word : String) : List (Switch × String × Option String) :=
  if beginsWith word "--" then
    let (start, attached) := splitEquals word
    (spellings.filter fun (s, _) => beginsWith s start).map fun (s, o) => (o, s, attached)
  else
    let short := String.ofList (word.toList.take 2)
    let attached := String.ofList (word.toList.drop 2)
    spellings.filterMap fun (s, o) =>
      if s == short then some (o, s, some attached)
      else if beginsWith s word then some (o, s, none)
      else none

def dropLineEnd (cs : List Char) : List Char :=
  match cs.reverse with
  | '\n' :: rest => rest.reverse
  | _ => cs

/-- A dash and digits, perhaps with a point among them or in front; a line end may follow. -/
def isNegativeNumber (word : String) : Bool :=
  match dropLineEnd word.toList with
  | '-' :: cs =>
    let whole := cs.takeWhile Text.isDigit
    match cs.dropWhile Text.isDigit with
    | [] => !whole.isEmpty
    | '.' :: places => !places.isEmpty && places.all Text.isDigit
    | _ => false
  | _ => false

def ambiguous (word : String) (found : List String) : String :=
  let options := ", ".intercalate found
  s!"ambiguous option: {word} could match {options}"

def readWord (word : String) : Except String Word :=
  if !beginsWith word "-" || word.length ≤ 1 then .ok .plain
  else
    match spellings.lookup word with
    | some o => .ok (.option o word none)
    | none =>
      let (start, attached) := splitEquals word
      match spellings.lookup start, attached with
      | some o, some attached => .ok (.option o start (some attached))
      | _, _ =>
        match candidates word with
        | [(o, spelling, attached)] => .ok (.option o spelling attached)
        | [] => .ok (if isNegativeNumber word || word.toList.contains ' ' then .plain else .unknown)
        | found => .error (ambiguous word (found.map (·.2.1)))

def readWords : List String → Except String (List (String × Word))
  | [] => .ok []
  | word :: words =>
    if word = "--" then .ok ((word, .separator) :: words.map (·, .plain))
    else do
      let first ← readWord word
      let rest ← readWords words
      return (word, first) :: rest

/-! ### Requests -/

/-- What the options ask for. A demo is asked for by name; where an empty list stands instead of a
name, none is. -/
structure Settings where
  demo : Datum := "pmap"
  values : List Int := Demo.defaultNumbers
  list : Bool := false
  debug : Bool := false
  scopedLet : Bool := false
  deriving Inhabited, Repr

inductive Stop where
  | help
  | version
  | problem (text : String)
  deriving Inhabited, Repr

def problemWith (o : Switch) (text : String) : Stop :=
  .problem ("argument " ++ o.name ++ ": " ++ text)

def ignoredArgument (o : Switch) (attached : String) : Stop :=
  problemWith o ("ignored explicit argument " ++ Text.quoted attached)

def readNumbers : List String → Except Stop (List Int)
  | [] => .ok []
  | word :: words =>
    match Text.Numeral.read? word with
    | none => .error (problemWith .values ("invalid int value: " ++ Text.quoted word))
    | some n => (readNumbers words).map (n :: ·)

def chooseDemo (demos : List Demo) (name : String) : Except Stop String :=
  if demos.any (·.name == name) then .ok name
  else
    let names := ", ".intercalate (demos.map fun demo => Text.quoted demo.name)
    .error (problemWith .demo s!"invalid choice: {Text.quoted name} (choose from {names})")

def follow (demos : List Demo) (s : Settings) (o : Switch) (args : List String) :
    Except Stop Settings :=
  match o with
  | .help => .error .help
  | .version => .error .version
  | .list => .ok { s with list := true }
  | .debug => .ok { s with debug := true }
  | .scopedLet => .ok { s with scopedLet := true }
  | .values => do return { s with values := ← readNumbers args }
  | .demo =>
    match args with
    | [] => .ok { s with demo := .list [] }
    | name :: _ => do return { s with demo := .text (← chooseDemo demos name) }

/-- The words that an option finds behind it. -/
def plainRun : List (String × Word) → List String
  | (word, .plain) :: rest => word :: plainRun rest
  | _ => []

def taken (o : Switch) (behind : List (String × Word)) : Except Stop (List String) :=
  match o.takes, plainRun behind with
  | .nothing, _ => .ok []
  | .one, [] => .error (problemWith o "expected one argument")
  | .one, word :: _ => .ok [word]
  | .many, [] => .error (problemWith o "expected at least one argument")
  | .many, words => .ok words

/-- Whether a text attached to an option that takes nothing is refused. Only letters attached to a
short option can be options again, each of them short. -/
def refusedAttachment (o : Switch) (spelling : String) : List Char → Option (Switch × String)
  | [] => none
  | letter :: letters =>
    let attached := String.ofList (letter :: letters)
    if beginsWith spelling "--" then some (o, attached)
    else
      let next := String.ofList ['-', letter]
      match spellings.lookup next with
      | none => some (o, attached)
      | some o => refusedAttachment o next letters

/-- Follows an option with an argument attached to it. A double dash counts as no argument. -/
def followAttached (demos : List Demo) (s : Settings) (o : Switch) (spelling attached : String) :
    Except Stop Settings :=
  match o.takes with
  | .nothing =>
    if attached.isEmpty then .error (ignoredArgument o attached)
    else
      match refusedAttachment o spelling attached.toList with
      | some (o, attached) => .error (ignoredArgument o attached)
      | none => follow demos s o []
  | _ => follow demos s o (if attached = "--" then [] else [attached])

/-- Takes the options from left to right. `skip` words were taken by the option before; what no
option takes is returned. -/
def readOptions (demos : List Demo) (s : Settings) (skip : Nat) :
    List (String × Word) → Except Stop (Settings × List String)
  | [] => .ok (s, [])
  | (word, kind) :: rest =>
    match skip, kind with
    | skip + 1, _ => readOptions demos s skip rest
    | 0, .option o _ none => do
      let args ← taken o rest
      readOptions demos (← follow demos s o args) args.length rest
    | 0, .option o spelling (some attached) => do
      readOptions demos (← followAttached demos s o spelling attached) 0 rest
    | 0, _ => do
      let (s, left) ← readOptions demos s 0 rest
      return (s, word :: left)

def read (demos : List Demo) (argv : List String) : Except Stop Settings :=
  match readWords argv with
  | .error text => .error (.problem text)
  | .ok words => do
    let (s, left) ← readOptions demos {} 0 words
    if left.isEmpty then return s
    else .error (.problem ("unrecognized arguments: " ++ " ".intercalate left))

end ForkJoin.CommandLine

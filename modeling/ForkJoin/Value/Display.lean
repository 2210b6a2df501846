import ForkJoin.Cell
import ForkJoin.Stack
import ForkJoin.Value.Parts

/-!
# Showing values

The text of a value, and its plain content. Integers are decimal numerals, vectors stand in
brackets, functions are shown by name and arity and futures by the state of their cell. Plain
content keeps the payload of integers and truth values and makes lists of vectors; every other value
is given as its text.

The elements of a vector are shown while the vector is, and likewise for plain content. So both take
room on the stack: a level of a vector takes three entries when it is shown and two when its plain
content is made; other values take two and one. A payload with parts in the place of an integer
takes one entry for each of its levels.
-/

namespace ForkJoin

/-- What an observer sees of every cell. -/
abbrev CellView := CellId → CellState

def bracketed (texts : List String) : String :=
  "[" ++ ", ".intercalate texts ++ "]"

/-- The name that a function is shown by: one without a name, or with an empty one, is given
another. -/
def nameOr (anonymous : String) (name : Datum) : Datum :=
  if name.isTruthy then name else anonymous

def functionText (name : Datum) (arity : Nat) : String :=
  let shown := (nameOr "anonymous" name).display
  s!"<function {shown}/{arity}>"

def futureText (state : CellState) : String :=
  s!"<future {state.name}>"

/-- A datum as text, unless an integer in it is too long. -/
def Datum.shown (d : Datum) : Except Fault String :=
  if d.holdsLongNumeral then .error .numeralTooLong else .ok d.display

/-- The content of a value without its type. -/
inductive Plain where
  | datum (d : Datum)
  | list (items : List Plain)
  deriving Inhabited, Repr

/-! ### Data in the place of values -/

/-- The text of a value that is given as data, down to some level. -/
def Datum.displayValueTo (view : CellView) : (level : Nat) → Room → Datum → Except Fault String
  | 0, _, _ => .error .stackExhausted
  | level + 1, room, d => room.need 2 do
    match ← d.part "type" with
    | .text "Integer" =>
      let payload ← d.part "value"
      room.need (payload.height + 2) payload.shown
    | .text "Boolean" => return if (← d.part "value").isTruthy then "true" else "false"
    | .text "Vector" =>
      let items ← (← d.part "value").items
      room.need 3 do return bracketed (← items.mapM (displayValueTo view level (room.less 3)))
    | .text "Function" =>
      let f ← d.part "value"
      let name ← f.part "name"
      return functionText name (← (← f.part "params").count)
    | .text "Future" =>
      match ← d.part "value" with
      | .cell id => return futureText (view id)
      | payload => .error (.noProperty payload.kindName "state")
    | type => return s!"<{type.display}>"

def Datum.displayValue (view : CellView) (room : Room) (d : Datum) : Except Fault String :=
  d.displayValueTo view (d.height + 1) room

/-- The plain content of a value that is given as data, down to some level. -/
def Datum.plainValueTo (view : CellView) : (level : Nat) → Room → Datum → Except Fault Plain
  | 0, _, _ => .error .stackExhausted
  | level + 1, room, d => room.need 1 do
    match ← d.part "type" with
    | .text "Vector" =>
      let items ← (← d.part "value").items
      room.need 2 do return .list (← items.mapM (plainValueTo view level (room.less 2)))
    | .text "Integer" | .text "Boolean" => return .datum (← d.part "value")
    | _ => return .datum (.text (← d.displayValue view (room.less 1)))

def Datum.plainValue (view : CellView) (room : Room) (d : Datum) : Except Fault Plain :=
  d.plainValueTo view (d.height + 1) room

/-! ### Values -/

mutual

def Value.display (view : CellView) (room : Room) (v : Value) : Except Fault String :=
  match v with
  | .int n => room.need 2 (Datum.int n).shown
  | .bool b => room.need 2 (.ok (if b then "true" else "false"))
  | .vec items => room.need 3 do return bracketed (← Value.displayAll view (room.less 3) items)
  | .fn name params _ => room.need 2 (.ok (functionText (.ofText? name) params.length))
  | .future cell => room.need 2 (.ok (futureText (view cell)))
  | .foreign d => d.displayValue view room
termination_by structural v

def Value.displayAll (view : CellView) (room : Room) (vs : List Value) :
    Except Fault (List String) :=
  match vs with
  | [] => return []
  | v :: vs => do
    let text ← Value.display view room v
    let texts ← Value.displayAll view room vs
    return text :: texts
termination_by structural vs

end

mutual

def Value.plain (view : CellView) (room : Room) (v : Value) : Except Fault Plain :=
  match v with
  | .int n => room.need 1 (.ok (.datum (.int n)))
  | .bool b => room.need 1 (.ok (.datum (.bool b)))
  | .vec items => room.need 2 do return .list (← Value.plainAll view (room.less 2) items)
  | .fn name params body => room.need 1 do
    return .datum (.text (← (Value.fn name params body).display view (room.less 1)))
  | .future cell => room.need 1 do
    return .datum (.text (← (Value.future cell).display view (room.less 1)))
  | .foreign d => d.plainValue view room
termination_by structural v

def Value.plainAll (view : CellView) (room : Room) (vs : List Value) :
    Except Fault (List Plain) :=
  match vs with
  | [] => return []
  | v :: vs => do
    let content ← Value.plain view room v
    let contents ← Value.plainAll view room vs
    return content :: contents
termination_by structural vs

end

end ForkJoin

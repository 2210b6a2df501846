import ForkJoin.Failure

/-!
# Parts of data

How data are taken apart: by key, by position, item by item. Records have keys, lists and texts have
positions, and all of these have items; the items of a text are its characters, those of a record
its keys. Data of other kinds have no parts. Asking for a part that is not there is a fault, and the
fault says why.
-/

namespace ForkJoin.Datum

/-- The characters of a text, each as a text. -/
def characters (s : String) : List Datum :=
  s.toList.map fun c => .text c.toString

def part (d : Datum) (key : String) : Except Fault Datum :=
  match d with
  | .record fields =>
    match fields.lookup key with
    | some part => .ok part
    | none => .error (.missingKey key)
  | .text _ | .list _ | .tuple _ => .error (.badPosition d.kindName "str")
  | d => .error (.noParts d.kindName)

def count (d : Datum) : Except Fault Nat :=
  match d with
  | .text s => .ok s.length
  | .list items | .tuple items => .ok items.length
  | .record fields => .ok fields.length
  | d => .error (.noLength d.kindName)

def items (d : Datum) : Except Fault (List Datum) :=
  match d with
  | .text s => .ok (characters s)
  | .list items | .tuple items => .ok items
  | .record fields => .ok (fields.map fun (key, _) => .text key)
  | d => .error (.noItems d.kindName)

/-- The items of a datum at its positions, from first to last. A record has none, since it is looked
up by key. -/
def positions (d : Datum) (wanted : Datum → Fault) : Except Fault (List Datum) :=
  match d with
  | .text s => .ok (characters s)
  | .list items | .tuple items => .ok items
  | .record _ => .error (wanted d)
  | d => .error (.noParts d.kindName)

def first (d : Datum) : Except Fault Datum := do
  match ← d.positions fun _ => .missingKey (.int 0) with
  | [] => .error .outOfRange
  | item :: _ => return item

def afterFirst (d : Datum) : Except Fault (List Datum) := do
  return (← d.positions fun _ => .noKey "slice").tail

/-! ### Type and payload -/

/-- The type that a datum claims to have, else its kind. -/
def claimedType (d : Datum) : Datum :=
  match d with
  | .record fields => (fields.lookup "type").getD (.text "Unknown")
  | _ => .text d.kindName

/-- Whether a datum has the form of a value: a type and a payload. -/
def isValueRecord (d : Datum) : Bool :=
  (d.field? "type").isSome && (d.field? "value").isSome

/-- A payload under a type, as a value is written. -/
def valueRecord (type payload : Datum) : Datum :=
  .record [("value", payload), ("type", type)]

/-- A payload under a type, as a node of an expression is written. -/
def nodeRecord (type payload : Datum) : Datum :=
  .record [("type", type), ("value", payload)]

@[simp] theorem part_type_valueRecord (type payload : Datum) :
    (valueRecord type payload).part "type" = .ok type := rfl

@[simp] theorem part_value_valueRecord (type payload : Datum) :
    (valueRecord type payload).part "value" = .ok payload := rfl

@[simp] theorem part_type_nodeRecord (type payload : Datum) :
    (nodeRecord type payload).part "type" = .ok type := rfl

@[simp] theorem part_value_nodeRecord (type payload : Datum) :
    (nodeRecord type payload).part "value" = .ok payload := rfl

/-! ### Checked kinds -/

/-- A whole number, from a datum that is one; a truth value is none. -/
def toInteger (d : Datum) : Except Fault Int :=
  match d with
  | .int n => .ok n
  | d => .error (.notInteger d.kindName)

/-- A whole number, from a number without its fraction or from a numeral. -/
def readInteger (d : Datum) : Except Fault Int :=
  match d, d.worth? with
  | .text s, _ => (Text.Numeral.read s).mapError (.notNumeral s)
  | _, some (n, d) => .ok (n.tdiv d)
  | .float _, none => .error .beyondFractions
  | _, none => .error .unreadable

/-- A truth value, from a datum that is one; a number is none. -/
def toBoolean (d : Datum) : Except Fault Bool :=
  match d with
  | .bool b => .ok b
  | d => .error (.notBoolean d.kindName)

end ForkJoin.Datum

import ForkJoin.Name.Datum
import ForkJoin.Value.Record

/-!
# What operations find in values and expressions

A value is used by the parts that its type promises, and an expression is evaluated by the parts of
its node. In a value or node of the language these parts are all there. In data from outside any of
them may be missing or of the wrong kind, so each part is given together with the fault that stands
in its place, and the fault counts only when the part is used.
-/

namespace ForkJoin

/-! ### Values -/

/-- The type of a value: the type that data claim to have, else their kind. -/
def Value.typeName : Value → Datum
  | .int _ => "Integer"
  | .bool _ => "Boolean"
  | .vec _ => "Vector"
  | .fn _ _ _ => "Function"
  | .future _ => "Future"
  | .foreign d => d.claimedType

def Value.hasType (v : Value) (type : Datum) : Bool :=
  v.typeName.same type

/-- What a value holds under its type. -/
def Value.payload : Value → Except Fault Datum
  | .int n => .ok (.int n)
  | .bool b => .ok (.bool b)
  | v => v.toDatum.part "value"

structure Procedure where
  name : Except Fault Datum
  arity : Except Fault Nat
  params : Except Fault (List Name)
  body : Except Fault Expr

def Procedure.ofDatum (d : Datum) : Procedure where
  name := d.part "name"
  arity := do (← d.part "params").count
  params := do Name.ofData (← (← d.part "params").items)
  body := return .foreign (← d.part "body")

def Value.procedure : Value → Except Fault Procedure
  | .fn name params body => .ok
    { name := .ok (.ofText? name), arity := .ok params.length, params := .ok (params.map .text),
      body := .ok body }
  | v => return .ofDatum (← v.payload)

/-- The cell that a future holds; `use` is what it is wanted for. -/
def Value.cell (use : String) : Value → Except Fault CellId
  | .future cell => .ok cell
  | v => do
    match ← v.payload with
    | .cell cell => return cell
    | d => .error (.noProperty d.kindName use)

/-! ### Vectors -/

def Value.pushFront (vector first : Value) : Except Fault Value :=
  match vector with
  | .vec items => .ok (.vec (first :: items))
  | v => do
    match ← v.payload with
    | .tuple items => return .vec (first :: items.map .foreign)
    | d => .error (.notJoinable "tuple" d.kindName)

def Value.isEmptyVector : Value → Except Fault Bool
  | .vec items => .ok items.isEmpty
  | v => return !(← v.payload).isTruthy

def Value.head : Value → Except Fault Value
  | .vec (first :: _) => .ok first
  | .vec [] => .error .outOfRange
  | v => return .foreign (← (← v.payload).first)

def Value.tail : Value → Except Fault Value
  | .vec items => .ok (.vec items.tail)
  | v => return .vec ((← (← v.payload).afterFirst).map .foreign)

def Value.length : Value → Except Fault Nat
  | .vec items => .ok items.length
  | v => do (← v.payload).count

/-! ### Expressions -/

/-- The arguments of an application. As a rule they are a list. A record in their place has items,
which are its keys, and no positions; other data cannot even be counted. -/
inductive Args where
  | list (items : List Expr)
  | keys (names : List String)
  | uncounted (kind : String)

namespace Args

def ofDatum (d : Datum) : Args :=
  match d with
  | .list items | .tuple items => .list (items.map .foreign)
  | .text s => .list ((Datum.characters s).map .foreign)
  | .record fields => .keys (fields.map (·.1))
  | d => .uncounted d.kindName

def count : Args → Except Fault Nat
  | .list items => .ok items.length
  | .keys names => .ok names.length
  | .uncounted kind => .error (.noLength kind)

def items : Args → List Expr
  | .list items => items
  | .keys names => names.map fun name => .foreign (.text name)
  | .uncounted _ => []

end Args

inductive Node where
  | lit (value : Except Fault Value)
  | var (name : Except Fault Datum)
  | app (callee : Except Fault Expr) (args : Except Fault Args)
  | letIn (name : Except Fault Datum) (value body : Except Fault Expr)
  | cond (test yes no : Except Fault Expr)
  | spawn (body : Except Fault Expr)
  | sync (body : Except Fault Expr)
  /-- A node of a type that the language does not know. -/
  | unknown (type : Datum)

def Node.typeName : Node → String
  | .lit _ => "LITERAL"
  | .var _ => "VARIABLE"
  | .app _ _ => "APPLICATION"
  | .letIn _ _ _ => "LET"
  | .cond _ _ _ => "IF"
  | .spawn _ => "SPAWN"
  | .sync _ => "SYNC"
  | .unknown type => type.display

/-- The node that a datum describes. Without a type it describes none. -/
def Node.ofDatum (d : Datum) : Except Fault Node := do
  let payload := d.part "value"
  let part (key : String) : Except Fault Datum := do (← payload).part key
  let expr (d : Except Fault Datum) : Except Fault Expr := return .foreign (← d)
  match ← d.part "type" with
  | .text "LITERAL" => return .lit (return .foreign (← payload))
  | .text "VARIABLE" => return .var payload
  | .text "APPLICATION" =>
    return .app (expr (part "function")) (return .ofDatum (← part "args"))
  | .text "LET" => return .letIn (part "name") (expr (part "value")) (expr (part "body"))
  | .text "IF" =>
    return .cond (expr (part "condition")) (expr (part "then")) (expr (part "else"))
  | .text "SPAWN" => return .spawn (expr payload)
  | .text "SYNC" => return .sync (expr payload)
  | type => return .unknown type

def Expr.node : Expr → Except Fault Node
  | .lit value => .ok (.lit (.ok value))
  | .var name => .ok (.var (.ok name))
  | .app callee args => .ok (.app (.ok callee) (.ok (.list args)))
  | .letIn name value body => .ok (.letIn (.ok name) (.ok value) (.ok body))
  | .cond test yes no => .ok (.cond (.ok test) (.ok yes) (.ok no))
  | .spawn body => .ok (.spawn (.ok body))
  | .sync body => .ok (.sync (.ok body))
  | .foreign d => Node.ofDatum d

end ForkJoin

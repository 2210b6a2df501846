import ForkJoin.Datum.Parts
import ForkJoin.Value

/-!
# Values and expressions as data

Every value and every expression can be written as data: a record of its type and its payload, and
payloads that have parts are tuples and records themselves. What came from outside is written as it
came. In the other direction, a payload under a type is made a value of the language where the two
fit together and kept as data where they do not.
-/

namespace ForkJoin

/-! ### Writing -/

mutual

def Value.toDatum : Value → Datum
  | .int n => .valueRecord "Integer" (.int n)
  | .bool b => .valueRecord "Boolean" (.bool b)
  | .vec items => .valueRecord "Vector" (.tuple (Value.toData items))
  | .fn name params body =>
    .valueRecord "Function" (.record [("name", .ofText? name),
      ("params", .tuple (params.map .text)), ("body", body.toDatum)])
  | .future cell => .valueRecord "Future" (.cell cell)
  | .foreign d => d

def Value.toData : List Value → List Datum
  | [] => []
  | v :: vs => v.toDatum :: Value.toData vs

def Expr.toDatum : Expr → Datum
  | .lit v => .nodeRecord "LITERAL" v.toDatum
  | .var name => .nodeRecord "VARIABLE" (.text name)
  | .app callee args =>
    .nodeRecord "APPLICATION" (.record [("function", callee.toDatum),
      ("args", .tuple (Expr.toData args))])
  | .letIn name value body =>
    .nodeRecord "LET" (.record [("name", .text name), ("value", value.toDatum),
      ("body", body.toDatum)])
  | .cond test yes no =>
    .nodeRecord "IF" (.record [("condition", test.toDatum), ("then", yes.toDatum),
      ("else", no.toDatum)])
  | .spawn body => .nodeRecord "SPAWN" body.toDatum
  | .sync body => .nodeRecord "SYNC" body.toDatum
  | .foreign d => d

def Expr.toData : List Expr → List Datum
  | [] => []
  | e :: es => e.toDatum :: Expr.toData es

end

/-! ### Making -/

def Value.make (type payload : Datum) : Value :=
  match type, payload with
  | .text "Integer", .int n => .int n
  | .text "Boolean", .bool b => .bool b
  | type, payload => .foreign (.valueRecord type payload)

/-- The texts of data that are all texts. -/
def Datum.texts? : List Datum → Option (List String)
  | [] => some []
  | .text s :: rest => (Datum.texts? rest).map (s :: ·)
  | _ :: _ => none

/-- A function. Its name is a text or null and its parameters are texts; with others it is data. -/
def Value.function (name : Datum) (params : List Datum) (body : Expr) : Value :=
  match name, Datum.texts? params with
  | .text name, some params => .fn (some name) params body
  | .null, some params => .fn none params body
  | name, _ =>
    .foreign (.valueRecord "Function" (.record [("name", name), ("params", .tuple params),
      ("body", body.toDatum)]))

def Expr.variable (name : Datum) : Expr :=
  match name with
  | .text name => .var name
  | name => .foreign (.nodeRecord "VARIABLE" name)

def Expr.binding (name : Datum) (value body : Expr) : Expr :=
  match name with
  | .text name => .letIn name value body
  | name =>
    .foreign (.nodeRecord "LET" (.record [("name", name), ("value", value.toDatum),
      ("body", body.toDatum)]))

theorem Datum.texts?_map_text (params : List String) :
    Datum.texts? (params.map .text) = some params := by
  induction params with
  | nil => rfl
  | cons s rest ih => simp [texts?, ih]

@[simp] theorem Value.function_text (name : String) (params : List String) (body : Expr) :
    Value.function name (params.map .text) body = .fn (some name) params body := by
  simp [function, Datum.texts?_map_text]

@[simp] theorem Value.make_int (n : Int) : Value.make "Integer" (.int n) = .int n := rfl

@[simp] theorem Value.make_bool (b : Bool) : Value.make "Boolean" (.bool b) = .bool b := rfl

end ForkJoin

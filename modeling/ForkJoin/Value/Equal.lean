import ForkJoin.Stack
import ForkJoin.Value.Parts

/-!
# Equality of values

Two values are equal when they are built alike, down to the bodies of functions and the literals
inside them. A future equals nothing, not even itself, so neither does a value that holds one.
Values of the five types can always be compared; comparing data that are no values can be a fault.

Comparing takes room on the stack: three entries for each level of a vector and for each level of a
tree, one from a function to its body or from a tree to the value that it holds, and two where there
are no parts. A node of an expression is a tree of two levels or more, one for the node, one for its
parts and one for a list of arguments. Parts are compared in order and the first pair that differs
ends the comparison, so what lies behind it is not entered.
-/

namespace ForkJoin

/-- Whether two lists have the same length and are alike item by item; items behind the first pair
that differs are not compared. -/
def equalAll {α : Type} (equal : α → α → Except Fault Bool) : List α → List α → Except Fault Bool
  | [], ys => .ok ys.isEmpty
  | x :: xs, ys =>
    match ys with
    | [] => .ok false
    | y :: ys => do
      if ← equal x y then equalAll equal xs ys else return false

/-- Whether both of two comparisons succeed; the second is made only if the first does. -/
@[macro_inline] def bothEqual (first second : Except Fault Bool) : Except Fault Bool := do
  if ← first then second else return false

/-- Whether a record is a value of one of the five types, by its type name. -/
def Datum.isTyped (fields : List (String × Datum)) : Except Fault Bool := do
  match ← Name.ofDatum ((fields.lookup "type").getD .null) with
  | .text type => return valueTypes.contains type
  | _ => return false

/-! ### Data -/

def Datum.sameKeys (xs ys : List (String × Datum)) : Bool :=
  xs.length == ys.length && xs.all fun (key, _) => (ys.lookup key).isSome

/-- The content of two records, key by key in the order of the first. -/
def Datum.equalFields (equal : Datum → Datum → Except Fault Bool) (ys : List (String × Datum)) :
    List (String × Datum) → Except Fault Bool
  | [] => .ok true
  | (key, x) :: xs =>
    match ys.lookup key with
    | some y => bothEqual (equal x y) (equalFields equal ys xs)
    | none => .ok false

mutual

/-- Equality of values that are given as data, down to some level. -/
def Datum.equalValueTo : (level : Nat) → Room → Datum → Datum → Except Fault Bool
  | 0, _, _, _ => .error .stackExhausted
  | level + 1, room, x, y => room.need 2 do
    let type ← x.part "type"
    if !type.same (← y.part "type") then return false
    match type with
    | .text "Future" => return false
    | .text "Vector" =>
      let xs ← x.part "value"
      let ys ← y.part "value"
      if (← xs.count) ≠ (← ys.count) then return false
      room.need 3 do equalAll (Datum.equalValueTo level (room.less 3)) (← xs.items) (← ys.items)
    | .text "Function" =>
      let f ← x.part "value"
      let g ← y.part "value"
      if !(← f.part "name").same (← g.part "name") then return false
      if !(← f.part "params").same (← g.part "params") then return false
      Datum.equalTreeTo level (room.less 1) (← f.part "body") (← g.part "body")
    | _ => return (← x.part "value").same (← y.part "value")

/-- Equality of data that are read as trees, down to some level. -/
def Datum.equalTreeTo : (level : Nat) → Room → Datum → Datum → Except Fault Bool
  | 0, _, _, _ => .error .stackExhausted
  | level + 1, room, x, y => room.need 2 <|
    match x, y with
    | .record xs, .record ys => do
      if ← bothEqual (Datum.isTyped xs) (Datum.isTyped ys) then
        Datum.equalValueTo level (room.less 1) (.record xs) (.record ys)
      else if Datum.sameKeys xs ys then
        room.need 3 (Datum.equalFields (Datum.equalTreeTo level (room.less 3)) ys xs)
      else return false
    | .list xs, .list ys | .list xs, .tuple ys | .tuple xs, .list ys | .tuple xs, .tuple ys =>
      if xs.length = ys.length then
        room.need 3 (equalAll (Datum.equalTreeTo level (room.less 3)) xs ys)
      else .ok false
    | x, y => .ok (x.same y)

end

/-- How many calls deep a comparison with a datum goes: two for each level of the datum. -/
def Datum.comparisons (x : Datum) : Nat :=
  2 * x.height + 2

def Datum.equalValue (room : Room) (x y : Datum) : Except Fault Bool :=
  Datum.equalValueTo x.comparisons room x y

/-- Equality of data that are read as trees: records of the five types are compared as values, other
data part by part. -/
def Datum.equalTree (room : Room) (x y : Datum) : Except Fault Bool :=
  Datum.equalTreeTo x.comparisons room x y

/-! ### Values and expressions -/

mutual

/-- Equality of values. Where one of them came from outside both are compared as data. -/
def Value.equal (room : Room) (x y : Value) : Except Fault Bool :=
  match x, y with
  | .foreign d, y => d.equalValue room y.toDatum
  | x, .foreign d => x.toDatum.equalValue room d
  | .int m, .int n => room.need 2 (.ok (m == n))
  | .bool a, .bool b => room.need 2 (.ok (a == b))
  | .vec xs, .vec ys => room.need 2 <|
    if xs.length = ys.length then room.need 3 (Value.equalItems (room.less 3) xs ys)
    else .ok false
  | .fn name params body, .fn name' params' body' => room.need 2 <|
    if name = name' ∧ params = params' then Expr.equal (room.less 1) body body' else .ok false
  | _, _ => room.need 2 (.ok false)
termination_by structural x

def Value.equalItems (room : Room) (xs ys : List Value) : Except Fault Bool :=
  match xs, ys with
  | [], ys => .ok ys.isEmpty
  | _ :: _, [] => .ok false
  | x :: xs, y :: ys => bothEqual (Value.equal room x y) (Value.equalItems room xs ys)
termination_by structural xs

/-- Equality of expression trees. Where one of two came from outside both are compared as data. -/
def Expr.equal (room : Room) (x y : Expr) : Except Fault Bool :=
  match x, y with
  | .foreign d, y => d.equalTree room y.toDatum
  | x, .foreign d => x.toDatum.equalTree room d
  | .lit (.foreign d), .lit w => room.need 5 (d.equalTree (room.less 3) w.toDatum)
  | .lit v, .lit (.foreign d) => room.need 5 (v.toDatum.equalTree (room.less 3) d)
  | .lit v, .lit w => room.need 5 (Value.equal (room.less 4) v w)
  | .var name, .var name' => room.need 5 (.ok (name == name'))
  | .app callee args, .app callee' args' => room.need 5 <|
    bothEqual (Expr.equal (room.less 6) callee callee') <| room.need 8 <|
      if args.length = args'.length then room.need 9 (Expr.equalItems (room.less 9) args args')
      else .ok false
  | .letIn name value body, .letIn name' value' body' => room.need 8 <|
    if name = name' then
      bothEqual (Expr.equal (room.less 6) value value') (Expr.equal (room.less 6) body body')
    else .ok false
  | .cond test yes no, .cond test' yes' no' => room.need 5 <|
    bothEqual (Expr.equal (room.less 6) test test') <|
      bothEqual (Expr.equal (room.less 6) yes yes') (Expr.equal (room.less 6) no no')
  | .spawn body, .spawn body' => room.need 5 (Expr.equal (room.less 3) body body')
  | .sync body, .sync body' => room.need 5 (Expr.equal (room.less 3) body body')
  | _, _ => room.need 5 (.ok false)
termination_by structural x

def Expr.equalItems (room : Room) (xs ys : List Expr) : Except Fault Bool :=
  match xs, ys with
  | [], ys => .ok ys.isEmpty
  | _ :: _, [] => .ok false
  | x :: xs, y :: ys => bothEqual (Expr.equal room x y) (Expr.equalItems room xs ys)
termination_by structural xs

end

end ForkJoin

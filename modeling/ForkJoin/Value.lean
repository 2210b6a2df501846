import ForkJoin.Failure

/-!
# Values and expressions

The language has integers, truth values, vectors, functions and futures; a program is a tree of
seven kinds of node. A function holds its body unevaluated and no environment: its free variables
are looked up where it is applied. A literal holds a value, so values and expressions are one
mutual type.

Where a value or an expression is expected, data from outside can stand instead. They are kept as
they are and taken apart only when a part of them is needed, so what is wrong with them shows when
an evaluation comes to it.
-/

namespace ForkJoin

mutual

/-- The values of the language, and what can stand in their place. -/
inductive Value where
  | int (n : Int)
  | bool (b : Bool)
  | vec (items : List Value)
  | fn (name : Option String) (params : List String) (body : Expr)
  | future (cell : CellId)
  /-- Data from outside in the place of a value. -/
  | foreign (d : Datum)

inductive Expr where
  | lit (value : Value)
  | var (name : String)
  | app (callee : Expr) (args : List Expr)
  | letIn (name : String) (value body : Expr)
  | cond (test yes no : Expr)
  | spawn (body : Expr)
  | sync (body : Expr)
  | foreign (d : Datum)

end

deriving instance Inhabited for Value
deriving instance Inhabited for Expr

/-- An application of the function bound to a name. -/
def Expr.call (name : String) (args : List Expr) : Expr :=
  .app (.var name) args

/-! ### Type names -/

/-- The names of the five types of the language. -/
def valueTypes : List String :=
  ["Integer", "Boolean", "Vector", "Function", "Future"]

end ForkJoin

import ForkJoin.Env

/-!
# Builtins

The fixed set of primitives. A function whose name is that of a builtin is the builtin, whatever
parameters and body it has; the environment that programs start in binds each of the names to such
a function, with the builtin's parameters and a body that is never evaluated.
-/

namespace ForkJoin

inductive Builtin where
  | add
  | sub
  | eq
  | choose
  | cons
  | head
  | tail
  deriving DecidableEq, Inhabited, Repr

namespace Builtin

/-- All of them, in the order of the table. -/
def all : List Builtin :=
  [.add, .sub, .eq, .choose, .cons, .head, .tail]

def name : Builtin → String
  | .add => "+"
  | .sub => "-"
  | .eq => "="
  | .choose => "if"
  | .cons => "cons"
  | .head => "head"
  | .tail => "tail"

def params : Builtin → List String
  | .add | .sub | .eq => ["x", "y"]
  | .choose => ["cond", "then", "else"]
  | .cons => ["head", "list"]
  | .head | .tail => ["list"]

def arity (b : Builtin) : Nat :=
  b.params.length

def ofName? (name : String) : Option Builtin :=
  all.find? (·.name == name)

/-- The builtin that a function with a name stands for, if any. -/
def ofFunctionName (name : Datum) : Except Fault (Option Builtin) := do
  match ← Name.ofDatum name with
  | .text s => return ofName? s
  | _ => return none

/-- Whether a builtin takes its arguments from their positions, one when it needs it, rather than
all of them in order. -/
def isPositional : Builtin → Bool
  | .choose | .head | .tail => true
  | _ => false

def placeholder (b : Builtin) : Value :=
  .fn (some b.name) b.params (.var (b.params.headD ""))

end Builtin

def Env.builtins : Env :=
  .root (.ofList (Builtin.all.map fun b => (.text b.name, b.placeholder)))

end ForkJoin

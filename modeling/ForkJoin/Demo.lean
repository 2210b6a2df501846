import ForkJoin.Name.Datum
import ForkJoin.Value.Record

/-!
# Demo programs

Four functions and three programs over them, written as expression trees. A program doubles its
numbers, or the first of them; the two that map over all numbers do so in one thread, or in one
task for each number.
-/

namespace ForkJoin

/-! ### Functions -/

/-- A function with the name that it is bound to. -/
structure Definition where
  name : String
  params : List String
  body : Expr
  deriving Inhabited

namespace Definition

def value (d : Definition) : Value :=
  .fn (some d.name) d.params d.body

def double : Definition where
  name := "double"
  params := ["x"]
  body := .call "+" [.var "x", .var "x"]

/-- Applies `f` to the first `n` elements of `v`, one after another; `A` and `B` stand for the types
of the elements and are not used. -/
def recursivePmap : Definition where
  name := "recursive_pmap"
  params := ["A", "B", "n", "f", "v"]
  body :=
    .call "if" [
      .call "=" [.var "n", .lit (.int 0)],
      .lit (.vec []),
      .call "cons" [
        .call "f" [.call "head" [.var "v"]],
        .call "recursive_pmap" [.var "A", .var "B", .call "-" [.var "n", .lit (.int 1)], .var "f",
          .call "tail" [.var "v"]]]]

def pmap : Definition where
  name := "pmap"
  params := ["A", "B", "n", "f", "v"]
  body := .call "recursive_pmap" [.var "A", .var "B", .var "n", .var "f", .var "v"]

/-- Applies `f` to every element of `v` in a task of its own. All tasks are spawned before the first
result is waited for, and the results keep the order of `v`. -/
def spawnMap : Definition where
  name := "spawn_map"
  params := ["f", "v"]
  body :=
    .cond (.call "=" [.var "v", .lit (.vec [])])
      (.lit (.vec []))
      (.letIn "pending" (.spawn (.call "f" [.call "head" [.var "v"]]))
        (.letIn "rest" (.call "spawn_map" [.var "f", .call "tail" [.var "v"]])
          (.call "cons" [.sync (.var "pending"), .var "rest"])))

/-- The functions that the demo programs use, in the order in which they are defined. -/
def demos : List Definition :=
  [double, recursivePmap, pmap, spawnMap]

end Definition

/-! ### Programs -/

/-- A demo: its name, its description and its program for some numbers. -/
structure Demo where
  name : String
  description : String
  program : List Datum → Except Fault Expr

instance : Inhabited Demo := ⟨⟨"", "", fun _ => .error .noNumbers⟩⟩

namespace Demo

def numberLiteral (d : Datum) : Except Fault Expr :=
  return .lit (.int (← d.toInteger))

def vectorLiteral (ds : List Datum) : Except Fault Expr :=
  return .lit (.vec ((← ds.mapM Datum.toInteger).map .int))

/-- What stands for a type parameter that is not used. -/
def typePlaceholder : Expr :=
  .lit (.fn (some "") [] (.lit (.int 0)))

/-- The first number doubled. -/
def double : Demo where
  name := "double"
  description := "double applied to the first number"
  program numbers := do
    match numbers with
    | [] => .error .outOfRange
    | first :: _ => return .call "double" [← numberLiteral first]

/-- All numbers doubled, one after another. -/
def pmap : Demo where
  name := "pmap"
  description := "pmap double over the numbers, sequentially"
  program numbers := do
    let vector ← vectorLiteral numbers
    return .call "pmap" [typePlaceholder, typePlaceholder, .lit (.int numbers.length),
      .var "double", vector]

/-- All numbers doubled, each in a task of its own. -/
def spawnMap : Demo where
  name := "spawn-map"
  description := "double every number in its own spawned task"
  program numbers := do
    let vector ← vectorLiteral numbers
    return .call "spawn_map" [.var "double", vector]

def all : List Demo :=
  [double, pmap, spawnMap]

def find? (demos : List Demo) (name : Datum) : Except Fault (Option Demo) := do
  match ← Name.ofDatum name with
  | .text s => return demos.find? (·.name == s)
  | _ => return none

/-- The numbers that a demo runs on unless others are given. -/
def defaultNumbers : List Int :=
  [1, 2, 3, 4]

end Demo

end ForkJoin

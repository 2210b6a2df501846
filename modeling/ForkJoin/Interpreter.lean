import ForkJoin.Demo
import ForkJoin.Eval

/-!
# Interpreters

An interpreter owns an environment. Evaluating an expression at top level keeps the bindings that
the evaluation leaves behind, but only if it succeeds; a failing evaluation changes nothing. After
every change the chain of frames is tidied, as a rule into a single frame.

Running out of stack is a fault while an evaluation runs. An interpreter reports it as the error of
the language that says so, whether it happened in the evaluation itself or in a task that the
evaluation waited for.
-/

namespace ForkJoin

/-- The number of stack frames that the error of a too deep evaluation reports. -/
def reportedDepth : Int := 10000

/-- The stack that threads have as a rule: ten thousand entries, of which a few are taken before
anything is evaluated. -/
def defaultStack : Stack where
  depth := 10000
  room := some 9992

/-- How interpreters run: the stack of each thread, how many steps a run may take, and what is done
to an environment that is kept. -/
structure Policy where
  stack : Stack := defaultStack
  steps : Nat := 1000000000000
  tidy : Env → Env := Env.compact

instance : Inhabited Policy := ⟨{}⟩

/-- An environment and the settings that expressions are evaluated with. -/
structure Interpreter where
  env : Env := .builtins
  context : Context := {}
  deriving Inhabited

namespace Interpreter

def program (policy : Policy) (i : Interpreter) (e : Expr) : Prog Work Result :=
  policy.stack.eval i.context i.env e

/-- A failure as an interpreter reports it. -/
def reported : Failure → Failure
  | .fault .stackExhausted => .language (.depthExceeded (.int reportedDepth) .null)
  | e => e

/-- Takes in what an evaluation ended with. -/
def conclude (policy : Policy) (i : Interpreter) :
    Except Failure Result → Interpreter × Except Failure Value
  | .ok r => ({ i with env := policy.tidy r.env }, .ok r.value)
  | .error e => (i, .error (reported e))

def define (policy : Policy) (i : Interpreter) (name : Name) (value : Value) : Interpreter :=
  { i with env := policy.tidy (i.env.bind name value) }

def install (policy : Policy) (i : Interpreter) (d : Definition) : Interpreter :=
  i.define policy d.name d.value

def installDemos (policy : Policy) (i : Interpreter) : Interpreter :=
  Definition.demos.foldl (install policy) i

def lookup (i : Interpreter) (name : Datum) : Except Failure Value := do
  match i.env.lookup (← Failure.ofFault (Name.ofDatum name)) with
  | some v => return v
  | none => .error (.language (.undefinedVariable name))

def bindings (i : Interpreter) : Frame :=
  i.env.flatten

/-- Makes ready to run a demo. The demo must exist and be given a number; then the functions that
demos use are bound, whether or not its program can be made from the numbers. -/
def prepareDemo (policy : Policy) (demos : List Demo) (i : Interpreter) (name : Datum)
    (numbers : List Datum) : Interpreter × Except Failure Expr :=
  match Demo.find? demos name with
  | .error f => (i, .error (.fault f))
  | .ok none => (i, .error (.fault (.unknownDemo name)))
  | .ok (some demo) =>
    if numbers.isEmpty then (i, .error (.fault .noNumbers))
    else (i.installDemos policy, Failure.ofFault (demo.program numbers))

end Interpreter

end ForkJoin

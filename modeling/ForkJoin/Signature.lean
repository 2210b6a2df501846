import ForkJoin.Datum

/-!
# Signatures

What something is made from: parameters, the first of which are required. Arguments by position fill
the parameters from the first on, arguments by name fill the parameter of that name. Arguments that
do not fit are refused. Of several reasons one is told: first an argument by name that has no
parameter to itself, then arguments by position behind the last parameter, then required parameters
that are left empty.
-/

namespace ForkJoin

/-- Why arguments are refused. -/
inductive Misfit where
  /-- An argument by name, where all are taken by position. -/
  | named
  /-- An argument by a name that no parameter has. -/
  | unexpected (key : String)
  /-- A second argument for a parameter. -/
  | repeated (key : String)
  /-- More arguments by position than parameters, of which the first are required. -/
  | tooMany (required params given : Nat)
  /-- Required parameters without an argument. -/
  | missing (params : List String)
  deriving DecidableEq, Inhabited, Repr

/-- Names one after another, with an "and" before the last. -/
def enumerated : List String → String
  | [] => ""
  | [a] => a
  | [a, b] => a ++ " and " ++ b
  | names => ", ".intercalate names.dropLast ++ ", and " ++ names.getLastD ""

/-- Arguments, in the number that a count asks for. -/
def argumentNoun (count : Nat) : String :=
  if count = 1 then "argument" else "arguments"

def Misfit.message (maker : String) : Misfit → String
  | .named => s!"{maker} takes no keyword arguments"
  | .unexpected key => s!"{maker} got an unexpected keyword argument '{key}'"
  | .repeated key => s!"{maker} got multiple values for argument '{key}'"
  | .tooMany required params given =>
    let (takes, noun) :=
      if required = params then (toString params, argumentNoun params)
      else (s!"from {required} to {params}", "arguments")
    let verb := if given = 1 then "was" else "were"
    s!"{maker} takes {takes} positional {noun} but {given} {verb} given"
  | .missing params =>
    let names := enumerated (params.map Text.quoted)
    s!"{maker} missing {params.length} required positional {argumentNoun params.length}: {names}"

/-- The parameters of what is made, the first of which are required. -/
structure Signature where
  params : List String
  required : Nat
  deriving DecidableEq, Inhabited, Repr

namespace Signature

/-- Why an argument by name is refused, if it is, behind a number of arguments by position. -/
def refusal? (s : Signature) (positional : Nat) (key : String) : Option Misfit :=
  if !s.params.contains key then some (.unexpected key)
  else if (s.params.take positional).contains key then some (.repeated key)
  else none

/-- The arguments by the names of their parameters. -/
def bind (s : Signature) (positional : List Datum) (named : List (String × Datum)) :
    Except Misfit (List (String × Datum)) :=
  match named.findSome? fun (key, _) => s.refusal? positional.length key with
  | some misfit => .error misfit
  | none =>
    if s.params.length < positional.length then
      .error (.tooMany s.required s.params.length positional.length)
    else
      let given := s.params.zip positional ++ named
      match (s.params.take s.required).filter fun param => (given.lookup param).isNone with
      | [] => .ok given
      | missing => .error (.missing missing)

end Signature

end ForkJoin

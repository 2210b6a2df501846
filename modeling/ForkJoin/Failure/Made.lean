import ForkJoin.Failure

/-!
# Failures made from arguments

How failures are made outside the language: by the name of a kind of failure, and from arguments by
position and by name. Arguments that do not fit make no failure; why they do not fit is then a fault
of its own.
-/

namespace ForkJoin

/-- A kind of error: what its errors are made from, and how. -/
structure ErrorKind where
  signature : Signature
  make : (String → Datum) → LanguageError

namespace ErrorKind

/-- A kind of error whose first parameters are required. Before them all stands the error itself. -/
def ofParams (params : List String) (required : Nat) (make : (String → Datum) → LanguageError) :
    ErrorKind :=
  ⟨⟨"self" :: params, required + 1⟩, make⟩

/-- The kind of error of a name. -/
def find? : String → Option ErrorKind
  | "UndefinedVariableError" => some (.ofParams ["name"] 1 fun get =>
      .undefinedVariable (get "name"))
  | "NotCallableError" => some (.ofParams ["value_type"] 1 fun get =>
      .notCallable (get "value_type"))
  | "ArityMismatchError" => some (.ofParams ["function", "expected", "got"] 3 fun get =>
      .arityMismatch (get "function") (get "expected") (get "got"))
  | "ForkletTypeError" => some (.ofParams ["reason", "function", "expected", "got"] 1 fun get =>
      .typeMismatch (get "reason") (get "function") (get "expected") (get "got"))
  | "EmptyCollectionError" => some (.ofParams ["operation"] 1 fun get =>
      .emptyCollection (get "operation"))
  | "FutureAlreadyConsumedError" => some (.ofParams ["task_id"] 0 fun get =>
      .alreadyConsumed (get "task_id"))
  | "RecursionDepthError" => some (.ofParams ["limit", "task"] 1 fun get =>
      .depthExceeded (get "limit") (get "task"))
  | "ForkletRuntimeError" =>
    some (.ofParams ["message", "function", "expected", "got", "task"] 1 fun get =>
      .other (get "message") (get "function") (get "expected") (get "got") (get "task"))
  | _ => none

end ErrorKind

/-- An error of a kind of the given name. A parameter without an argument is null. -/
def LanguageError.ofArguments (name : String) (positional : List Datum)
    (named : List (String × Datum)) : Except Fault LanguageError :=
  match ErrorKind.find? name with
  | none => .error (.missingKey name)
  | some kind =>
    match kind.signature.bind (.null :: positional) named with
    | .ok given => .ok (kind.make fun param => (given.lookup param).getD .null)
    | .error misfit => .error (.wrongArguments (name ++ ".__init__()") misfit)

def Failure.ofArguments (name : String) (positional : List Datum)
    (named : List (String × Datum)) : Except Fault Failure :=
  match name, named with
  | "ValueError", [] => .ok (.fault (.refused positional))
  | "ValueError", _ => .error (.wrongArguments "ValueError()" .named)
  | name, named => (LanguageError.ofArguments name positional named).map .language

/-- What is raised in an attempt to raise a failure: it, or what kept it from being made. -/
def Failure.raised : Except Failure Failure → Failure
  | .ok e => e
  | .error e => e

end ForkJoin

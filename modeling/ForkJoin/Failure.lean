import ForkJoin.Signature

/-!
# Failures

What can end an evaluation without a value. A `LanguageError` is a failure that the language
defines: its report names the kind of error and says where it arose, what was expected, what was
found and which task it concerns. A `Fault` lies outside the language: a malformed tree, data that
are no value, a broken rule of a cell, or a stack that ran out. Every failure is one cause, and its
wording is read off the cause.

What a failure tells is plain data, since names and types can come from outside; as a rule it is a
text.
-/

namespace ForkJoin

/-! ### Errors of the language -/

/-- The failures that the language defines. -/
inductive LanguageError where
  | undefinedVariable (name : Datum)
  /-- An application of a value of type `got`, which is no function. -/
  | notCallable (got : Datum)
  /-- An application to another number of arguments than the function takes. -/
  | arityMismatch (function expected got : Datum)
  /-- An operand of the wrong type. -/
  | typeMismatch (reason function expected got : Datum)
  | emptyCollection (operation : Datum)
  /-- A second claim of a future; `task` is the task behind it. -/
  | alreadyConsumed (task : Datum)
  | depthExceeded (limit task : Datum)
  | other (message function expected got task : Datum)
  deriving Inhabited, Repr

/-- What is told about an error; a detail that does not apply is null. -/
structure Report where
  kind : Datum
  message : Datum
  function : Datum := .null
  expected : Datum := .null
  got : Datum := .null
  task : Datum := .null
  deriving Inhabited, Repr

/-- A report on several lines. A function or task is named unless it is empty; what was expected
and what was found are given unless they do not apply. -/
def Report.text (r : Report) : String :=
  let named (label : String) (d : Datum) := if d.isTruthy then label ++ d.display else ""
  let given (label : String) (d : Datum) :=
    match d with
    | .null => ""
    | d => label ++ d.display
  r.kind.display ++ ": " ++ r.message.display ++ named "\n  In: " r.function ++
    given "\n  Expected: " r.expected ++ given "\n  Got: " r.got ++ named "\n  Task: " r.task

namespace LanguageError

/-- The message of an arity error, with the noun in the number that the count asks for. -/
def arityMessage (function expected got : Datum) : String :=
  let noun := if expected.same (.int 1) then "argument" else "arguments"
  s!"{function.display} takes {expected.display} {noun}, got {got.display}"

def report : LanguageError → Report
  | .undefinedVariable name =>
    { kind := "UndefinedVariable", message := s!"Undefined variable: {name.display}" }
  | .notCallable got =>
    { kind := "NotCallable", message := "Not a function", expected := "Function", got }
  | .arityMismatch function expected got =>
    { kind := "ArityMismatch", message := arityMessage function expected got, function, expected,
      got }
  | .typeMismatch reason function expected got =>
    { kind := "TypeError", message := reason, function, expected, got }
  | .emptyCollection operation =>
    { kind := "EmptyCollection", message := "empty vector", function := operation }
  | .alreadyConsumed task =>
    { kind := "FutureAlreadyConsumed", message := "future has already been synced",
      function := "sync", task }
  | .depthExceeded limit task =>
    { kind := "RecursionDepth", message := "expression nests too deeply to evaluate",
      expected := s!"at most {limit.display} nested Python frames", task }
  | .other message function expected got task =>
    { kind := "RuntimeError", message, function, expected, got, task }

def text (e : LanguageError) : String :=
  e.report.text

end LanguageError

/-! ### Faults -/

/-- The failures that lie outside the language. The kinds that they tell are those of data. -/
inductive Fault where
  /-- The evaluation ran out of stack. -/
  | stackExhausted
  | unknownNode (type : Datum)
  /-- An integer with too many digits to be written. -/
  | numeralTooLong
  /-- A text that is not read as a numeral. -/
  | notNumeral (text : String) (why : Text.Numeral.Misread)
  /-- A datum of kind `got` where a whole number is needed. -/
  | notInteger (got : String)
  | notBoolean (got : String)
  | noNumbers
  | unknownDemo (name : Datum)
  /-- A key that a record or table does not hold. -/
  | missingKey (key : Datum)
  /-- A second write to the cell of a task. -/
  | alreadyPopulated (task : Datum)
  /-- A position past the end of a list. -/
  | outOfRange
  /-- A part of something that has no parts. -/
  | noParts (kind : String)
  /-- A position of kind `index` in a sequence, which is counted. -/
  | badPosition (kind index : String)
  | noLength (kind : String)
  | noItems (kind : String)
  /-- A name or key of a kind that cannot be looked up. -/
  | noKey (kind : String)
  /-- A property that data of a kind do not have. -/
  | noProperty (kind property : String)
  /-- An operation that is not defined on its operands. -/
  | noOperation (symbol left right : String)
  /-- A sequence joined with something else than a sequence of its kind. -/
  | notJoinable (left right : String)
  /-- A sequence repeated some other number of times than a whole number. -/
  | notRepeatable (kind : String)
  | beyondFractions
  /-- A sequence repeated more often than can be counted. -/
  | uncountable
  | textTooLong
  | noRoom
  /-- Other arguments than `maker` makes something from. -/
  | wrongArguments (maker : String) (why : Misfit)
  | unreadable
  | notBreakable
  /-- A value that some outside work refused, for the reasons it gave. -/
  | refused (reasons : List Datum)
  deriving Inhabited, Repr

def Fault.positionName (kind : String) : String :=
  if kind = "str" then "string indices must be integers"
  else kind ++ " indices must be integers or slices"

/-- The wording for a numeral of too many digits, with what is known of it. -/
def Fault.longNumeral (known : String) : String :=
  s!"Exceeds the limit ({Text.Numeral.maxDigits} digits) for integer string conversion{known}; " ++
    "use sys.set_int_max_str_digits() to increase the limit"

def Fault.message : Fault → String
  | .stackExhausted => "maximum recursion depth exceeded"
  | .unknownNode type => s!"Unknown node type: {type.display}"
  | .numeralTooLong => longNumeral ""
  | .notNumeral text .malformed =>
    "invalid literal for int() with base 10: " ++
      String.ofList ((Text.quoted text).toList.take 200)
  | .notNumeral _ (.tooLong digits) => longNumeral s!": value has {digits} digits"
  | .notInteger got => s!"Integer value must be an int, got {got}"
  | .notBoolean got => s!"Boolean value must be a bool, got {got}"
  | .noNumbers => "demos need at least one number"
  | .unknownDemo name => s!"Unknown demo: {name.display}"
  | .missingKey key => key.display
  | .alreadyPopulated task => s!"future for task {task.display} already populated"
  | .outOfRange => "list index out of range"
  | .noParts kind => s!"'{kind}' object is not subscriptable"
  | .badPosition kind index =>
    let position := positionName kind
    s!"{position}, not " ++ (if kind = "str" then s!"'{index}'" else index)
  | .noLength kind => s!"object of type '{kind}' has no len()"
  | .noItems kind => s!"'{kind}' object is not iterable"
  | .noKey kind => s!"unhashable type: '{kind}'"
  | .noProperty kind property => s!"'{kind}' object has no attribute '{property}'"
  | .noOperation symbol left right =>
    s!"unsupported operand type(s) for {symbol}: '{left}' and '{right}'"
  | .notJoinable left right => s!"can only concatenate {left} (not \"{right}\") to {left}"
  | .notRepeatable kind => s!"can't multiply sequence by non-int of type '{kind}'"
  | .beyondFractions => "int too large to convert to float"
  | .uncountable => "cannot fit 'int' into an index-sized integer"
  | .textTooLong => "repeated string is too long"
  | .noRoom => ""
  | .wrongArguments maker why => why.message maker
  | .unreadable => "not in a form that can be read"
  | .notBreakable => ""
  | .refused reasons => ((reasons.head?).map Datum.display).getD ""

/-- The text of a fault: its wording, except that a missing entry is told by its key as it is
written, and several reasons are told together. -/
def Fault.text (f : Fault) : String :=
  match f with
  | .unknownDemo _ => Text.quoted f.message
  | .missingKey key => key.literal
  | .refused (first :: second :: rest) => (Datum.tuple (first :: second :: rest)).literal
  | _ => f.message

/-! ### Failures -/

inductive Failure where
  | language (e : LanguageError)
  | fault (f : Fault)
  deriving Inhabited, Repr

instance : Coe LanguageError Failure := ⟨.language⟩

instance : Coe Fault Failure := ⟨.fault⟩

def Failure.text : Failure → String
  | .language e => e.text
  | .fault f => f.text

/-- A result that a fault may stand in for, as one that any failure may stand in for. -/
def Failure.ofFault {α : Type} : Except Fault α → Except Failure α
  | .ok a => .ok a
  | .error f => .error f

/-- A result that an error may stand in for, as one that any failure may stand in for. -/
def Failure.ofError {α : Type} : Except LanguageError α → Except Failure α
  | .ok a => .ok a
  | .error e => .error e

end ForkJoin

import ForkJoin.CommandLine.Options
import ForkJoin.Session

/-!
# The command line

Runs one demo and tells its result, or tells about the program. A result is told as soon as the
main thread has it, so tasks that nobody waits for are still under way then. An error of the
language is told between rules and makes the exit code one; a fault is not caught.
-/

namespace ForkJoin.CommandLine

/-- What a run of the program leaves: how it ended, what it printed and what its tasks printed. -/
structure Outcome where
  exit : Except Failure Nat
  stdout : String := ""
  stderr : String := ""
  session : Session := {}
  tasks : List (ThreadId × List String) := []
  deriving Inhabited

/-- The demos with others put among them, sorted by name; one of the same name takes the place. -/
def arrange (demos added : List Demo) : List Demo :=
  let kept := demos.filter fun demo => !added.any (·.name == demo.name)
  (kept ++ added).mergeSort fun x y => decide (x.name ≤ y.name)

def unlines (lines : List String) : String :=
  String.join (lines.map (· ++ "\n"))

def openingLine (demo : Datum) (numbers : String) : String :=
  s!"Running demo '{demo.display}' with values {numbers}"

/-- The lines that open a run: one if there is debug output, unless a number is too long for it. -/
def openingLines (settings : Settings) : Except Fault (List String) := do
  if settings.debug then
    let numbers ← (Datum.list (settings.values.map .int)).shown
    return [openingLine settings.demo numbers]
  else return []

def errorLines (demo : Datum) (e : LanguageError) : List String :=
  let rule := String.ofList (List.replicate 70 '=')
  ["", rule, s!"Runtime Error in demo '{demo.display}'", rule, "", e.text, "", rule, ""]

/-- The lines that tell how many elements a vector has; other values have none. -/
def lengthLines (v : Value) : Except Fault (List String) := do
  if v.hasType "Vector" then
    let length ← v.length
    return [s!"Length: {length}"]
  else return []

/-- How a run ends that has a value, and the lines that tell the value. -/
def conclusion (policy : Policy) (view : CellView) (v : Value) :
    Except Failure Nat × List String :=
  match v.display view policy.stack.room with
  | .error f => (.error (.fault f), [])
  | .ok text =>
    match lengthLines v with
    | .error f => (.error (.fault f), ["Result: " ++ text])
    | .ok lines => (.ok 0, ("Result: " ++ text) :: lines)

def runDemo (policy : Policy) (demos : List Demo) (settings : Settings) : Outcome :=
  let context : Context := { debug := settings.debug, scopedLet := settings.scopedLet }
  let session : Session := { context, demos }
  match openingLines settings with
  | .error f => { exit := .error (.fault f), session }
  | .ok opening =>
    let numbers := settings.values.map Datum.int
    let (session, reply) := session.perform policy "main" (.runDemo settings.demo numbers)
    let (exit, told) :=
      match reply with
      | .ok (.value v) => conclusion policy session.pool.system.view v
      | .ok _ => (.ok 0, [])
      | .error (.language e) => (.ok 1, errorLines settings.demo e)
      | .error e => (.error e, [])
    let printed := session.pool.printed .main
    let session := session.settle policy
    let tasks := session.pool.takePrinted.2.filter fun (id, _) => id != .main
    { exit, stdout := unlines (opening ++ printed ++ told), session, tasks }

def Outcome.told : Except Fault String → Outcome
  | .ok text => { exit := .ok 0, stdout := text }
  | .error f => { exit := .error (.fault f) }

def Outcome.refused (demos : List Demo) (problem : String) : Outcome :=
  match usage demos with
  | .ok usage =>
    { exit := .ok 2, stderr := usage ++ "\n" ++ program ++ ": error: " ++ problem ++ "\n" }
  | .error f => { exit := .error (.fault f) }

/-- Runs the program on the words of a command line, with more demos than its own. -/
def run (policy : Policy) (added : List Demo) (argv : List String) : Outcome :=
  let demos := arrange Demo.all added
  match read demos argv with
  | .error .help => .told (help demos)
  | .error .version => .told (.ok (version ++ "\n"))
  | .error (.problem text) => .refused demos text
  | .ok settings =>
    if settings.list then .told (.ok (listing demos)) else runDemo policy demos settings

end ForkJoin.CommandLine

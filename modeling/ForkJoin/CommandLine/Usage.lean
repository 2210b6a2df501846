import ForkJoin.CommandLine.Bracketed
import ForkJoin.Demo

/-!
# Usage and help texts

How the command line presents itself. The usage lists the options in brackets and breaks between
two of them where a line would grow too long. The help sets the options in two columns and breaks
their descriptions between words. The names of the demos are part of both texts.
-/

namespace ForkJoin.CommandLine

def program : String := "forklet"

def version : String := "Forklet v0.1.0"

def lineWidth : Nat := 78

def helpColumn : Nat := 24

/-- Fills lines with parts, a blank between two of them. A line is begun anew where a part does not
fit behind at least one other; `used` counts the characters of the line so far and the blank. -/
def fill (width first indent : Nat) (parts : List String) : List String :=
  let (lines, line, _) := parts.foldl place ([], [], first)
  (lines ++ [line]).map (" ".intercalate ·)
where
  place : List (List String) × List String × Nat → String → List (List String) × List String × Nat
    | (lines, line, used), part =>
      if used + part.length > width && !line.isEmpty then
        (lines ++ [line], [part], indent + part.length + 1)
      else (lines, line ++ [part], used + part.length + 1)

/-! ### Usage -/

def choices (demos : List Demo) : String :=
  "\x7b" ++ ",".intercalate (demos.map (·.name)) ++ "\x7d"

def synopsis (demos : List Demo) : String :=
  " ".intercalate ["[-h]", "[--demo " ++ choices demos ++ "]", "[--values N [N ...]]", "[--list]",
    "[--debug]", "[--scoped-let]", "[--version]"]

/-- The usage, without a line end behind it. The options are put on lines piece by piece; a text
that its pieces do not give back when they are joined cannot be put on lines. -/
def usage (demos : List Demo) : Except Fault String :=
  let lead := "usage: "
  let indent := lead.length + program.length + 1
  let options := Bracketed.tidy (synopsis demos).toList
  let pieces := (Bracketed.pieces 0 options).map String.ofList
  if " ".intercalate pieces = String.ofList options then
    let lines := fill lineWidth lead.length indent (program :: pieces)
    .ok (lead ++ ("\n" ++ Text.blanks indent).intercalate lines)
  else .error .notBreakable

/-! ### Help -/

/-- An option and its description. A long option has a line of its own. -/
def entry (option description : String) : String :=
  let words := description.splitOn " "
  let lines := fill (lineWidth - helpColumn) 0 0 words
  let described := ("\n" ++ Text.blanks helpColumn).intercalate lines
  if option.length + 4 ≤ helpColumn then Text.padRight helpColumn ("  " ++ option) ++ described
  else "  " ++ option ++ "\n" ++ Text.blanks helpColumn ++ described

def entries (demos : List Demo) : List String := [
  entry "-h, --help" "show this help message and exit",
  entry ("--demo " ++ choices demos) "Demo program to run (default: pmap)",
  entry "--values N [N ...]" "Integers fed to the demo (default: 1 2 3 4)",
  entry "--list" "List the available demos and exit",
  entry "--debug" "Enable debug output for evaluation and spawned tasks",
  entry "--scoped-let" "Discard let bindings once their body has been evaluated",
  entry "--version" "show program's version number and exit"]

def examples : List String := [
  "Examples:",
  "  forklet                           # Run the pmap demo over 1 2 3 4",
  "  forklet --demo spawn-map          # Same map, one spawned task per element",
  "  forklet --demo double --values 21 # double 21",
  "  forklet --list                    # List the demos",
  "  forklet --debug --demo spawn-map  # Trace evaluation",
  "        "]

def help (demos : List Demo) : Except Fault String := do
  let sections := [
    ← usage demos,
    "Forklet - expression evaluator with spawn/sync futures",
    "\n".intercalate ("options:" :: entries demos),
    "\n".intercalate examples]
  return "\n\n".intercalate sections ++ "\n"

/-! ### Demos -/

def summary (demo : Demo) : String :=
  (Text.firstLine? (Text.trim demo.description)).getD ""

def listing (demos : List Demo) : String :=
  let line (demo : Demo) := "  " ++ Text.padRight 10 demo.name ++ " " ++ summary demo
  String.join (("Available demos:" :: demos.map line).map (· ++ "\n"))

end ForkJoin.CommandLine

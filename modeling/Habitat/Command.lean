import Habitat.Model
import Habitat.Run.Codec
import Habitat.Description.Decode
import Habitat.Json.Reader
import Habitat.Json.Writer
import Habitat.Decimal.Reader

/-!
# The command line

`check` builds a model and prints its diagnostics. `run` runs it for a number of steps and prints
the live agents. Files are given by a function from names to texts, so that a command is a pure
function of its arguments and of the files it reads.
-/
namespace Habitat.Command

/-- What to do. -/
inductive Verb where
  | check | run
  deriving DecidableEq

/-- The arguments of a command as far as they have been read. -/
structure Options where
  verb : Option Verb
  model : Option String
  config : Option String
  steps : Option Nat

/-- Why a command failed. -/
inductive Failure where
  /-- The arguments make no sense. -/
  | usage
  /-- A file is missing or cannot be read. -/
  | unreadable (file : String)
  /-- The model could not be built or started. -/
  | refused (context : String) (cause : Option String)

/-- What a command prints. Every message ends its line, and may have several. -/
structure Output where
  messages : List String
  reports : List String

/-- The lines of printed messages. A carriage return at the end of a line is part of its end. -/
def printedLines (messages : List String) : List String :=
  messages.flatMap fun m => (m.splitOn "\n").map fun line =>
    if line.endsWith "\r" then (line.dropEnd 1).toString else line

/-! ## Arguments -/

/-- A number of steps. -/
def natural? (s : String) : Option Nat :=
  let ds := match s.toList with
    | '+' :: ds => ds
    | ds => ds
  if ds.isEmpty || !ds.all Char.isDigit then none
  else
    let n := Decimal.ofDigits ds
    if n < Decimal.wordEnd then some n else none

/-- The options that take a value. -/
inductive Key where
  | model | config | steps

def key? : String → Option Key
  | "--model" | "-m" => some .model
  | "--config" | "-c" => some .config
  | "--steps" | "-s" => some .steps
  | _ => none

/-- Splits a value off an option that carries it. -/
def attached? (arg : String) : Option (Key × String) :=
  match arg.toList with
  | '-' :: '-' :: rest =>
    let name := rest.takeWhile (· ≠ '=')
    match rest.dropWhile (· ≠ '=') with
    | _ :: value => (key? ("--" ++ String.ofList name)).map (·, String.ofList value)
    | [] => none
  | '-' :: c :: '=' :: value => (key? (String.ofList ['-', c])).map (·, String.ofList value)
  | '-' :: c :: value => (key? (String.ofList ['-', c])).map (·, String.ofList value)
  | _ => none

/-- Whether an argument is an option rather than a value. -/
def looksLikeOption (arg : String) : Bool := arg.startsWith "-" && arg ≠ "-"

/-- Sets an option, which may be given once. -/
def Options.set (o : Options) (key : Key) (value : String) : Option Options :=
  if value.isEmpty then none else
  match key with
  | .model => if o.model.isNone ∧ o.verb.isSome then some { o with model := some value } else none
  | .config => if o.config.isNone then some { o with config := some value } else none
  | .steps =>
    if o.steps.isNone ∧ o.verb = some .run then
      (natural? value).map fun n => { o with steps := some n }
    else none

def verb? : String → Option Verb
  | "check" => some .check
  | "run" => some .run
  | _ => none

/-- Why the reading of arguments ended early. -/
inductive Halt where
  /-- The arguments make no sense. -/
  | usage
  /-- Help is wanted, with a command or in general. -/
  | help (verb : Option Verb)

/-- Whether an argument asks for help. -/
def asksForHelp (arg : String) : Bool := arg = "--help" || arg.startsWith "-h"

/-- Reads arguments one after another. Nothing may follow `--`. -/
def readArgs : List String → Options → Except Halt Options
  | [], o => .ok o
  | arg :: rest, o =>
    if arg = "--" then if rest.isEmpty then .ok o else .error .usage
    else if asksForHelp arg then .error (.help o.verb)
    else
      match key? arg, rest with
      | some key, value :: rest =>
        if looksLikeOption value then .error .usage
        else
          match o.set key value with
          | some o => readArgs rest o
          | none => .error .usage
      | some _, [] => .error .usage
      | none, rest =>
        match attached? arg with
        | some (key, value) =>
          match o.set key value with
          | some o => readArgs rest o
          | none => .error .usage
        | none =>
          match o.verb, verb? arg with
          | none, some v => readArgs rest { o with verb := some v }
          | _, _ => .error .usage

/-! ## Help -/

def Verb.name : Verb → String
  | .check => "check"
  | .run => "run"

def Verb.summary : Verb → String
  | .check => "Build a model and print its diagnostics"
  | .run => "Run a model and print the live agents"

/-- The options of a command, or of all commands. -/
def optionHelp (verb : Option Verb) : List String :=
  ["  -c, --config <CONFIG>  Runtime configuration file (JSON)"] ++
  (if verb.isSome then ["  -m, --model <MODEL>    Model description (JSON)"] else []) ++
  (if verb = some .run then
    ["  -s, --steps <STEPS>    Number of steps to execute [default: 1]"]
  else []) ++
  ["  -h, --help             Print help"]

/-- The lines that explain a command, or the program. -/
def help (program : String) (verb : Option Verb) : List String :=
  (match verb with
  | some v => [v.summary, "", "Usage: " ++ program ++ " " ++ v.name ++ " [OPTIONS] --model <MODEL>"]
  | none =>
    ["Statement runtime for multi-level agent-based models", "",
      "Usage: " ++ program ++ " [OPTIONS] <COMMAND>", "", "Commands:",
      "  check  " ++ Verb.check.summary, "  run    " ++ Verb.run.summary,
      "  help   Print this message or the help of the given subcommand(s)"]) ++
  ["", "Options:"] ++ optionHelp verb

/-! ## Commands -/

/-- Reads a file as a document of some kind. -/
def load {α : Type} (files : String → Option String) (read : Json → Option α) (file : String) :
    Except Failure α :=
  match (files file).bind fun text => (Json.read? text).bind read with
  | some a => .ok a
  | none => .error (.unreadable file)

/-- Loads and builds a model. -/
def loadModel (files : String → Option String) (file : String) : Except Failure Model := do
  let draft ← load files ModelDraft.ofJson? file
  match Model.build draft with
  | .ok m => return m
  | .error e => throw (.refused ("building " ++ draft.name) (some e.message))

/-- The diagnostics of a model. -/
def check (model : Model) : Output :=
  ⟨model.diagnostics.map (fun d => d.statement ++ ": " ++ d.message) ++
    [model.name ++ ": " ++ toString model.diagnostics.length ++ " diagnostic(s)"], []⟩

/-- Steps a model several times. -/
def stepTimes (model : Model) : Nat → Machine → Machine
  | 0, m => m
  | n + 1, m => stepTimes model n (model.step m).2

/-- A report as it is printed. -/
def reportLine (r : Report) : String :=
  (match r.severity with
    | .warning => "Warning"
    | .error => "Error") ++ ": " ++ r.message

/-- Runs a model. -/
def run (model : Model) (config : Config) (steps : Nat) : Except Failure Output :=
  match model.begin (model.machine config) with
  | (.failed e, _) => .error (.refused ("init failed: " ++ e.message) none)
  | (_, m) =>
    let m := stepTimes model steps m
    .ok ⟨[(model.snapshot m).pretty], m.reports.map reportLine⟩

/-- Carries a command out, for a program of the given name. -/
def execute (program : String) (files : String → Option String) (args : List String) :
    Except Failure Output := do
  match readArgs args ⟨none, none, none, none⟩ with
  | .error (.help verb) => return ⟨help program verb, []⟩
  | .ok ⟨some verb, some file, configFile, steps⟩ =>
    let config ← match configFile with
      | some f => load files Config.ofJson? f
      | none => pure .standard
    let model ← loadModel files file
    match verb with
    | .check => return check model
    | .run => run model config (steps.getD 1)
  | _ => throw .usage

/-! ## Failures -/

def Failure.code : Failure → Nat
  | .usage => 2
  | _ => 1

/-- What is printed about a failure. -/
def Failure.messages : Failure → List String
  | .usage => ["error: expected check or run, --model FILE, and optionally --config FILE, --steps N"]
  | .unreadable file => ["Error: reading " ++ file]
  | .refused context none => ["Error: " ++ context]
  | .refused context (some cause) =>
    ["Error: " ++ context, "", "Caused by:"] ++ (cause.splitOn "\n").map fun line => "    " ++ line

end Habitat.Command

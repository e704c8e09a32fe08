import Habitat.Run.Dispatch
import Habitat.Run.Edit
import Habitat.Run.Loop

/-!
# Running statements

`Exec.statementWith` is one layer: it runs a statement, given how to run the sequences inside.
`Exec.sequenceWith` ties the knot; its fuel bounds how deep sequences are nested at run time, calls
of actions included. Both leave open what native actions do; `Exec.statement` and `Exec.sequence`
are the ones that run.
-/
namespace Habitat.Exec

/-- Assigns a variable or an attribute of the executing agent; a name that is neither is an
error. -/
def assignName (name : String) (v : Value) : Exec Unit := do
  match (← scope).setVar name v with
  | some s => modifyScope fun _ => s
  | none =>
    let a ← currentAgent "set"
    if ((← machine).world.attribute? a name).isSome then
      modifyMachine fun m => { m with world := m.world.setAttribute a name v }
    else fail (.unknownVariable name)

/-- Assigns an attribute of an agent or an entry of a map. -/
def assignTo (target : Value) (name : String) (v : Value) : Exec Unit := do
  match target with
  | .agent a => modifyMachine fun m => { m with world := m.world.setAttribute a name v }
  | .map _ => change target (.put (.str name) v)
  | .nil => fail (.nilAgent ("set " ++ name))
  | other => fail (.notAnAgent ("set " ++ name) (← text other))

/-- Runs a body and contains its error: the error is kept, and either the rescue runs with its
message or the value that was completed last is the result. -/
def runAttempt (run : Sequence → Exec Value) (body : Sequence) (rescue : Option Sequence) :
    Exec Value := do
  recordValue .nil
  match ← attempt (withTry (withFrame "try" none (run body))) with
  | .ok v => return v
  | .error e =>
    modifyScope fun s => { s with currentError := some e }
    match rescue with
    | some rescue =>
      withFrame "catch" none do
        declare "error" (.str e.message)
        run rescue
    | none => return (← scope).lastValue

/-- Runs a statement, given what native actions do and how to run the sequences inside it. -/
def statementWith (handlers : Handlers) (fuel : Nat) (run : Sequence → Exec Value) :
    Statement → Exec Value
  | .declare name value => do
    let v ← evalOrNil value
    declare name v
    return v
  | .assign target name value => do
    let v ← eval value
    match target with
    | none => assignName name v
    | some e => assignTo (← eval e) name v
    return v
  | .branch condition yes no => do
    let holds := (← eval condition).truthy
    match if holds then some yes else no with
    | some body => withFrame "if" none (run body)
    | none => return .nil
  | .block body => withFrame "block" none (run body)
  | .loop var kind body => runLoop fuel run var kind body
  | .ask target parallel body => runAsk run target parallel body
  | .create f body => runCreate run f body
  | .capture target species returns body => do
    relocate run (← planCapture target species) returns body
  | .release target species host returns body => do
    relocate run (← planRelease target species host) returns body
  | .migrate source target returns body => do
    relocate run (← planMigrate source target) returns body
  | .call c => runCall handlers run c
  | .edit kind f _ => runEdit kind f
  | .attempt body rescue => runAttempt run body rescue
  | .leave => do
    setFlow .leave
    return .nil
  | .skip => do
    setFlow .skip
    return .nil
  | .yield value => do
    let v ← evalOrNil value
    setFlow .yield
    return v
  | .die => do
    let a ← currentAgent "die"
    modifyMachine fun m => { m with world := m.world.kill a }
    setFlow .die
    return .nil
  | .write message => do
    let v ← eval message
    let t ← text v
    let agent := (← scope).agent.map (·.name)
    modifyMachine (·.emit (.write agent t))
    return v
  | .warn message => do
    let v ← eval message
    warn (← text v)
    return v
  | .raise message => do fail (.raised (← text (← eval message)))

/-- A trace tells which statement is about to run. -/
def traceStatement (s : Statement) : Exec Unit := do
  if (← machine).config.trace then
    let name := (← scope).name
    modifyMachine (·.emit (.execute name s.keyword))

/-- Runs statements until one fails or the scope is interrupted. The value is the one of the last
statement that ran; it is held while the next one runs. -/
def steps (step : Statement → Exec Value) : Sequence → Value → Exec Value
  | [], last => return last
  | s :: rest, last => do
    if ← interrupted then return last
    traceStatement s
    let v ← withHeld [last] (step s)
    recordValue v
    steps step rest v

/-- Runs a sequence, given what native actions do. -/
def sequenceWith (handlers : Handlers) : Nat → Sequence → Exec Value
  | 0, _ => throw .outOfFuel
  | n + 1, body => steps (statementWith handlers n (sequenceWith handlers n)) body .nil

/-- Runs a statement, given how to run the sequences inside it. -/
def statement (fuel : Nat) (run : Sequence → Exec Value) (s : Statement) : Exec Value :=
  statementWith runNative fuel run s

/-- Runs a sequence. -/
def sequence (fuel : Nat) (body : Sequence) : Exec Value := sequenceWith runNative fuel body

end Habitat.Exec

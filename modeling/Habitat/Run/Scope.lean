import Habitat.Run.Flow
import Habitat.Value.Basic
import Habitat.Error

/-!
# Scopes

The state of one line of execution: a stack of frames with variables, a stack of executing agents,
the pending signal, and how many `try` blocks are open. Both stacks have their top at the head.
-/
namespace Habitat

/-- The variables of one construct. -/
structure Frame where
  owner : String
  vars : List (String × Value)
  /-- The caller of the innermost remote sequence or action around the construct. -/
  myself : Option AgentRef
  /-- The number of frames up to this one. -/
  level : Nat

namespace Frame

/-- Sets a variable, whether it is there or not. -/
def putVar (name : String) (v : Value) : List (String × Value) → List (String × Value)
  | [] => [(name, v)]
  | (k, w) :: rest => if k = name then (k, v) :: rest else (k, w) :: putVar name v rest

def declare (f : Frame) (name : String) (v : Value) : Frame :=
  { f with vars := putVar name v f.vars }

def get? (f : Frame) (name : String) : Option Value := f.vars.lookup name

end Frame

/-- How many frames were pushed and popped, and the greatest depth after a push. -/
structure ScopeStats where
  pushes : Nat
  pops : Nat
  maxDepth : Nat

/-- The state of one line of execution. -/
structure Scope where
  name : String
  frames : List Frame
  agents : List AgentRef
  flow : Flow
  tryDepth : Nat
  currentError : Option ExecError
  /-- The value of the statement that completed last. -/
  lastValue : Value
  stats : ScopeStats

namespace Scope

/-- A scope that executes on behalf of an agent. -/
def start (a : AgentRef) (name : String) : Scope :=
  ⟨name, [⟨name, [], none, 1⟩], [a], .normal, 0, none, .nil, ⟨0, 0, 0⟩⟩

/-- A private copy for a worker. It starts without a pending signal. -/
def fork (s : Scope) (name : String) : Scope :=
  { s with name := name, flow := .normal, currentError := none, lastValue := .nil, stats := ⟨0, 0, 0⟩ }

/-- The number of frames. -/
def depth (s : Scope) : Nat := (s.frames.head?.map (·.level)).getD 0

/-- The executing agent. -/
def agent (s : Scope) : Option AgentRef := s.agents.head?

def inTry (s : Scope) : Bool := 0 < s.tryDepth

/-! ## Variables -/

/-- Sets a variable of the innermost frame. -/
def declare (s : Scope) (name : String) (v : Value) : Scope :=
  match s.frames with
  | f :: rest => { s with frames := f.declare name v :: rest }
  | [] => s

/-- Declares variables one after another. -/
def declareAll (s : Scope) (vars : List (String × Value)) : Scope :=
  vars.foldl (fun s v => s.declare v.1 v.2) s

/-- The variable of a name in the innermost frame that has one. -/
def getVar (s : Scope) (name : String) : Option Value := s.frames.findSome? (·.get? name)

/-- Assigns in the innermost frame that has the variable. -/
def assignIn (name : String) (v : Value) : List Frame → Option (List Frame)
  | [] => none
  | f :: rest =>
    if (f.get? name).isSome then some (f.declare name v :: rest)
    else (assignIn name v rest).map (f :: ·)

/-- Assigns a visible variable, if there is one. -/
def setVar (s : Scope) (name : String) (v : Value) : Option Scope :=
  (assignIn name v s.frames).map fun frames => { s with frames := frames }

/-- The caller of the innermost remote sequence or action. -/
def myself (s : Scope) : Option AgentRef := s.frames.head?.bind (·.myself)

/-! ## Stacks -/

/-- Adds a frame. A remote sequence or an action brings a caller; any other construct has the
caller of what it stands in. -/
def push (s : Scope) (owner : String) (caller : Option AgentRef) : Scope :=
  { s with
    frames := ⟨owner, [], caller.or s.myself, s.depth + 1⟩ :: s.frames
    stats := ⟨s.stats.pushes + 1, s.stats.pops, max s.stats.maxDepth (s.depth + 1)⟩ }

/-- Drops the innermost frame; the first one stays. -/
def pop (s : Scope) : Scope :=
  match s.frames with
  | _ :: f :: rest =>
    { s with
      frames := f :: rest
      stats := ⟨s.stats.pushes, s.stats.pops + 1, s.stats.maxDepth⟩ }
  | _ => s

/-- Whether an agent is not the executing one. -/
def isNewAgent (s : Scope) (a : AgentRef) : Bool :=
  match s.agents with
  | b :: _ => b.id != a.id
  | [] => true

def pushAgent (s : Scope) (a : AgentRef) : Scope := { s with agents := a :: s.agents }

/-- Drops the executing agent, and its death with it. -/
def popAgent (s : Scope) : Scope := { s with agents := s.agents.tail, flow := s.flow.clear .die }

/-- What the scope holds on to. -/
def holdings (s : Scope) : List Value :=
  s.lastValue :: s.agents.map .agent ++
    s.frames.flatMap fun f => (f.myself.map Value.agent).toList ++ f.vars.map (·.2)

end Scope
end Habitat

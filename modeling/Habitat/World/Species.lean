import Habitat.Statement.Basic

/-!
# Species and their actions
-/
namespace Habitat

/-- An action that the program around a model carries out. -/
inductive Native where
  /-- Gives back its arguments as a list of pairs. -/
  | echo
  /-- Gives back the executing agent and its caller as a pair. -/
  | whoami
  /-- Leaves the action with the number of frames. -/
  | finish
  /-- Tears the simulation down. -/
  | dispose
  /-- Cancels the run. -/
  | cancel
  /-- Fails with a message. -/
  | fail (message : String)
  /-- Fails and tells the number of its arguments. -/
  | refuse

/-- The handler that can be registered under a name; names without a meaning refuse. -/
def Native.named : String → Native
  | "echo" => .echo
  | "whoami" => .whoami
  | "return" => .finish
  | "dispose" => .dispose
  | "cancel" => .cancel
  | "raise" => .fail "outer"
  | _ => .refuse

/-- What an action does. -/
inductive ActionBody where
  | statements (body : Sequence)
  | native (handler : Native)

/-- A named behaviour with arguments. -/
structure Action where
  name : String
  formals : List Formal
  body : ActionBody

def Action.hasFormal (a : Action) (name : String) : Bool := a.formals.any fun f => f.name == name

/-- The template of agents. -/
structure Species where
  name : String
  parent : Option String
  /-- The species whose populations agents of this species host. -/
  micro : List String
  isAbstract : Bool
  /-- The attributes it declares, with their defaults. -/
  attributes : List (String × Value)
  /-- The actions it declares. -/
  actions : List Action

namespace Species

def action? (s : Species) (name : String) : Option Action := s.actions.find? fun a => a.name == name

/-- Declares an action in place of one of the same name. -/
def putAction (a : Action) : List Action → List Action
  | [] => [a]
  | b :: rest => if b.name = a.name then a :: rest else b :: putAction a rest

def withAction (s : Species) (a : Action) : Species := { s with actions := putAction a s.actions }

end Species
end Habitat

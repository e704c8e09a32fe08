import Habitat.Value.Kind

/-!
# What can go wrong

One type for each place: changing a container, running a statement, building statements from
their descriptions. Constructors name the cause, `message` has the wording.
-/
namespace Habitat

/-- Why a container could not be changed. -/
inductive ContainerError where
  | indexOutOfBounds (index : Int) (length : Nat)
  | invalidIndex (index : String) (container : BaseType)
  | fixedLength (container : BaseType)
  | invalidValue (value : String) (container : BaseType)
  | invalidRange (start stop : Int)

def ContainerError.message : ContainerError → String
  | .indexOutOfBounds index length =>
    "index " ++ toString index ++ " out of bounds (length " ++ toString length ++ ")"
  | .invalidIndex index container =>
    index ++ " is not a valid index for a " ++ container.name
  | .fixedLength container => "cannot add or remove elements of a " ++ container.name
  | .invalidValue value container => value ++ " cannot be stored in a " ++ container.name
  | .invalidRange start stop => "invalid range " ++ toString start ++ ".." ++ toString stop

/-- Why a statement or an expression failed. -/
inductive ExecError where
  | nilAgent (statement : String)
  | notAnAgent (statement found : String)
  | noAgent (statement : String)
  | unknownVariable (name : String)
  | unknownAction (action species : String)
  | unknownSpecies (name : String)
  | noPopulation (species agent : String)
  | abstractSpecies (name : String)
  | unsupportedSource (source : String)
  | notAContainer (expression found : String)
  | invalidOperation (operation detail : String)
  | zeroStep
  | raised (message : String)
  | container (cause : ContainerError)
  | foreign (message : String)

def ExecError.message : ExecError → String
  | .nilAgent statement => statement ++ ": cannot execute on a nil agent"
  | .notAnAgent statement found => statement ++ ": " ++ found ++ " is not an agent"
  | .noAgent statement => "no agent is available to execute " ++ statement
  | .unknownVariable name => "unknown variable '" ++ name ++ "'"
  | .unknownAction action species => "impossible to find action " ++ action ++ " in " ++ species
  | .unknownSpecies name => "unknown species '" ++ name ++ "'"
  | .noPopulation species agent =>
    "no population of " ++ species ++ " is accessible in the context of " ++ agent
  | .abstractSpecies name => name ++ " is abstract and cannot be instantiated"
  | .unsupportedSource source => source ++ " cannot be used as a source of agents"
  | .notAContainer expression found =>
    "cannot use " ++ expression ++ ", of type " ++ found ++ ", as a container"
  | .invalidOperation operation detail => "invalid operands for " ++ operation ++ ": " ++ detail
  | .zeroStep => "the step of a loop cannot be zero"
  | .raised message => message
  | .container cause => "container error: " ++ cause.message
  | .foreign message => message

/-- Why statements could not be built. -/
inductive BuildError where
  | incomplete (statement detail : String)
  | conflictingFacets (statement first second : String)
  | fixedLengthContainer (container : String)
  | unknownAction (action species : String)
  | unknownArgument (action argument : String)
  | unknownSpecies (name : String)

def BuildError.message : BuildError → String
  | .incomplete statement detail => statement ++ ": " ++ detail
  | .conflictingFacets statement first second =>
    statement ++ ": '" ++ first ++ "' and '" ++ second ++ "' are not compatible"
  | .fixedLengthContainer container => "impossible to add/remove to/from " ++ container
  | .unknownAction action species => "action " ++ action ++ " does not exist in " ++ species
  | .unknownArgument action argument =>
    "action " ++ action ++ " has no argument named " ++ argument
  | .unknownSpecies name => "unknown species '" ++ name ++ "'"

end Habitat

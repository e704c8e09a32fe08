/-!
# Control flow

`break`, `continue`, `return`, death and disposal are no errors. They are pending signals, and the
construct that owns a signal clears it: loops own the first two, actions the third, and a change
of the executing agent the fourth.
-/
namespace Habitat

/-- The signal that is pending in a scope. -/
inductive Flow where
  | normal | leave | skip | yield | die | dispose
  deriving DecidableEq

namespace Flow

/-- All signals, in the order in which they are listed. -/
def all : List Flow := [.normal, .leave, .skip, .yield, .die, .dispose]

def name : Flow → String
  | .normal => "normal"
  | .leave => "break"
  | .skip => "continue"
  | .yield => "return"
  | .die => "die"
  | .dispose => "dispose"

/-- Whether the rest of a sequence is skipped. -/
def isInterrupting (f : Flow) : Bool := f != .normal

/-- Whether a loop ends. -/
def terminatesLoop : Flow → Bool
  | .leave | .yield | .die | .dispose => true
  | _ => false

/-- The signal after its owner has cleared it. -/
def clear (f owned : Flow) : Flow := if f = owned then .normal else f

@[simp] theorem clear_self (f : Flow) : f.clear f = .normal := by simp [clear]

theorem clear_ne_owned (f owned : Flow) (h : owned ≠ .normal) : f.clear owned ≠ owned := by
  unfold clear
  split
  · exact h.symm
  · assumption

end Flow
end Habitat

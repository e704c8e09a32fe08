import Habitat.Command

/-!
# The program

Reads the files that the arguments name, carries the command out, and prints.
-/
namespace Habitat.Command

/-- The text of a file, if it can be read. -/
def readFile (name : String) : IO (Option String) := do
  try
    return some (← IO.FS.readFile name)
  catch _ => return none

/-- The files that the arguments name. -/
def readFiles (args : List String) : IO (List (String × String)) := do
  match readArgs args ⟨none, none, none, none⟩ with
  | .error _ => return []
  | .ok o =>
    let names := o.model.toList ++ o.config.toList
    let files ← names.mapM fun name => return (← readFile name).map (name, ·)
    return files.filterMap id

end Habitat.Command

open Habitat Command in
/-- The entry point. -/
def main (args : List String) : IO UInt32 := do
  let files ← readFiles args
  let program := ((← IO.appPath).fileName).getD "habitat"
  match execute program (fun name => files.lookup name) args with
  | .ok out =>
    for message in out.reports do IO.eprintln message
    for message in out.messages do IO.println message
    return 0
  | .error e =>
    for message in e.messages do IO.eprintln message
    return UInt32.ofNat e.code

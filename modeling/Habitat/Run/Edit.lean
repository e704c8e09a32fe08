import Habitat.Run.Exec

/-!
# The statements that change a container

The container is computed first, then the index, then the item. Index and item are cast to the
types that the container declares, with a warning unless an integer becomes a float.
-/
namespace Habitat.Exec

/-- The item of a statement once it is computed. -/
inductive Payload where
  | missing
  | one (v : Value)
  | many (vs : List Value)

/-- Casts a value to a declared type where that is possible. -/
def coerce (what : String) (target : BaseType) (v : Value) : Exec Value := do
  if target = .any ∨ v.isNil ∨ v.type = target then return v
  let s ← get
  let text := what ++ " " ++ s.machine.store.text v ++ " (" ++ v.type.name ++ ")"
  match Store.cast s.machine.world.speciesOf s.machine.store target v with
  | some (w, store) =>
    modifyStore fun _ => store
    if v.type = .int ∧ target = .float then return w
    warn (text ++ " has been casted to " ++ target.name)
    return w
  | none =>
    warn (text ++ " cannot be casted to " ++ target.name)
    return v

/-- Casts an index. Matrices and graphs take any index, and lists also pairs and, for several
elements, containers. -/
def castIndex (all : Bool) (container index : Value) : Exec Value := do
  match container, index with
  | .matrix _, _ | .graph _, _ | .list _, .pair .. => return index
  | .list _, _ =>
    if all && index.isContainer then return index
    else coerce "index" .int index
  | _, _ => coerce "index" ((← machine).store.keyType container) index

/-- Casts an item; graphs take any item. -/
def castItem (container item : Value) : Exec Value := do
  match container with
  | .graph _ => return item
  | _ => coerce "value" ((← machine).store.contentType container) item

/-- Casts items one after another. -/
def castItems (container : Value) : List Value → Exec (List Value)
  | [] => return []
  | v :: rest => do
    let v ← castItem container v
    let vs ← castItems container rest
    return v :: vs

/-- The item of a statement: with `all`, a container stands for its elements. -/
def payload (kind : EditKind) (all : Bool) (container : Value) : Option Value → Exec Payload
  | none => return .missing
  | some v => do
    if all && kind != .put && v.isContainer then
      return .many (← castItems container ((← machine).store.elements v))
    else return .one (← castItem container v)

/-- Changes the container that a value refers to. -/
def change (container : Value) (request : Edit) : Exec Unit := do
  match ← onStore (·.edit container request) with
  | .ok _ => return ()
  | .error e => fail (.container e)

def applyAdd (container : Value) (item : Payload) (index : Option Value) : Exec Unit :=
  match item, index with
  | .many vs, i => change container (.addAll i vs)
  | .one v, some i => change container (.insert i v)
  | .one v, none => change container (.add v)
  | .missing, _ => return ()

def applyRemove (all : Bool) (container : Value) (item : Payload) (index : Option Value) :
    Exec Unit := do
  match index with
  | some i =>
    if all && i.isContainer then change container (.removeAllAt ((← machine).store.elements i))
    else change container (.removeAt i)
  | none =>
    match item with
    | .many vs => change container (.removeAll vs)
    | .one v => change container (if all then .removeEvery v else .remove v)
    | .missing => if all then change container .clear else return ()

/-- The bounds of a part of a list, if a pair of numbers asks for one. -/
def rangeOf? (container index : Value) : Option (Nat × Int64 × Int64) :=
  match container, index with
  | .list r, .pair a b => do return (r, ← a.asInt, ← b.asInt)
  | _, _ => none

/-- Replaces a part of a list. -/
def replaceRange (r : Nat) (start stop : Int64) (v : Value) : Exec Unit := do
  let s := (← machine).store
  match (s.lists.get r).replaceRange s start stop v with
  | .ok c => modifyStore fun s => { s with lists := s.lists.set r c }
  | .error e => fail (.container e)

def applyPut (all : Bool) (container : Value) (item : Payload) (index : Option Value) :
    Exec Unit := do
  let v ← match item with
    | .one v => pure v
    | .many vs => allocate (·.newList .any vs)
    | .missing => pure .nil
  if all then change container (.fill v)
  else
    let index := index.getD .nil
    match rangeOf? container index with
    | some (r, start, stop) => replaceRange r start stop v
    | none => change container (.put index v)

/-- Replaces a graph. -/
def changeGraph (r : Nat) (g : GraphCell) : Exec Unit :=
  modifyStore fun s => { s with graphs := s.graphs.set r g }

/-- Adds a vertex or a weighted edge to a graph, if the statement says that the item is one. -/
def addToGraph (kind : EditKind) (f : EditFacets) (container : Value) (item : Option Value) :
    Exec Bool := do
  match kind, f.role, container, item with
  | .add, .node, .graph r, some v =>
    let s := (← machine).store
    changeGraph r ((s.graphs.get r).addVertex s.eq v)
    return true
  | .add, .edge, .graph _, some e =>
    let w ← evalOrNil f.weight
    change container (.insert e w)
    return true
  | _, _, _, _ => return false

/-- Runs a statement that changes a container, and gives the container back. -/
def runEdit (kind : EditKind) (f : EditFacets) : Exec Value := do
  let container ← eval f.container
  if !container.isContainer then
    fail (.notAContainer f.container.text container.type.name)
  let index ← match f.index with
    | some e => pure (some (← castIndex f.all container (← eval e)))
    | none => pure none
  let item ← evalOption f.item
  if ← addToGraph kind f container item then return container
  let item ← payload kind f.all container item
  match kind with
  | .add => applyAdd container item index
  | .remove => applyRemove f.all container item index
  | .put => applyPut f.all container item index
  return container

end Habitat.Exec

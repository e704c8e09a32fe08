import Habitat.Container.Edit

/-!
# Editing maps

Every value is a key. A key that is put again keeps its place. Values can be removed by their key
or by the value, and removing what is not there is no failure.
-/
namespace Habitat.MapCell

/-- The value of a key. -/
def get? (eq : Value → Value → Bool) (m : MapCell) (k : Value) : Option Value :=
  (m.entries.find? fun e => eq e.1 k).map (·.2)

/-- Replaces the value of a key, or appends an entry. -/
def putEntry (eq : Value → Value → Bool) (k v : Value) : List (Value × Value) → List (Value × Value)
  | [] => [(k, v)]
  | e :: rest => if eq e.1 k then (e.1, v) :: rest else e :: putEntry eq k v rest

def put (eq : Value → Value → Bool) (m : MapCell) (k v : Value) : MapCell :=
  { m with entries := putEntry eq k v m.entries }

/-- A map of entries that are put one after another. -/
def ofEntries (eq : Value → Value → Bool) (key content : BaseType) (es : List (Value × Value)) :
    MapCell :=
  es.foldl (fun m e => m.put eq e.1 e.2) ⟨key, content, []⟩

def keys (m : MapCell) : List Value := m.entries.map (·.1)

/-- Adds a value: a pair is an entry, any other value is its own key. -/
def add (eq : Value → Value → Bool) (m : MapCell) : Value → MapCell
  | .pair k v => m.put eq k v
  | v => m.put eq v v

/-- The map with every value replaced. -/
def fill (m : MapCell) (v : Value) : MapCell :=
  { m with entries := m.entries.map fun e => (e.1, v) }

/-- Removes the first entry with a value. -/
def removeFirst (eq : Value → Value → Bool) (v : Value) :
    List (Value × Value) → Option (List (Value × Value))
  | [] => none
  | e :: rest => if eq e.2 v then some rest else (removeFirst eq v rest).map (e :: ·)

/-- The entries with other values. -/
def without (s : Store) (m : MapCell) (v : Value) : MapCell :=
  { m with entries := m.entries.filter fun e => !s.eq e.2 v }

/-- The entries with other keys. -/
def withoutKey (s : Store) (m : MapCell) (k : Value) : MapCell :=
  { m with entries := m.entries.filter fun e => !s.eq e.1 k }

/-- Answers a request. -/
def edit (s : Store) (request : Edit) : Editing MapCell EditReply := do
  let m ← get
  match request with
  | .add v => set (m.add s.eq v); return .done
  | .insert k v | .put k v => set (m.put s.eq k v); return .done
  | .addAll none vs => set (vs.foldl (fun m v => m.add s.eq v) m); return .done
  | .addAll (some k) vs => set (vs.foldl (fun m v => m.put s.eq k v) m); return .done
  | .fill v => set (m.fill v); return .done
  | .remove v =>
    match removeFirst s.eq v m.entries with
    | some entries => set { m with entries := entries }; return .found true
    | none => return .found false
  | .removeEvery v =>
    let rest := m.without s v
    set rest
    return .removed (m.entries.length - rest.entries.length)
  | .removeAll vs => set (vs.foldl (fun m v => m.without s v) m); return .done
  | .removeAt k => set (m.withoutKey s k); return .done
  | .removeAllAt ks => set (ks.foldl (fun m k => m.withoutKey s k) m); return .done
  | .clear => set { m with entries := [] }; return .done

end Habitat.MapCell

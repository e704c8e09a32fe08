import Habitat.Value.Basic

/-!
# Records

Values by name, in the order of the names. Putting a name again replaces its value.
-/
namespace Habitat

/-- Values by name; the names ascend. -/
structure Record where
  fields : List (String × Value)

namespace Record

def empty : Record := ⟨[]⟩

instance : Inhabited Record := ⟨empty⟩

/-- The value of a name. -/
def get? (r : Record) (name : String) : Option Value := r.fields.lookup name

def contains (r : Record) (name : String) : Bool := (r.get? name).isSome

/-- Puts a field where its name belongs. -/
def insertField (name : String) (value : Value) : List (String × Value) → List (String × Value)
  | [] => [(name, value)]
  | (k, v) :: rest =>
    if name < k then (name, value) :: (k, v) :: rest
    else if name = k then (name, value) :: rest
    else (k, v) :: insertField name value rest

def insert (r : Record) (name : String) (value : Value) : Record :=
  ⟨insertField name value r.fields⟩

/-- Puts fields one after another, so that the last value of a name counts. -/
def extend (r : Record) (fields : List (String × Value)) : Record :=
  fields.foldl (fun r f => r.insert f.1 f.2) r

def ofList (fields : List (String × Value)) : Record := empty.extend fields

end Record
end Habitat

import Habitat.Proofs.Store.Footprint
import Habitat.Proofs.Store.Separation

/-!
# What changing containers reads

A change compares what is in a container with the values of the request, writes values down where
it complains about them, and takes the elements of what is put in place of a part of a list.
`Store.Mutation.reads` lists the containers that it looks into for that, the changed one included.

In a store that mirrors another one the same change gets the same answer, and makes the same of
the container: `Store.Mirrors.edit`, `Store.Mirrors.mutate_cell`.
-/
namespace Habitat

/-- Something is done for each element in turn, from what the earlier ones led to. -/
def foldReads {α β : Type} (f : β → α → β) (reads : β → α → List Access) :
    β → List α → List Access
  | _, [] => []
  | b, a :: rest => reads b a ++ foldReads f reads (f b a) rest

/-- Something is done for each element in turn, up to the first failure. -/
def eachReads {α β : Type} (change : β → Editing α Unit) (reads : α → β → List Access) :
    α → List β → List Access
  | _, [] => []
  | a, b :: rest => reads a b ++
    match change b a with
    | .ok _ a => eachReads change reads a rest
    | .error _ _ => []

/-! ## Reads of changes -/

namespace ListCell
variable (s : Store) (l : ListCell)

/-- An index that is no number is written down. -/
def indexReads : Value → List Access
  | .int _ | .float _ => []
  | v => s.textReads v

/-- Comparing all items with a value. -/
def compareReads (v : Value) : List Access := l.items.toList.flatMap (s.eqReads · v)

def editReads : Edit → List Access
  | .insert i _ | .addAll (some i) _ | .put i _ | .removeAt i => indexReads s i
  | .remove v => searchReads (s.eq · v) (s.eqReads · v) l.items.toList
  | .removeEvery v => l.compareReads s v
  | .removeAll vs => foldReads (fun l v => l.without s v) (compareReads s) l vs
  | .removeAllAt is => searchReads (fun i => !(l.position s i false).isOk) (indexReads s) is
  | .add _ | .addAll none _ | .fill _ | .clear => []

end ListCell

namespace MatrixCell
variable (s : Store)

/-- An index that is no point is looked into, and written down if it does not name a cell. -/
def indexReads (v : Value) : List Access :=
  v.look ++
    match coordinates s v with
    | .ok _ => []
    | .error _ => s.textReads v

def editReads : Edit → List Access
  | .put i _ => indexReads s i
  | _ => []

end MatrixCell

namespace MapCell
variable (s : Store) (m : MapCell)

/-- Looking for a key. -/
def keyReads (k : Value) : List Access :=
  searchReads (fun e => s.eq e.1 k) (fun e => s.eqReads e.1 k) m.entries

def addReads : Value → List Access
  | .pair k _ => m.keyReads s k
  | v => m.keyReads s v

/-- Comparing all values with a value. -/
def compareReads (v : Value) : List Access := m.entries.flatMap fun e => s.eqReads e.2 v

/-- Comparing all keys with a value. -/
def compareKeyReads (k : Value) : List Access := m.entries.flatMap fun e => s.eqReads e.1 k

def editReads : Edit → List Access
  | .add v => m.addReads s v
  | .insert k _ | .put k _ => m.keyReads s k
  | .addAll none vs => foldReads (fun m v => m.add s.eq v) (addReads s) m vs
  | .addAll (some k) vs => foldReads (fun m v => m.put s.eq k v) (fun m _ => m.keyReads s k) m vs
  | .remove v => searchReads (fun e => s.eq e.2 v) (fun e => s.eqReads e.2 v) m.entries
  | .removeEvery v => m.compareReads s v
  | .removeAll vs => foldReads (fun m v => m.without s v) (compareReads s) m vs
  | .removeAt k => m.compareKeyReads s k
  | .removeAllAt ks => foldReads (fun m k => m.withoutKey s k) (compareKeyReads s) m ks
  | .fill _ | .clear => []

/-- Making a map of entries. -/
def entryReads (key content : BaseType) (es : List (Value × Value)) : List Access :=
  foldReads (fun (m : MapCell) e => m.put s.eq e.1 e.2) (fun m e => m.keyReads s e.1)
    ⟨key, content, []⟩ es

end MapCell

namespace GraphCell
variable (s : Store) (g : GraphCell)

/-- Looking for a vertex. -/
def vertexReads (v : Value) : List Access := searchReads (s.eq · v) (s.eqReads · v) g.vertices

/-- Adding an edge and its endpoints. -/
def edgeReads (a b : Value) : List Access :=
  g.vertexReads s a ++ (g.addVertex s.eq a).vertexReads s b ++
    searchReads (joins s.eq a b) (s.joinReads a b) g.edges

def addReads : Value → List Access
  | .pair a b => g.edgeReads s a b
  | v => g.vertexReads s v

/-- Asking which vertices and edges are left. -/
def removeReads : Value → List Access
  | .pair a b => g.edges.flatMap (s.joinReads a b)
  | v => g.vertices.flatMap (s.eqReads · v) ++ g.edges.flatMap fun e =>
    s.eqReads e.source v ++ if s.eq e.source v then [] else s.eqReads e.target v

/-- A weight that is no number is written down. -/
def weightReads (v : Value) : List Access := if (weightOf s v).isOk then [] else s.textReads v

def putAtReads (index value : Value) : List Access :=
  match index with
  | .pair a b => weightReads s value ++ if (weightOf s value).isOk then g.edgeReads s a b else []
  | v => s.textReads v

def removeAtReads (index : Value) : List Access :=
  match index with
  | .pair .. => g.removeReads s index
  | v => s.textReads v

def editReads : Edit → List Access
  | .add v => g.addReads s v
  | .insert i v | .put i v => g.putAtReads s i v
  | .addAll none vs => foldReads (fun g v => g.add s.eq v) (addReads s) g vs
  | .addAll (some i) vs => eachReads (putAt s i) (fun g v => g.putAtReads s i v) g vs
  | .fill v => weightReads s v
  | .remove v | .removeEvery v => g.removeReads s v
  | .removeAll vs => foldReads (fun g v => (g.remove s.eq v).1) (removeReads s) g vs
  | .removeAt i => g.removeAtReads s i
  | .removeAllAt is => eachReads (removeAt s) (removeAtReads s) g is
  | .clear => []

end GraphCell

/-- What a request compares and writes down. -/
def Object.editReads (s : Store) (request : Edit) : Object → List Access
  | .list l => l.editReads s request
  | .map m => m.editReads s request
  | .matrix _ => MatrixCell.editReads s request
  | .graph g => g.editReads s request
  | .agent _ => []

/-- What a change reads of the containers. -/
def Mutation.reads (s : Store) : Mutation → List Access
  | .request c e => c.look ++ c.container?.toList.flatMap fun r => (s.cell r).editReads s e
  | .range i _ _ v => (Value.list i).look ++ if v.type = .list then v.look else []
  | .vertex i v => (Value.graph i).look ++ (s.graphs.get i).vertexReads s v

/-! ## Other numbers -/

namespace Edit

def renumber (ρ : Renumbering) : Edit → Edit
  | .add v => .add (v.renumber ρ)
  | .insert i v => .insert (i.renumber ρ) (v.renumber ρ)
  | .addAll i vs => .addAll (i.map (·.renumber ρ)) (vs.map (·.renumber ρ))
  | .put i v => .put (i.renumber ρ) (v.renumber ρ)
  | .fill v => .fill (v.renumber ρ)
  | .remove v => .remove (v.renumber ρ)
  | .removeEvery v => .removeEvery (v.renumber ρ)
  | .removeAll vs => .removeAll (vs.map (·.renumber ρ))
  | .removeAt i => .removeAt (i.renumber ρ)
  | .removeAllAt is => .removeAllAt (is.map (·.renumber ρ))
  | .clear => .clear

end Edit

def Mutation.renumber (ρ : Renumbering) : Mutation → Mutation
  | .request c e => .request (c.renumber ρ) (e.renumber ρ)
  | .range i start stop v => .range (ρ .list i) start stop (v.renumber ρ)
  | .vertex i v => .vertex (ρ .graph i) (v.renumber ρ)

/-- What a request that is carried out as a whole or not at all comes to. -/
def Change.outcome {α : Type} (r : Except ContainerError (Change α)) (a : α) :
    Except ContainerError EditReply × α :=
  match r with
  | .ok change => (.ok change.reply, change.apply a)
  | .error e => (.error e, a)

/-- Sends a request to a container. -/
def Object.edit (s : Store) (request : Edit) : Object → Except ContainerError EditReply × Object
  | .list l => (Change.outcome (l.edit s request) l).map id .list
  | .map m => ((MapCell.edit s request).on m).map id .map
  | .matrix m => (Change.outcome (m.edit s request) m).map id .matrix
  | .graph g => ((GraphCell.edit s request).on g).map id .graph
  | .agent x => (.ok .done, .agent x)

section
variable {P : Access → Prop} {ρ : Renumbering}

theorem foldl_renumber {α α' β β' : Type} {f : β → α → β} {e : β' → α' → β'} {k : α → α'}
    {g : β → β'} {reads : β → α → List Access}
    (h : ∀ b a, (∀ x ∈ reads b a, P x) → e (g b) (k a) = g (f b a)) {b : β} {as : List α}
    (hP : ∀ x ∈ foldReads f reads b as, P x) :
    (as.map k).foldl e (g b) = g (as.foldl f b) := by
  induction as generalizing b with
  | nil => rfl
  | cons a rest ih =>
    rw [foldReads, List.forall_mem_append] at hP
    rw [List.map_cons, List.foldl_cons, List.foldl_cons, h b a hP.1, ih hP.2]

theorem filter_renumber {α β : Type} {f : α → β} {p : α → Bool} {q : β → Bool}
    {reads : α → List Access} (h : ∀ a, (∀ x ∈ reads a, P x) → q (f a) = p a) {as : List α}
    (hP : ∀ x ∈ as.flatMap reads, P x) : (as.map f).filter q = (as.filter p).map f := by
  rw [List.filter_map]
  congr 1
  exact List.filter_congr fun a ha => h a fun x hx => hP x (List.mem_flatMap.mpr ⟨a, ha, hx⟩)

theorem findIdx?_renumber {α β : Type} {f : α → β} {p : α → Bool} {q : β → Bool}
    {reads : α → List Access} (h : ∀ a, (∀ x ∈ reads a, P x) → q (f a) = p a)
    {as : List α} (hP : ∀ x ∈ searchReads p reads as, P x) :
    (as.map f).findIdx? q = as.findIdx? p := by
  induction as with
  | nil => rfl
  | cons a rest ih =>
    rw [searchReads, List.forall_mem_append] at hP
    rw [List.map_cons, List.findIdx?_cons, List.findIdx?_cons, h a hP.1]
    cases hp : p a with
    | true => rfl
    | false =>
      rw [hp, if_neg Bool.false_ne_true] at hP
      rw [ih hP.2]

theorem map_append_list (f : Value → Value) (xs : Array Value) (vs : List Value) :
    (xs ++ vs).map f = xs.map f ++ vs.map f := by
  apply Array.ext'
  simp

variable {c d : Store} (h : Store.Mirrors P ρ c d)
include h

/-! ## Lists -/

namespace ListCell
variable {l : ListCell}

theorem position_renumber {i : Value} (hP : ∀ x ∈ indexReads c i, P x) (l : ListCell)
    (atEnd : Bool) : (l.renumber ρ).position d (i.renumber ρ) atEnd = l.position c i atEnd := by
  have hraw : rawIndex d (i.renumber ρ) = rawIndex c i := by
    cases i with
    | int n | float x => rfl
    | _ => exact congrArg (fun t => Except.error (ContainerError.invalidIndex t .list)) (h.text hP)
  simp only [position, hraw, renumber, Array.size_map]

omit h in
@[simp] theorem size_renumber (l : ListCell) : (l.renumber ρ).items.size = l.items.size :=
  Array.size_map

theorem without_renumber (v : Value) (hP : ∀ x ∈ l.compareReads c v, P x) :
    (l.renumber ρ).without d (v.renumber ρ) = (l.without c v).renumber ρ := by
  have hfilter := filter_renumber (f := Value.renumber ρ) (p := fun x => !c.eq x v)
    (q := fun x => !d.eq x (v.renumber ρ)) (fun x hx => by rw [h.eq hx]) hP
  simp only [without, renumber, mk.injEq, true_and]
  apply Array.ext'
  simpa using hfilter

omit h in
theorem eraseAll_renumber (ps : List Nat) (l : ListCell) :
    (l.renumber ρ).eraseAll ps = (l.eraseAll ps).renumber ρ := by
  have hfold (items : Array Value) :
      ps.foldl Array.eraseIdxIfInBounds (items.map (·.renumber ρ)) =
        (ps.foldl Array.eraseIdxIfInBounds items).map (·.renumber ρ) := by
    induction ps generalizing items with
    | nil => rfl
    | cons p rest ih =>
      have herase : (items.map (·.renumber ρ)).eraseIdxIfInBounds p =
          (items.eraseIdxIfInBounds p).map (·.renumber ρ) := by
        apply Array.ext'
        simp [List.eraseIdx_map]
      rw [List.foldl_cons, herase, ih, List.foldl_cons]
  simp only [eraseAll, renumber, hfold]

theorem positions_renumber {is : List Value}
    (hP : ∀ x ∈ searchReads (fun i => !(l.position c i false).isOk) (indexReads c) is, P x) :
    (is.map (·.renumber ρ)).mapM (fun i => (l.renumber ρ).position d i false) =
      is.mapM fun i => l.position c i false := by
  induction is with
  | nil => rfl
  | cons i rest ih =>
    rw [searchReads, List.forall_mem_append] at hP
    rw [List.map_cons, List.mapM_cons, List.mapM_cons, position_renumber h hP.1]
    cases hposition : l.position c i false with
    | error e => rfl
    | ok p =>
      rw [hposition] at hP
      rw [ih hP.2]

/-- A request makes the same of a list. -/
theorem edit_renumber {request : Edit} (hP : ∀ x ∈ l.editReads c request, P x) :
    Change.outcome ((l.renumber ρ).edit d (request.renumber ρ)) (l.renumber ρ) =
      (Change.outcome (l.edit c request) l).map id (renumber ρ) := by
  have hat {i : Value} (hi : ∀ x ∈ indexReads c i, P x) {atEnd : Bool}
      {change change' : Nat → Change ListCell}
      (hchange : ∀ p, (change' p).reply = (change p).reply ∧
        (change' p).apply (l.renumber ρ) = ((change p).apply l).renumber ρ) :
      Change.outcome (((l.renumber ρ).position d (i.renumber ρ) atEnd).map change')
          (l.renumber ρ) =
        (Change.outcome ((l.position c i atEnd).map change) l).map id (renumber ρ) := by
    rw [position_renumber h hi]
    cases l.position c i atEnd with
    | error e => rfl
    | ok p => exact Prod.ext (congrArg Except.ok (hchange p).1) (hchange p).2
  cases request with
  | add v => simp [edit, Edit.renumber, Change.outcome, push, renumber]
  | insert i v => exact hat hP fun p => by simp [insertAt, renumber]
  | addAll i vs =>
    cases i with
    | none => simp [edit, Edit.renumber, Change.outcome, renumber, map_append_list]
    | some i => exact hat hP fun p => by simp [insertAt, renumber, map_append_list]
  | put i v => exact hat hP fun p => by simp [put, renumber]
  | fill v => simp [edit, Edit.renumber, Change.outcome, renumber, Function.comp_def]
  | remove v =>
    have hfind := findIdx?_renumber (f := Value.renumber ρ) (q := (d.eq · (v.renumber ρ)))
      (fun _ => h.eq) hP
    rw [← List.findIdx?_toArray, ← List.findIdx?_toArray, ← List.map_toArray,
      Array.toArray_toList] at hfind
    simp only [edit, Edit.renumber, renumber, hfind]
    cases l.items.findIdx? fun x => c.eq x v with
    | none => rfl
    | some p => exact Prod.ext rfl (eraseAll_renumber [p] l)
  | removeEvery v =>
    simp only [edit, Edit.renumber, Change.outcome, without_renumber h v hP, Prod.map, id,
      size_renumber]
  | removeAll vs =>
    have hrest := foldl_renumber (e := fun (l : ListCell) v => l.without d v) (g := renumber ρ)
      (fun l v => without_renumber h v (l := l)) hP
    simp only [edit, Edit.renumber, Change.outcome, hrest]
    rfl
  | removeAt i => exact hat hP fun p => ⟨rfl, eraseAll_renumber [p] l⟩
  | removeAllAt is =>
    simp only [edit, Edit.renumber, positions_renumber h hP]
    cases is.mapM fun i => l.position c i false with
    | error e => rfl
    | ok ps => exact Prod.ext rfl (eraseAll_renumber _ l)
  | clear => simp [edit, Edit.renumber, Change.outcome, renumber]

end ListCell

/-! ## Matrices -/

namespace MatrixCell

/-- The integers of two numbers. -/
def ints? : List Value → Option (Int64 × Int64)
  | [x, y] => do return (← x.asInt, ← y.asInt)
  | _ => none

omit h in
theorem coordinates_eq (s : Store) (v : Value) : coordinates s v =
    match ints? (s.elements v) with
    | some xy => .ok xy
    | none => .error (.invalidIndex (s.text v) .matrix) := by
  cases v with
  | point x y => rfl
  | _ =>
    unfold coordinates
    dsimp only
    split
    case h_1 x y hxy =>
      rw [hxy, ints?]
      cases x.asInt <;> cases y.asInt <;> rfl
    case h_2 hno =>
      rw [ints?]
      exact hno

omit h in
theorem ints?_renumber (vs : List Value) : ints? (vs.map (·.renumber ρ)) = ints? vs := by
  rcases vs with _ | ⟨x, _ | ⟨y, _ | ⟨z, rest⟩⟩⟩ <;> simp [ints?]

theorem coordinates_renumber {v : Value} (hP : ∀ x ∈ indexReads c v, P x) :
    coordinates d (v.renumber ρ) = coordinates c v := by
  rw [indexReads, List.forall_mem_append, coordinates_eq] at hP
  rw [coordinates_eq, coordinates_eq, h.elements hP.1, ints?_renumber]
  cases hints : ints? (c.elements v) with
  | some xy => rfl
  | none =>
    rw [hints] at hP
    rw [h.text hP.2]

theorem offset_renumber {i : Value} (hP : ∀ x ∈ indexReads c i, P x) (m : MatrixCell) :
    (m.renumber ρ).offset d (i.renumber ρ) = m.offset c i := by
  have hcoordinates := coordinates_renumber h hP
  cases i with
  | int n => simp [offset, Value.renumber, renumber]
  | _ =>
    simp only [Value.renumber] at hcoordinates
    simp only [offset, Value.renumber, hcoordinates]
    rfl

/-- A request makes the same of a matrix. -/
theorem edit_renumber {m : MatrixCell} {request : Edit} (hP : ∀ x ∈ editReads c request, P x) :
    Change.outcome ((m.renumber ρ).edit d (request.renumber ρ)) (m.renumber ρ) =
      (Change.outcome (m.edit c request) m).map id (renumber ρ) := by
  cases request with
  | put i v =>
    simp only [edit, Edit.renumber, offset_renumber h hP]
    cases m.offset c i with
    | error e => rfl
    | ok p =>
      have hput : (m.renumber ρ).put p (v.renumber ρ) = (m.put p v).renumber ρ := by
        simp [put, renumber]
      exact Prod.ext rfl hput
  | fill v => simp [edit, Edit.renumber, Change.outcome, renumber, Function.comp_def]
  | addAll i vs => cases vs <;> rfl
  | removeAll vs => cases vs <;> rfl
  | removeAllAt is => cases is <;> rfl
  | _ => rfl

end MatrixCell

/-! ## Maps -/

namespace MapCell
variable {m : MapCell}

theorem put_renumber {k : Value} (v : Value) (hP : ∀ x ∈ m.keyReads c k, P x) :
    (m.renumber ρ).put d.eq (k.renumber ρ) (v.renumber ρ) = (m.put c.eq k v).renumber ρ := by
  obtain ⟨key, content, entries⟩ := m
  have hput : putEntry d.eq (k.renumber ρ) (v.renumber ρ)
        (entries.map fun e => (e.1.renumber ρ, e.2.renumber ρ)) =
      (putEntry c.eq k v entries).map fun e => (e.1.renumber ρ, e.2.renumber ρ) := by
    induction entries with
    | nil => rfl
    | cons e rest ih =>
      rw [keyReads, searchReads, List.forall_mem_append] at hP
      rw [List.map_cons, putEntry, putEntry, h.eq hP.1]
      cases hfound : c.eq e.1 k with
      | true => rfl
      | false =>
        rw [hfound, if_neg Bool.false_ne_true] at hP
        simp only [Bool.false_eq_true, if_false, List.map_cons, ih hP.2]
  simp only [put, renumber, hput]

theorem add_renumber (m : MapCell) (v : Value) (hP : ∀ x ∈ m.addReads c v, P x) :
    (m.renumber ρ).add d.eq (v.renumber ρ) = (m.add c.eq v).renumber ρ := by
  cases v with
  | pair k v => exact put_renumber h v hP
  | _ => exact put_renumber h _ hP

theorem without_renumber (m : MapCell) (v : Value) (hP : ∀ x ∈ m.compareReads c v, P x) :
    (m.renumber ρ).without d (v.renumber ρ) = (m.without c v).renumber ρ := by
  have hfilter := filter_renumber (p := fun e : Value × Value => !c.eq e.2 v)
    (f := fun e : Value × Value => (e.1.renumber ρ, e.2.renumber ρ))
    (q := fun e => !d.eq e.2 (v.renumber ρ)) (fun e he => by rw [h.eq he]) hP
  simp only [without, renumber, hfilter]

theorem withoutKey_renumber (m : MapCell) (k : Value) (hP : ∀ x ∈ m.compareKeyReads c k, P x) :
    (m.renumber ρ).withoutKey d (k.renumber ρ) = (m.withoutKey c k).renumber ρ := by
  have hfilter := filter_renumber (p := fun e : Value × Value => !c.eq e.1 k)
    (f := fun e : Value × Value => (e.1.renumber ρ, e.2.renumber ρ))
    (q := fun e => !d.eq e.1 (k.renumber ρ)) (fun e he => by rw [h.eq he]) hP
  simp only [withoutKey, renumber, hfilter]

theorem removeFirst_renumber {v : Value} {es : List (Value × Value)}
    (hP : ∀ x ∈ searchReads (fun e => c.eq e.2 v) (fun e => c.eqReads e.2 v) es, P x) :
    removeFirst d.eq (v.renumber ρ) (es.map fun e => (e.1.renumber ρ, e.2.renumber ρ)) =
      (removeFirst c.eq v es).map (·.map fun e => (e.1.renumber ρ, e.2.renumber ρ)) := by
  induction es with
  | nil => rfl
  | cons e rest ih =>
    rw [searchReads, List.forall_mem_append] at hP
    rw [List.map_cons, removeFirst, removeFirst, h.eq hP.1]
    cases hfound : c.eq e.2 v with
    | true => rfl
    | false =>
      rw [hfound, if_neg Bool.false_ne_true] at hP
      rw [if_neg Bool.false_ne_true, if_neg Bool.false_ne_true, ih hP.2]
      cases removeFirst c.eq v rest <;> rfl

/-- A request makes the same of a map. -/
theorem edit_renumber {request : Edit} (hP : ∀ x ∈ m.editReads c request, P x) :
    (edit d (request.renumber ρ)).on (m.renumber ρ) =
      ((edit c request).on m).map id (renumber ρ) := by
  cases request with
  | add v => exact Prod.ext rfl (add_renumber h m v hP)
  | insert k v | put k v => exact Prod.ext rfl (put_renumber h v hP)
  | addAll k vs =>
    cases k with
    | none => exact Prod.ext rfl (foldl_renumber (add_renumber h) hP)
    | some k => exact Prod.ext rfl (foldl_renumber (fun m v => put_renumber h (m := m) v) hP)
  | fill v =>
    have hfill : (m.renumber ρ).fill (v.renumber ρ) = (m.fill v).renumber ρ := by
      simp [fill, renumber, Function.comp_def]
    exact Prod.ext rfl hfill
  | remove v =>
    have hremove := removeFirst_renumber h hP
    unfold edit Edit.renumber Editing.on
    rw [Editing.get_bind_apply, Editing.get_bind_apply]
    simp only [renumber, hremove]
    cases removeFirst c.eq v m.entries <;> rfl
  | removeEvery v =>
    have hrest := without_renumber h m v hP
    unfold edit Edit.renumber Editing.on
    rw [Editing.get_bind_apply, Editing.get_bind_apply]
    simp only [hrest]
    simp only [renumber, List.length_map]
    rfl
  | removeAll vs => exact Prod.ext rfl (foldl_renumber (without_renumber h) hP)
  | removeAt k => exact Prod.ext rfl (withoutKey_renumber h m k hP)
  | removeAllAt ks => exact Prod.ext rfl (foldl_renumber (withoutKey_renumber h) hP)
  | clear => rfl

theorem ofEntries_renumber {key content : BaseType} {es : List (Value × Value)}
    (hP : ∀ x ∈ entryReads c key content es, P x) :
    ofEntries d.eq key content (es.map fun e => (e.1.renumber ρ, e.2.renumber ρ)) =
      (ofEntries c.eq key content es).renumber ρ :=
  foldl_renumber (g := renumber ρ) (fun m e => put_renumber h (m := m) e.2) hP

end MapCell

/-! ## Graphs -/

omit h in
theorem editEach_renumber {α α' β β' : Type} {change : β → Editing α Unit}
    {change' : β' → Editing α' Unit} {k : β → β'} {g : α → α'} {reads : α → β → List Access}
    (h : ∀ a b, (∀ x ∈ reads a b, P x) → (change' (k b)).on (g a) = ((change b).on a).map id g)
    {a : α} {bs : List β} (hP : ∀ x ∈ eachReads change reads a bs, P x) :
    (editEach change' (bs.map k)).on (g a) = ((editEach change bs).on a).map id g := by
  induction bs generalizing a with
  | nil => rfl
  | cons b rest ih =>
    rw [eachReads, List.forall_mem_append] at hP
    have hb := h a b hP.1
    cases hchange : change b a with
    | ok u a₁ =>
      have hchange' : change' (k b) (g a) = .ok () (g a₁) := by
        simp only [Editing.on, hchange] at hb
        cases h' : change' (k b) (g a) <;> simp [h'] at hb ⊢
        exact hb
      rw [hchange] at hP
      have hrest := ih hP.2
      unfold Editing.on at hrest ⊢
      rwa [List.map_cons, Editing.editEach_cons_of_ok hchange', Editing.editEach_cons_of_ok hchange]
    | error e a₁ =>
      have hchange' : change' (k b) (g a) = .error e (g a₁) := by
        simp only [Editing.on, hchange] at hb
        cases h' : change' (k b) (g a) <;> simp [h'] at hb ⊢
        exact hb
      unfold Editing.on
      rw [List.map_cons, Editing.editEach_cons_of_error hchange',
        Editing.editEach_cons_of_error hchange]
      rfl

omit h in
theorem done_renumber {α α' : Type} {x : Editing α Unit} {x' : Editing α' Unit} {g : α → α'} {a : α}
    (h : x'.on (g a) = (x.on a).map id g) :
    (x' >>= fun _ => pure EditReply.done).on (g a) =
      ((x >>= fun _ => pure EditReply.done).on a).map id g := by
  unfold Editing.on at h ⊢
  simp only [bind, EStateM.bind]
  cases hx : x a <;> cases hx' : x' (g a) <;> simp_all [pure, EStateM.pure]

namespace GraphCell
variable {g : GraphCell}

theorem addVertex_renumber (g : GraphCell) (v : Value) (hP : ∀ x ∈ g.vertexReads c v, P x) :
    (g.renumber ρ).addVertex d.eq (v.renumber ρ) = (g.addVertex c.eq v).renumber ρ := by
  have hany := any_renumber (f := Value.renumber ρ) (q := (d.eq · (v.renumber ρ)))
    (fun _ => h.eq) hP
  have hany' : ((g.renumber ρ).vertices.any fun x => d.eq x (v.renumber ρ)) =
      g.vertices.any fun x => c.eq x v := hany
  unfold addVertex
  simp only [hany']
  split
  · rfl
  · simp [renumber]

theorem addEdge_renumber {a b : Value} (w : Float) (hP : ∀ x ∈ g.edgeReads c a b, P x) :
    (g.renumber ρ).addEdge d.eq (a.renumber ρ) (b.renumber ρ) w =
      (g.addEdge c.eq a b w).renumber ρ := by
  rw [edgeReads, List.forall_mem_append, List.forall_mem_append] at hP
  obtain ⟨⟨ha, hb⟩, hedges⟩ := hP
  have hput (es : List Edge)
      (hes : ∀ x ∈ searchReads (joins c.eq a b) (c.joinReads a b) es, P x) :
      putEdge d.eq (a.renumber ρ) (b.renumber ρ) w (es.map (·.renumber ρ)) =
        (putEdge c.eq a b w es).map (·.renumber ρ) := by
    induction es with
    | nil => rfl
    | cons e rest ih =>
      rw [searchReads, List.forall_mem_append] at hes
      rw [List.map_cons, putEdge, putEdge, h.joins hes.1]
      cases hfound : joins c.eq a b e with
      | true => rfl
      | false =>
        rw [hfound, if_neg Bool.false_ne_true] at hes
        rw [if_neg Bool.false_ne_true, if_neg Bool.false_ne_true, ih hes.2, List.map_cons]
  have hkept : ((g.addVertex c.eq a).addVertex c.eq b).edges = g.edges := by
    unfold addVertex
    split <;> split <;> rfl
  simp only [addEdge]
  rw [addVertex_renumber h g a ha, addVertex_renumber h _ b hb]
  simp only [renumber, hkept, hput g.edges hedges]

theorem add_renumber (g : GraphCell) (v : Value) (hP : ∀ x ∈ g.addReads c v, P x) :
    (g.renumber ρ).add d.eq (v.renumber ρ) = (g.add c.eq v).renumber ρ := by
  cases v with
  | pair a b => exact addEdge_renumber h 1.0 hP
  | _ => exact addVertex_renumber h g _ hP

theorem remove_renumber (g : GraphCell) (v : Value) (hP : ∀ x ∈ g.removeReads c v, P x) :
    (g.renumber ρ).remove d.eq (v.renumber ρ) = (g.remove c.eq v).map (renumber ρ) id := by
  have hvertex (v : Value) (hP : ∀ x ∈ g.vertices.flatMap (c.eqReads · v) ++
      g.edges.flatMap fun e =>
        c.eqReads e.source v ++ if c.eq e.source v then [] else c.eqReads e.target v, P x) :
      (g.renumber ρ).vertices.filter (fun x => !d.eq x (v.renumber ρ)) =
          (g.vertices.filter fun x => !c.eq x v).map (·.renumber ρ) ∧
        (g.renumber ρ).edges.filter
            (fun e => !d.eq e.source (v.renumber ρ) && !d.eq e.target (v.renumber ρ)) =
          (g.edges.filter fun e => !c.eq e.source v && !c.eq e.target v).map (·.renumber ρ) := by
    rw [List.forall_mem_append] at hP
    refine ⟨filter_renumber (fun x hx => by rw [h.eq hx]) hP.1,
      filter_renumber (fun e he => ?_) hP.2⟩
    rw [List.forall_mem_append] at he
    rw [Edge.renumber, h.eq he.1]
    cases hsource : c.eq e.source v with
    | true => rfl
    | false =>
      rw [hsource, if_neg Bool.false_ne_true] at he
      rw [h.eq he.2]
  cases v with
  | pair a b =>
    have hedges : (g.renumber ρ).edges.filter
          (fun e => !joins d.eq (a.renumber ρ) (b.renumber ρ) e) =
        (g.edges.filter fun e => !joins c.eq a b e).map (·.renumber ρ) :=
      filter_renumber (fun e he => by rw [h.joins he]) hP
    simp only [remove, Value.renumber, hedges]
    simp [renumber]
  | _ =>
    obtain ⟨hvertices, hedges⟩ := hvertex _ hP
    simp only [Value.renumber] at hvertices hedges
    simp only [remove, Value.renumber, hvertices, hedges]
    simp [renumber]

theorem weightOf_renumber {v : Value} (hP : ∀ x ∈ weightReads c v, P x) :
    weightOf d (v.renumber ρ) = weightOf c v := by
  have hother (s : Store) (v : Value) (hv : v ≠ .nil) : weightOf s v =
      v.asFloat.elim (.error (.invalidValue (s.text v) .graph)) .ok := by
    cases v <;> first | rfl | exact absurd rfl hv
  by_cases hv : v = .nil
  · subst hv
    rfl
  · have hv' : v.renumber ρ ≠ .nil := by cases v <;> simp_all [Value.renumber]
    rw [weightReads, hother c v hv] at hP
    rw [hother d _ hv', hother c v hv, Value.asFloat_renumber]
    cases hfloat : v.asFloat with
    | some w => rfl
    | none =>
      rw [hfloat] at hP
      rw [h.text hP]

theorem putAt_renumber {g : GraphCell} {i v : Value} (hP : ∀ x ∈ g.putAtReads c i v, P x) :
    (putAt d (i.renumber ρ) (v.renumber ρ)).on (g.renumber ρ) =
      ((putAt c i v).on g).map id (renumber ρ) := by
  unfold putAt Editing.on
  rw [Editing.get_bind_apply, Editing.get_bind_apply]
  cases i with
  | pair a b =>
    rw [putAtReads, List.forall_mem_append] at hP
    simp only [Value.renumber, endpoints, weightOf_renumber h hP.1]
    cases hw : weightOf c v with
    | error e => rfl
    | ok w =>
      rw [hw] at hP
      exact Prod.ext rfl (addEdge_renumber h w hP.2)
  | _ =>
    have htext := h.text hP
    simp only [Value.renumber] at htext ⊢
    simp only [endpoints, htext]
    rfl

theorem removeAt_renumber {g : GraphCell} {i : Value} (hP : ∀ x ∈ g.removeAtReads c i, P x) :
    (removeAt d (i.renumber ρ)).on (g.renumber ρ) =
      ((removeAt c i).on g).map id (renumber ρ) := by
  unfold removeAt Editing.on
  rw [Editing.get_bind_apply, Editing.get_bind_apply]
  cases i with
  | pair a b => exact Prod.ext rfl (congrArg Prod.fst (remove_renumber h g (.pair a b) hP))
  | _ =>
    have htext := h.text hP
    simp only [Value.renumber] at htext ⊢
    simp only [endpoints, htext]
    rfl

/-- A request makes the same of a graph. -/
theorem edit_renumber {request : Edit} (hP : ∀ x ∈ g.editReads c request, P x) :
    (edit d (request.renumber ρ)).on (g.renumber ρ) =
      ((edit c request).on g).map id (renumber ρ) := by
  cases request with
  | add v => exact Prod.ext rfl (add_renumber h g v hP)
  | insert i v | put i v => exact done_renumber (putAt_renumber h hP)
  | addAll i vs =>
    cases i with
    | none => exact Prod.ext rfl (foldl_renumber (add_renumber h) hP)
    | some i => exact done_renumber (editEach_renumber (fun g v => putAt_renumber h) hP)
  | fill v =>
    unfold edit Edit.renumber Editing.on
    rw [Editing.get_bind_apply, Editing.get_bind_apply]
    simp only [weightOf_renumber h hP]
    cases weightOf c v with
    | error e => rfl
    | ok w =>
      have hfill : (g.renumber ρ).fill w = (g.fill w).renumber ρ := by
        simp [GraphCell.fill, renumber, Edge.renumber, Function.comp_def]
      exact Prod.ext rfl hfill
  | remove v | removeEvery v =>
    have hremove := remove_renumber h g v hP
    unfold edit Edit.renumber Editing.on
    rw [Editing.get_bind_apply, Editing.get_bind_apply]
    simp only [hremove]
    rfl
  | removeAll vs =>
    exact Prod.ext rfl
      (foldl_renumber (fun g v hv => congrArg Prod.fst (remove_renumber h g v hv)) hP)
  | removeAt i => exact done_renumber (removeAt_renumber h hP)
  | removeAllAt is => exact done_renumber (editEach_renumber (fun g v => removeAt_renumber h) hP)
  | clear => rfl

end GraphCell

/-! ## Containers -/

/-- A request makes the same of a container. -/
theorem Object.edit_renumber {o : Object} {request : Edit} (hP : ∀ x ∈ o.editReads c request, P x) :
    (o.renumber ρ).edit d (request.renumber ρ) = (o.edit c request).map id (renumber ρ) := by
  cases o with
  | agent x => rfl
  | list l => exact congrArg (Prod.map id Object.list) (ListCell.edit_renumber h hP)
  | map m => exact congrArg (Prod.map id Object.map) (MapCell.edit_renumber h hP)
  | matrix m => exact congrArg (Prod.map id Object.matrix) (MatrixCell.edit_renumber h hP)
  | graph g => exact congrArg (Prod.map id Object.graph) (GraphCell.edit_renumber h hP)

namespace Store

omit h in
/-- The answer to a request, and what becomes of the container. -/
theorem edit_eq {s : Store} {target : Value} {r : Ref} (htarget : target.container? = some r)
    (hr : r.2 < s.extent r.1) (request : Edit) :
    (s.edit target request).1 = ((s.cell r).edit s request).1 ∧
      (s.edit target request).2.cell r = ((s.cell r).edit s request).2 := by
  cases target with
  | list i =>
    obtain rfl := Option.some.inj htarget
    simp only [Store.edit, cell, Object.edit, Change.outcome]
    cases (s.lists.get i).edit s request with
    | ok change => exact ⟨rfl, congrArg Object.list (Heap.get_modify_self _ _ _ hr)⟩
    | error e => exact ⟨rfl, rfl⟩
  | map i =>
    obtain rfl := Option.some.inj htarget
    exact ⟨rfl, congrArg Object.map (get_set_of_lt _ hr _)⟩
  | matrix i =>
    obtain rfl := Option.some.inj htarget
    simp only [Store.edit, cell, Object.edit, Change.outcome]
    cases (s.matrices.get i).edit s request with
    | ok change => exact ⟨rfl, congrArg Object.matrix (Heap.get_modify_self _ _ _ hr)⟩
    | error e => exact ⟨rfl, rfl⟩
  | graph i =>
    obtain rfl := Option.some.inj htarget
    exact ⟨rfl, congrArg Object.graph (get_set_of_lt _ hr _)⟩
  | _ => cases htarget

omit h in
theorem container?_renumber (v : Value) :
    (v.renumber ρ).container? = v.container?.map fun r => (r.1, ρ r.1 r.2) := by
  cases v <;> rfl

/-- A request gets the same answer, and makes the same of the container. -/
theorem Mirrors.edit {target : Value} {request : Edit} {r : Ref}
    (hP : ∀ x ∈ (Mutation.request target request).reads c, P x)
    (hr : target.container? = some r) (hc : r.2 < c.extent r.1) (hd : ρ r.1 r.2 < d.extent r.1) :
    (d.edit (target.renumber ρ) (request.renumber ρ)).1 = (c.edit target request).1 ∧
      (d.edit (target.renumber ρ) (request.renumber ρ)).2.cell (r.1, ρ r.1 r.2) =
        ((c.edit target request).2.cell r).renumber ρ := by
  rw [Mutation.reads, List.forall_mem_append, hr] at hP
  have htarget : (target.renumber ρ).container? = some (r.1, ρ r.1 r.2) := by
    rw [container?_renumber, hr, Option.map_some]
  have hedit := Object.edit_renumber h (o := c.cell r) (by simpa using hP.2)
  obtain ⟨hanswer, hcell⟩ := edit_eq hr hc request
  obtain ⟨hanswer', hcell'⟩ := edit_eq htarget hd (request.renumber ρ)
  rw [hanswer, hcell, hanswer', hcell', h.cell_of_look hP.1 hr, hedit]
  exact ⟨rfl, rfl⟩

/-- A part of a list is replaced by the same. -/
theorem Mirrors.replaceRange {i : Nat} {start stop : Int64} {v : Value}
    (hP : ∀ x ∈ (Mutation.range i start stop v).reads c, P x) :
    (d.lists.get (ρ .list i)).replaceRange d start stop (v.renumber ρ) =
      ((c.lists.get i).replaceRange c start stop v).map (·.renumber ρ) := by
  rw [Mutation.reads, List.forall_mem_append] at hP
  simp only [ListCell.replaceRange, h.list hP.1, ListCell.renumber, Array.size_map]
  split
  · rfl
  split
  · rfl
  cases v with
  | list j =>
    have hother := h.list hP.2
    simp only [Value.renumber, hother]
    simp [Except.map, ListCell.renumber]
  | _ => simp [Except.map, Value.renumber]

/-- A change makes the same of a container. -/
theorem Mirrors.mutate_cell {m : Mutation} {r : Ref} (hP : ∀ x ∈ m.reads c, P x)
    (hr : m.target.container? = some r) (hc : r.2 < c.extent r.1) (hd : ρ r.1 r.2 < d.extent r.1) :
    (d.mutate (m.renumber ρ)).cell (r.1, ρ r.1 r.2) = ((c.mutate m).cell r).renumber ρ := by
  cases m with
  | request target request => exact (h.edit hP hr hc hd).2
  | range i start stop v =>
    obtain rfl := Option.some.inj hr
    have hrange := h.replaceRange hP
    simp only [mutate, Mutation.renumber, hrange]
    cases (c.lists.get i).replaceRange c start stop v with
    | error e =>
      rw [Mutation.reads, List.forall_mem_append] at hP
      exact congrArg Object.list (h.list hP.1)
    | ok l =>
      simp only [Except.map, Store.cell, get_set_of_lt _ hc, get_set_of_lt _ hd]
      rfl
  | vertex i v =>
    obtain rfl := Option.some.inj hr
    rw [Mutation.reads, List.forall_mem_append] at hP
    have hadd := GraphCell.addVertex_renumber h (c.graphs.get i) v hP.2
    simp only [mutate, Mutation.renumber, h.graph hP.1, hadd]
    simp only [Store.cell, get_set_of_lt _ hc, get_set_of_lt _ hd]
    rfl

end Store

end
end Habitat

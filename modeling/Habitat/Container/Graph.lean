import Habitat.Container.Edit

/-!
# Editing graphs

Pairs address edges, and any other value is a vertex. An edge brings its endpoints along, and a
vertex takes its edges with it.
-/
namespace Habitat.GraphCell

/-- Adds a vertex unless it is there. -/
def addVertex (eq : Value → Value → Bool) (g : GraphCell) (v : Value) : GraphCell :=
  if g.vertices.any fun x => eq x v then g else { g with vertices := g.vertices ++ [v] }

/-- Whether an edge leads from `a` to `b`. -/
def joins (eq : Value → Value → Bool) (a b : Value) (e : Edge) : Bool :=
  eq e.source a && eq e.target b

/-- Sets the weight of an edge, or appends the edge. -/
def putEdge (eq : Value → Value → Bool) (a b : Value) (w : Float) : List Edge → List Edge
  | [] => [⟨a, b, w⟩]
  | e :: rest =>
    if joins eq a b e then { e with weight := w } :: rest else e :: putEdge eq a b w rest

/-- Adds an edge and its endpoints, or changes the weight of the edge. -/
def addEdge (eq : Value → Value → Bool) (g : GraphCell) (a b : Value) (w : Float) : GraphCell :=
  let g := (g.addVertex eq a).addVertex eq b
  { g with edges := putEdge eq a b w g.edges }

/-- The weight of an edge. -/
def weight? (eq : Value → Value → Bool) (g : GraphCell) (a b : Value) : Option Float :=
  (g.edges.find? (joins eq a b)).map (·.weight)

/-- The endpoints that an index names. -/
def endpoints (s : Store) : Value → Except ContainerError (Value × Value)
  | .pair a b => .ok (a, b)
  | v => .error (.invalidIndex (s.text v) .graph)

/-- The weight that a value stands for; `nil` is the weight of an edge without one. -/
def weightOf (s : Store) : Value → Except ContainerError Float
  | .nil => .ok 1.0
  | v =>
    match v.asFloat with
    | some w => .ok w
    | none => .error (.invalidValue (s.text v) .graph)

/-- Adds a value: a pair is an edge of weight one, any other value a vertex. -/
def add (eq : Value → Value → Bool) (g : GraphCell) : Value → GraphCell
  | .pair a b => g.addEdge eq a b 1.0
  | v => g.addVertex eq v

/-- Removes an edge, or a vertex with its edges; tells whether it was there. -/
def remove (eq : Value → Value → Bool) (g : GraphCell) : Value → GraphCell × Bool
  | .pair a b =>
    let edges := g.edges.filter fun e => !joins eq a b e
    ({ g with edges := edges }, edges.length != g.edges.length)
  | v =>
    let vertices := g.vertices.filter fun x => !eq x v
    let edges := g.edges.filter fun e => !eq e.source v && !eq e.target v
    (⟨vertices, edges⟩, vertices.length != g.vertices.length)

/-- Gives every edge the same weight. -/
def fill (g : GraphCell) (w : Float) : GraphCell :=
  { g with edges := g.edges.map fun e => { e with weight := w } }

/-- Puts an edge with a weight. -/
def putAt (s : Store) (index value : Value) : Editing GraphCell Unit := do
  let g ← get
  match endpoints s index, weightOf s value with
  | .ok (a, b), .ok w => set (g.addEdge s.eq a b w)
  | .error e, _ => throw e
  | .ok _, .error e => throw e

/-- Removes the edge that an index names. -/
def removeAt (s : Store) (index : Value) : Editing GraphCell Unit := do
  let g ← get
  match endpoints s index with
  | .ok _ => set (g.remove s.eq index).1
  | .error e => throw e

/-- Answers a request. -/
def edit (s : Store) (request : Edit) : Editing GraphCell EditReply := do
  let g ← get
  match request with
  | .add v => set (g.add s.eq v); return .done
  | .insert i v | .put i v => putAt s i v; return .done
  | .addAll none vs => set (vs.foldl (fun g v => g.add s.eq v) g); return .done
  | .addAll (some i) vs => editEach (putAt s i) vs; return .done
  | .fill v => editWhole ((weightOf s v).map g.fill)
  | .remove v =>
    let (rest, found) := g.remove s.eq v
    set rest
    return .found found
  | .removeEvery v =>
    let (rest, found) := g.remove s.eq v
    set rest
    return .removed (if found then 1 else 0)
  | .removeAll vs => set (vs.foldl (fun g v => (g.remove s.eq v).1) g); return .done
  | .removeAt i => removeAt s i; return .done
  | .removeAllAt is => editEach (removeAt s) is; return .done
  | .clear => set (⟨[], []⟩ : GraphCell); return .done

end Habitat.GraphCell

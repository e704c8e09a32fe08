import Habitat.Proofs.Run.Objects
import Habitat.Proofs.Store.Separation
import Habitat.Proofs.World.Births
import Habitat.Proofs.World.Footprint
import Habitat.Run.Exec

/-!
# What belongs to the targets of a dispatch

Each target of a dispatch owns objects: itself, and containers or other agents. It may read what
no other target owns and, of what another one owns, the cells that stay as they are; it may write
cells of its own, unless they stay (`Estates.Permits`).

To a target whose turn comes the state looks as it did before the dispatch, if the others kept to
that: `Estates.Alike`.
-/
namespace Habitat

/-- The object that a cell is a part of. -/
def Cell.place : Cell → Place
  | .attr id _ | .life id => .agent id
  | .container k i => .container k i

namespace Machine

/-- What is at a place, or something empty. -/
def objectAt (m : Machine) : Place → Object
  | .agent id => .agent (m.world.agents.get id)
  | .container k i => m.store.cell (k, i)

/-- Everything but attributes, deaths, containers, events and what is held. -/
def outline (m : Machine) : Machine :=
  { m with world := m.world.outline, store := .empty, events := [], held := [] }

section
variable {m m' : Machine}

theorem world_outline (h : m'.outline = m.outline) : m'.world.outline = m.world.outline := by
  have hworld := congrArg Machine.world h
  exact hworld

theorem setting_of_outline (h : m'.outline = m.outline) : m'.setting = m.setting := by
  have hsetting := congrArg Machine.setting h
  exact hsetting

theorem size_of_outline (h : m'.outline = m.outline) :
    m'.world.agents.size = m.world.agents.size := by
  have hsize (m : Machine) : m.world.outline.agents.cells.size = m.world.agents.size :=
    Array.size_map
  rw [← hsize, ← hsize, world_outline h]

/-- What is at a place is an object, or there is none and it is empty. -/
theorem objectAt_cases (m : Machine) (p : Place) :
    m.object? p = some (m.objectAt p) ∨ m.object? p = none ∧ (m.objectAt p).values = [] := by
  have hcell {α : Type} [Inhabited α] (h : Heap α) (f : α → Object) (i : Nat)
      (hnone : (f default).values = []) :
      (h.get? i).map f = some (f (h.get i)) ∨
        (h.get? i).map f = none ∧ (f (h.get i)).values = [] := by
    rw [Heap.get_eq]
    cases h.get? i with
    | some a => exact .inl rfl
    | none => exact .inr ⟨rfl, hnone⟩
  cases p with
  | agent id => exact hcell m.world.agents .agent id rfl
  | container k i =>
    cases k with
    | list => exact hcell m.store.lists .list i rfl
    | map => exact hcell m.store.maps .map i rfl
    | matrix => exact hcell m.store.matrices .matrix i rfl
    | graph => exact hcell m.store.graphs .graph i rfl

theorem Closed.objectAt (h : m.Closed) (p : Place) : (m.objectAt p).Within m.extent := by
  rcases m.objectAt_cases p with hsome | ⟨-, hvalues⟩
  · exact h p _ hsome
  · intro v hv
    rw [hvalues] at hv
    cases hv

theorem closed_of_objectAt (h : ∀ p, (m.objectAt p).Within m.extent) : m.Closed := by
  intro p o ho
  rcases m.objectAt_cases p with hsome | ⟨hnone, -⟩
  · obtain rfl := Option.some.inj (hsome.symm.trans ho)
    exact h p
  · rw [hnone] at ho
    cases ho

/-- All places where there is no object yet look alike. -/
theorem objectAt_of_isNew {k : Store.Kind} {i j : Nat} (hi : m.extent k ≤ i)
    (hj : m'.extent k ≤ j) (ρ : Renumbering) :
    m'.objectAt (.container k j) = (m.objectAt (.container k i)).renumber ρ := by
  have hnew (m : Machine) {i : Nat} (hi : m.extent k ≤ i) :
      m.objectAt (.container k i) = Store.empty.cell (k, 0) := by
    cases k <;> exact congrArg _ (Heap.get_of_size_le _ _ hi)
  have hwithin : (Store.empty.cell (k, 0)).Within fun _ => 0 := by cases k <;> nofun
  rw [hnew m hi, hnew m' hj,
    Object.renumber_of_fixed (fun _ _ hlt => absurd hlt (Nat.not_lt_zero _)) hwithin]

theorem isSome_object? (m : Machine) (p : Place) : (m.object? p).isSome = true ↔
    match p with
    | .agent id => id < m.world.agents.size
    | .container k i => i < m.extent k := by
  cases p with
  | agent id => simp [object?, Heap.get?, Heap.size]
  | container k i => cases k <;> simp [object?, Heap.get?, extent, Store.extent, Heap.size]

/-- An object in place of another one. -/
theorem object?_eq_map {p q : Place} {f : Object → Object}
    (h : m'.objectAt q = f (m.objectAt p))
    (hexists : (m'.object? q).isSome = true ↔ (m.object? p).isSome = true) :
    m'.object? q = (m.object? p).map f := by
  rcases m.objectAt_cases p with hp | ⟨hp, -⟩ <;> rcases m'.objectAt_cases q with hq | ⟨hq, -⟩
  · rw [hp, hq, h, Option.map_some]
  · simp [hp, hq] at hexists
  · simp [hp, hq] at hexists
  · rw [hp, hq, Option.map_none]

end
end Machine

/-! ## Cells -/

namespace Record

def renumber (ρ : Renumbering) (r : Record) : Record :=
  ⟨r.fields.map fun f => (f.1, f.2.renumber ρ)⟩

variable {ρ : Renumbering}

theorem get?_renumber (r : Record) (name : String) :
    (r.renumber ρ).get? name = (r.get? name).map (·.renumber ρ) := by
  obtain ⟨fields⟩ := r
  simp only [get?, renumber]
  induction fields with
  | nil => rfl
  | cons f rest ih =>
    obtain ⟨k, v⟩ := f
    rw [List.map_cons, List.lookup_cons, List.lookup_cons]
    cases name == k with
    | true => rfl
    | false => exact ih

theorem insert_renumber (r : Record) (name : String) (v : Value) :
    (r.renumber ρ).insert name (v.renumber ρ) = (r.insert name v).renumber ρ := by
  obtain ⟨fields⟩ := r
  simp only [insert, renumber, mk.injEq]
  induction fields with
  | nil => rfl
  | cons f rest ih =>
    rw [List.map_cons, insertField, insertField]
    split
    · rfl
    split
    · rfl
    · rw [List.map_cons, ih]

end Record

def Agent.renumber (ρ : Renumbering) (x : Agent) : Agent :=
  { x with attributes := x.attributes.renumber ρ }

namespace Cell

/-- The cell holds the same in both machines. -/
def Same (m m' : Machine) : Cell → Prop
  | .attr id name =>
    (m'.world.agents.get id).attributes.get? name = (m.world.agents.get id).attributes.get? name
  | .life id => (m'.world.agents.get id).dead = (m.world.agents.get id).dead
  | .container k i => m'.store.cell (k, i) = m.store.cell (k, i)

/-- The cell holds the same in both machines, but for the numbers of containers. -/
def Shadows (ρ : Renumbering) (m m' : Machine) : Cell → Prop
  | .attr id name => (m'.world.agents.get id).attributes.get? name =
    ((m.world.agents.get id).attributes.get? name).map (·.renumber ρ)
  | .life id => (m'.world.agents.get id).dead = (m.world.agents.get id).dead
  | .container k i => m'.store.cell (k, ρ k i) = (m.store.cell (k, i)).renumber ρ

def renumber (ρ : Renumbering) : Cell → Cell
  | .container k i => .container k (ρ k i)
  | c => c

variable {m m' m'' : Machine} {ρ : Renumbering} {c : Cell}

theorem place_renumber (c : Cell) : (c.renumber ρ).place = c.place.renumber ρ := by
  cases c <;> rfl

theorem Same.trans (h : c.Same m m') (h' : c.Same m' m'') : c.Same m m'' := by
  cases c <;> exact Eq.trans h' h

theorem Same.symm (h : c.Same m m') : c.Same m' m := by cases c <;> exact Eq.symm h

/-- A cell is the same if its object is. -/
theorem same_of_objectAt (h : m'.objectAt c.place = m.objectAt c.place) : c.Same m m' := by
  cases c with
  | attr id name =>
    exact congrArg (fun x : Agent => x.attributes.get? name) (Object.agent.inj h)
  | life id => exact congrArg Agent.dead (Object.agent.inj h)
  | container k i => exact h

/-- A cell is a shadow if its object is. -/
theorem shadows_of_objectAt
    (h : m'.objectAt (c.place.renumber ρ) = (m.objectAt c.place).renumber ρ) :
    c.Shadows ρ m m' := by
  cases c with
  | attr id name =>
    have hagent : m'.world.agents.get id = (m.world.agents.get id).renumber ρ := Object.agent.inj h
    rw [Shadows, hagent]
    exact Record.get?_renumber _ name
  | life id =>
    have hagent : m'.world.agents.get id = (m.world.agents.get id).renumber ρ := Object.agent.inj h
    rw [Shadows, hagent]
    rfl
  | container k i => exact h

/-- Where numbers are left alone, two machines in which a cell has stayed the same shadow each
other. -/
theorem Same.shadows {n : Store.Kind → Nat} (h : c.Same m m') (h' : c.Same m m'')
    (hfixed : ∀ k i, i < n k → ρ k i = i) (hplace : ¬c.place.IsNew n)
    (hwithin : (m.objectAt c.place).Within n) : c.Shadows ρ m' m'' := by
  have hself : c.Shadows ρ m m := shadows_of_objectAt (by
    rw [Place.renumber_of_fixed hfixed hplace, Object.renumber_of_fixed hfixed hwithin])
  cases c with
  | attr id name =>
    simp only [Same, Shadows] at *
    rw [h', h]
    exact hself
  | life id => exact Eq.trans h' h.symm
  | container k i =>
    simp only [Same, Shadows, hfixed k i (Nat.not_le.mp hplace)] at *
    rw [h', h]
    exact hself

end Cell

/-! ## Changes of one cell -/

namespace Store

theorem extent_edit (s : Store) (target : Value) (request : Edit) (k : Kind) :
    (s.edit target request).2.extent k = s.extent k := by
  unfold edit
  cases target with
  | list i | matrix i =>
    dsimp only
    split
    · cases k <;> simp [extent]
    · rfl
  | map i | graph i => cases k <;> simp [extent]
  | _ => rfl

/-- A change makes no containers. -/
theorem extent_mutate (s : Store) (m : Mutation) (k : Kind) :
    (s.mutate m).extent k = s.extent k := by
  cases m with
  | request target request => exact s.extent_edit target request k
  | range i start stop v =>
    unfold mutate
    dsimp only
    split
    · cases k <;> simp [extent]
    · rfl
  | vertex i v => cases k <;> simp [mutate, extent]

/-- What is no container is not changed. -/
theorem mutate_of_none {m : Mutation} (h : m.target.container? = none) (s : Store) :
    s.mutate m = s := by
  cases m with
  | request target request =>
    cases target with
    | list | map | matrix | graph => cases h
    | _ => rfl
  | range | vertex => cases h

end Store

namespace Machine

/-- Two machines that differ in one cell at most, and beside it in what is held. -/
structure Differs (c : Cell) (m m' : Machine) : Prop where
  outline : m'.outline = m.outline
  extent : ∀ k, m'.extent k = m.extent k
  reports : m'.reports = m.reports
  places : ∀ p, p ≠ c.place → m'.objectAt p = m.objectAt p
  cells : ∀ d, d ≠ c → d.Same m m'

variable {m : Machine}

theorem get_update (w : World) (a : AgentRef) (f : Agent → Agent) (id : Nat) :
    (w.update a f).agents.get id =
      if a.id = id ∧ id < w.agents.size then f (w.agents.get id) else w.agents.get id :=
  w.agent_update a ⟨id, ""⟩ f

theorem differs_update {c : Cell} {a : AgentRef} {f : Agent → Agent}
    (hplace : c.place = .agent a.id)
    (houtline : ∀ x, (f x).outline = x.outline)
    (hattr : ∀ name, .attr a.id name ≠ c → ∀ x, (f x).attributes.get? name = x.attributes.get? name)
    (hlife : .life a.id ≠ c → ∀ x, (f x).dead = x.dead) :
    m.Differs c { m with world := m.world.update a f } where
  outline := by simp only [outline, World.outline_update _ _ houtline]
  extent _ := rfl
  reports := rfl
  places p hp := by
    cases p with
    | agent id =>
      have hne : ¬(a.id = id ∧ id < m.world.agents.size) := fun h => hp (by rw [hplace, h.1])
      simp only [objectAt, get_update, if_neg hne]
    | container k i => rfl
  cells d hd := by
    cases d with
    | attr id name =>
      simp only [Cell.Same, get_update]
      split
      case isTrue h => exact hattr name (by rwa [h.1]) _
      case isFalse => rfl
    | life id =>
      simp only [Cell.Same, get_update]
      split
      case isTrue h => exact hlife (by rwa [h.1]) _
      case isFalse => rfl
    | container k i => rfl

theorem differs_setAttribute (a : AgentRef) (name : String) (v : Value) :
    m.Differs (.attr a.id name) { m with world := m.world.setAttribute a name v } := by
  refine differs_update rfl (fun _ => rfl) (fun other hother x => ?_) fun _ _ => rfl
  have hne : other ≠ name := fun h => hother (by rw [h])
  exact (Record.lookup_insertField name v x.attributes.fields other).trans (if_neg hne)

theorem differs_kill (a : AgentRef) :
    m.Differs (.life a.id) { m with world := m.world.kill a } :=
  differs_update rfl (fun _ => rfl) (fun _ _ _ => rfl) fun h => absurd rfl h

/-- What becomes of the agent that is changed. -/
theorem objectAt_update (m : Machine) (a : AgentRef) (f : Agent → Agent) :
    ({ m with world := m.world.update a f } : Machine).objectAt (.agent a.id) =
      .agent (if a.id < m.world.agents.size then f (m.world.agents.get a.id)
        else m.world.agents.get a.id) := by
  simp only [objectAt, get_update, true_and]

theorem differs_mutate {mutation : Mutation} {r : Store.Ref}
    (hr : mutation.target.container? = some r) :
    m.Differs (.container r.1 r.2) { m with store := m.store.mutate mutation } := by
  have hcell {q : Store.Ref} (hq : q ≠ r) : (m.store.mutate mutation).cell q = m.store.cell q := by
    refine Store.mutate_cell ?_
    rwa [Value.refs_of_container? hr, List.mem_singleton]
  refine ⟨rfl, m.store.extent_mutate mutation, rfl, fun p hp => ?_, fun d hd => ?_⟩
  · cases p with
    | agent id => rfl
    | container k i => exact hcell fun h => hp (by rw [← h]; rfl)
  · cases d with
    | attr id name | life id => rfl
    | container k i => exact hcell fun h => hd (by rw [← h])

end Machine

/-! ## New containers -/

theorem Value.Within.mono {n n' : Store.Kind → Nat} (h : ∀ k, n k ≤ n' k) {v : Value}
    (hv : v.Within n) : v.Within n' := by
  rw [Value.within_iff] at hv ⊢
  exact fun r hr => Nat.lt_of_lt_of_le (hv r hr) (h r.1)

theorem Value.renumber_ofRef (ρ : Renumbering) (r : Store.Ref) :
    (ofRef r).renumber ρ = ofRef (r.1, ρ r.1 r.2) := by
  obtain ⟨k, i⟩ := r
  cases k <;> rfl

theorem Value.Within.lt {n : Store.Kind → Nat} {v : Value} (hv : v.Within n) {r : Store.Ref}
    (hr : v.container? = some r) : r.2 < n r.1 := by
  refine Value.within_iff.mp hv r ?_
  rw [Value.refs_of_container? hr]
  exact List.mem_cons_self

theorem Object.Within.mono {n n' : Store.Kind → Nat} (h : ∀ k, n k ≤ n' k) {o : Object}
    (ho : o.Within n) : o.Within n' := fun v hv => (ho v hv).mono h

namespace Store

/-- A new container with certain contents. -/
structure Makes (s : Store) (k : Kind) (o : Object) (made : Value × Store) : Prop where
  value : made.1 = .ofRef (k, s.extent k)
  extent : ∀ k', made.2.extent k' = if k' = k then s.extent k + 1 else s.extent k'
  cell : ∀ r, made.2.cell r = if r = (k, s.extent k) then o else s.cell r

variable (s : Store)

theorem makes_addList (l : ListCell) : s.Makes .list (.list l) (s.addList l) where
  value := rfl
  extent k := by cases k <;> simp [addList, Store.extent]
  cell := by
    rintro ⟨k, i⟩
    cases k <;> simp only [addList, Store.cell, Heap.get_push, Store.extent, Prod.mk.injEq,
      reduceCtorEq, true_and, false_and, if_false]
    split <;> rfl

theorem makes_newMap (c : MapCell) : s.Makes .map (.map c) (s.newMap c) where
  value := rfl
  extent k := by cases k <;> simp [newMap, Store.extent]
  cell := by
    rintro ⟨k, i⟩
    cases k <;> simp only [newMap, Store.cell, Heap.get_push, Store.extent, Prod.mk.injEq,
      reduceCtorEq, true_and, false_and, if_false]
    split <;> rfl

theorem makes_newMatrix (c : MatrixCell) : s.Makes .matrix (.matrix c) (s.newMatrix c) where
  value := rfl
  extent k := by cases k <;> simp [newMatrix, Store.extent]
  cell := by
    rintro ⟨k, i⟩
    cases k <;> simp only [newMatrix, Store.cell, Heap.get_push, Store.extent, Prod.mk.injEq,
      reduceCtorEq, true_and, false_and, if_false]
    split <;> rfl

theorem Makes.extent_le {s : Store} {k : Kind} {o : Object} {made : Value × Store}
    (h : s.Makes k o made) (k' : Kind) : s.extent k' ≤ made.2.extent k' := by
  rw [h.extent k']
  split
  · rename_i hk
    rw [hk]
    exact Nat.le_succ _
  · exact Nat.le_refl _

theorem Makes.objectAt {m : Machine} {k : Kind} {o : Object} {made : Value × Store}
    (h : m.store.Makes k o made) (p : Place) : ({ m with store := made.2 } : Machine).objectAt p =
      if p = .container k (m.extent k) then o else m.objectAt p := by
  cases p with
  | agent id => rfl
  | container k' i =>
    have hcell := h.cell (k', i)
    simp only [Prod.mk.injEq] at hcell
    simp only [Machine.objectAt, hcell, Place.container.injEq]
    rfl

theorem makes_newGraph (g : GraphCell) : s.Makes .graph (.graph g) (s.newGraph g) where
  value := rfl
  extent k := by cases k <;> simp [newGraph, Store.extent]
  cell := by
    rintro ⟨k, i⟩
    cases k <;> simp only [newGraph, Store.cell, Heap.get_push, Store.extent, Prod.mk.injEq,
      reduceCtorEq, true_and, false_and, if_false]
    split <;> rfl

end Store

/-! ## Estates -/

/-- What belongs to each of the targets of a dispatch, before it begins. -/
structure Estates (targets : List AgentRef) (s : State) where
  owns : AgentRef → Place → Prop
  /-- What nobody changes, its owner included. -/
  stays : Cell → Prop
  self : ∀ a ∈ targets, owns a (.agent a.id)
  old : ∀ a ∈ targets, ∀ p, owns a p → ¬p.IsNew s.machine.extent
  apart : ∀ a ∈ targets, ∀ b ∈ targets, a.id ≠ b.id → ∀ p, owns a p → ¬owns b p

/-- Two scopes with the same frames, agents, signal and `try` blocks. -/
structure Scope.Alike (s t : Scope) : Prop where
  frames : t.frames = s.frames
  agents : t.agents = s.agents
  flow : t.flow = s.flow
  tryDepth : t.tryDepth = s.tryDepth

theorem Scope.Alike.refl (s : Scope) : s.Alike s := ⟨rfl, rfl, rfl, rfl⟩

theorem Scope.Alike.trans {s t u : Scope} (h : s.Alike t) (h' : t.Alike u) : s.Alike u :=
  ⟨h'.frames.trans h.frames, h'.agents.trans h.agents, h'.flow.trans h.flow,
    h'.tryDepth.trans h.tryDepth⟩

theorem Scope.Alike.symm {s t : Scope} (h : s.Alike t) : t.Alike s :=
  ⟨h.frames.symm, h.agents.symm, h.flow.symm, h.tryDepth.symm⟩

variable {targets : List AgentRef} {s : State}

namespace Estates
variable (E : Estates targets s) (a : AgentRef)

/-- No other target owns the object. -/
def Open (p : Place) : Prop := ∀ b ∈ targets, b.id ≠ a.id → ¬E.owns b p

/-- What a target may do outside of the frames that it pushes. -/
def Permits : Access → Prop
  | .read c => c.place.IsNew s.machine.extent ∨ E.Open a c.place ∨ E.stays c
  | .write c => c.place.IsNew s.machine.extent ∨ E.owns a c.place ∧ ¬E.stays c
  | .shared | .endless => False

/-- A state that looks to a target as the one before the dispatch: what belongs to other targets
has changed, but for what stays, and there are more containers. -/
structure Alike (u : State) : Prop where
  scope : s.scope.Alike u.scope
  outline : u.machine.outline = s.machine.outline
  extent : ∀ k, s.machine.extent k ≤ u.machine.extent k
  seen : ∀ p, ¬p.IsNew s.machine.extent → E.Open a p → u.machine.objectAt p = s.machine.objectAt p
  stays : ∀ c, E.stays c → ¬c.place.IsNew s.machine.extent → c.Same s.machine u.machine

theorem Alike.refl : E.Alike a s :=
  ⟨.refl s.scope, rfl, fun _ => Nat.le_refl _, fun _ _ _ => rfl,
    fun _ _ _ => Cell.same_of_objectAt rfl⟩

variable {E a}

/-- What a target owns, nobody else does. -/
theorem open_of_owns (ha : a ∈ targets) {p : Place} (hp : E.owns a p) : E.Open a p :=
  fun b hb hne => E.apart a ha b hb (Ne.symm hne) p hp

/-- Nobody else has changed a target. -/
theorem Alike.agent {u : State} (h : E.Alike a u) (ha : a ∈ targets) :
    u.machine.world.agent a = s.machine.world.agent a :=
  Object.agent.inj (h.seen (.agent a.id) (fun hnew => hnew) (open_of_owns ha (E.self a ha)))

theorem Alike.isDead {u : State} (h : E.Alike a u) (ha : a ∈ targets) :
    u.machine.world.isDead a = s.machine.world.isDead a := congrArg Agent.dead (h.agent ha)

end Estates
end Habitat

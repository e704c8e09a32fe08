import Habitat.Run.Machine

/-!
# Objects and their numbers

Agents and containers are the objects of a machine, each at a place of its own. A new container
gets the next number of its kind, so what number it has depends on all that was made before. Two
machines that made the same containers in another order differ by a renumbering.

* `Value.renumber`, `Object.renumber`: the same value or object, its containers numbered otherwise.
* `Machine.object?`: what is at a place.
* `Machine.Closed`: every reference finds its container.
* `Machine.Renumbered`: two machines that differ in the numbers of their containers.
* `Renumbering.rearrange`: blocks of numbers in another order.
-/
namespace Habitat

/-! ## Numbers of containers -/

/-- The kinds of containers. -/
inductive Store.Kind where
  | list | map | matrix | graph
  deriving DecidableEq

/-- How many containers of each kind there are. -/
def Store.extent (s : Store) : Store.Kind → Nat
  | .list => s.lists.size
  | .map => s.maps.size
  | .matrix => s.matrices.size
  | .graph => s.graphs.size

/-- Other numbers for containers. -/
abbrev Renumbering := Store.Kind → Nat → Nat

/-- What comes after the first `n` containers comes after the first `n'` instead. -/
def Renumbering.shift (n n' : Store.Kind → Nat) : Renumbering := fun k i =>
  if i < n k then i else i - n k + n' k

theorem Renumbering.shift_of_lt {n n' : Store.Kind → Nat} {k : Store.Kind} {i : Nat}
    (h : i < n k) : shift n n' k i = i := if_pos h

theorem Renumbering.shift_add (n n' : Store.Kind → Nat) (k : Store.Kind) (j : Nat) :
    shift n n' k (n k + j) = n' k + j := by
  unfold shift
  rw [if_neg (by omega)]
  omega

namespace Value

def renumber (ρ : Renumbering) : Value → Value
  | .pair a b => .pair (a.renumber ρ) (b.renumber ρ)
  | .list i => .list (ρ .list i)
  | .map i => .map (ρ .map i)
  | .matrix i => .matrix (ρ .matrix i)
  | .graph i => .graph (ρ .graph i)
  | v => v

/-- The value refers to no containers but the first `n`. -/
def Within (n : Store.Kind → Nat) : Value → Prop
  | .pair a b => a.Within n ∧ b.Within n
  | .list i => i < n .list
  | .map i => i < n .map
  | .matrix i => i < n .matrix
  | .graph i => i < n .graph
  | _ => True

instance decidableWithin (n : Store.Kind → Nat) : (v : Value) → Decidable (v.Within n)
  | .pair a b =>
    have := decidableWithin n a
    have := decidableWithin n b
    inferInstanceAs (Decidable (a.Within n ∧ b.Within n))
  | .list i => inferInstanceAs (Decidable (i < n .list))
  | .map i => inferInstanceAs (Decidable (i < n .map))
  | .matrix i => inferInstanceAs (Decidable (i < n .matrix))
  | .graph i => inferInstanceAs (Decidable (i < n .graph))
  | .nil | .bool _ | .int _ | .float _ | .str _ | .point .. | .agent _ | .species _ =>
    isTrue trivial

/-- Renumberings that agree on the containers of a value give the same value. -/
theorem renumber_congr {n : Store.Kind → Nat} {ρ ρ' : Renumbering}
    (h : ∀ k i, i < n k → ρ k i = ρ' k i) {v : Value} (hv : v.Within n) :
    v.renumber ρ = v.renumber ρ' := by
  induction v with
  | pair a b iha ihb => rw [renumber, renumber, iha hv.1, ihb hv.2]
  | list i | map i | matrix i | graph i => rw [renumber, renumber, h _ i hv]
  | _ => rfl

theorem renumber_renumber (ρ ρ' : Renumbering) (v : Value) :
    (v.renumber ρ).renumber ρ' = v.renumber fun k i => ρ' k (ρ k i) := by
  induction v with
  | pair a b iha ihb => simp only [renumber, iha, ihb]
  | _ => rfl

theorem renumber_id (v : Value) : v.renumber (fun _ i => i) = v := by
  induction v with
  | pair a b iha ihb => rw [renumber, iha, ihb]
  | _ => rfl

end Value

/-! ## Objects -/

/-- An agent or a container. -/
inductive Object where
  | agent (x : Agent)
  | list (c : ListCell)
  | map (c : MapCell)
  | matrix (c : MatrixCell)
  | graph (c : GraphCell)

namespace Object

/-- The values in an object. -/
def values : Object → List Value
  | .agent x => x.attributes.fields.map (·.2)
  | .list c => c.items.toList
  | .map c => c.entries.flatMap fun e => [e.1, e.2]
  | .matrix c => c.cells.toList
  | .graph c => c.vertices ++ c.edges.flatMap fun e => [e.source, e.target]

/-- Changes the values in an object. -/
def mapValues (f : Value → Value) : Object → Object
  | .agent x => .agent { x with attributes := ⟨x.attributes.fields.map fun a => (a.1, f a.2)⟩ }
  | .list c => .list { c with items := c.items.map f }
  | .map c => .map { c with entries := c.entries.map fun e => (f e.1, f e.2) }
  | .matrix c => .matrix { c with cells := c.cells.map f }
  | .graph c =>
    .graph ⟨c.vertices.map f, c.edges.map fun e => ⟨f e.source, f e.target, e.weight⟩⟩

theorem mapValues_congr {f g : Value → Value} {o : Object} (h : ∀ v ∈ o.values, f v = g v) :
    o.mapValues f = o.mapValues g := by
  cases o with
  | agent x =>
    have hfields : x.attributes.fields.map (fun a => (a.1, f a.2)) =
        x.attributes.fields.map fun a => (a.1, g a.2) :=
      List.map_congr_left fun a ha => by rw [h a.2 (List.mem_map_of_mem ha)]
    rw [mapValues, mapValues, hfields]
  | list c =>
    have hitems : c.items.map f = c.items.map g :=
      Array.map_congr_left fun v hv => h v (Array.mem_toList_iff.mpr hv)
    rw [mapValues, mapValues, hitems]
  | map c =>
    have hentries : c.entries.map (fun e => (f e.1, f e.2)) =
        c.entries.map fun e => (g e.1, g e.2) :=
      List.map_congr_left fun e he => by
        rw [h e.1 (List.mem_flatMap.mpr ⟨e, he, by simp⟩),
          h e.2 (List.mem_flatMap.mpr ⟨e, he, by simp⟩)]
    rw [mapValues, mapValues, hentries]
  | matrix c =>
    have hcells : c.cells.map f = c.cells.map g :=
      Array.map_congr_left fun v hv => h v (Array.mem_toList_iff.mpr hv)
    rw [mapValues, mapValues, hcells]
  | graph c =>
    have hvertices : c.vertices.map f = c.vertices.map g :=
      List.map_congr_left fun v hv => h v (List.mem_append_left _ hv)
    have hedges : c.edges.map (fun e => (⟨f e.source, f e.target, e.weight⟩ : Edge)) =
        c.edges.map fun e => ⟨g e.source, g e.target, e.weight⟩ :=
      List.map_congr_left fun e he => by
        rw [h e.source (List.mem_append_right _ (List.mem_flatMap.mpr ⟨e, he, by simp⟩)),
          h e.target (List.mem_append_right _ (List.mem_flatMap.mpr ⟨e, he, by simp⟩))]
    rw [mapValues, mapValues, hvertices, hedges]

theorem mapValues_mapValues (f g : Value → Value) (o : Object) :
    (o.mapValues f).mapValues g = o.mapValues fun v => g (f v) := by
  cases o <;> simp [mapValues, Function.comp_def]

theorem mapValues_id (o : Object) : o.mapValues (fun v => v) = o := by
  cases o <;> simp [mapValues]

def renumber (ρ : Renumbering) (o : Object) : Object := o.mapValues (·.renumber ρ)

/-- The object refers to no containers but the first `n`. -/
def Within (n : Store.Kind → Nat) (o : Object) : Prop := ∀ v ∈ o.values, v.Within n

instance (n : Store.Kind → Nat) (o : Object) : Decidable (o.Within n) :=
  inferInstanceAs (Decidable (∀ v ∈ o.values, v.Within n))

theorem renumber_congr {n : Store.Kind → Nat} {ρ ρ' : Renumbering}
    (h : ∀ k i, i < n k → ρ k i = ρ' k i) {o : Object} (ho : o.Within n) :
    o.renumber ρ = o.renumber ρ' :=
  mapValues_congr fun v hv => Value.renumber_congr h (ho v hv)

theorem renumber_renumber (ρ ρ' : Renumbering) (o : Object) :
    (o.renumber ρ).renumber ρ' = o.renumber fun k i => ρ' k (ρ k i) := by
  simp only [renumber, mapValues_mapValues, Value.renumber_renumber]

theorem renumber_of_fixed {n : Store.Kind → Nat} {ρ : Renumbering}
    (h : ∀ k i, i < n k → ρ k i = i) {o : Object} (ho : o.Within n) : o.renumber ρ = o := by
  rw [renumber_congr h ho, renumber]
  simp only [Value.renumber_id, mapValues_id]

end Object

/-! ## Places -/

/-- Where an object is found. -/
inductive Place where
  | agent (id : Nat)
  | container (k : Store.Kind) (i : Nat)
  deriving DecidableEq

namespace Place

/-- After the first `n` containers. -/
def IsNew (n : Store.Kind → Nat) : Place → Prop
  | .agent _ => False
  | .container k i => n k ≤ i

def renumber (ρ : Renumbering) : Place → Place
  | .agent id => .agent id
  | .container k i => .container k (ρ k i)

theorem renumber_of_fixed {n : Store.Kind → Nat} {ρ : Renumbering}
    (h : ∀ k i, i < n k → ρ k i = i) {p : Place} (hp : ¬p.IsNew n) : p.renumber ρ = p := by
  cases p with
  | agent id => rfl
  | container k i => rw [renumber, h k i (Nat.not_le.mp hp)]

theorem not_isNew_mono {n n' : Store.Kind → Nat} (h : ∀ k, n k ≤ n' k) {p : Place}
    (hp : ¬p.IsNew n) : ¬p.IsNew n' := by
  cases p with
  | agent id => exact hp
  | container k i => exact fun hi => hp (Nat.le_trans (h k) hi)

end Place

namespace Machine

def extent (m : Machine) : Store.Kind → Nat := m.store.extent

/-- What is at a place. -/
def object? (m : Machine) : Place → Option Object
  | .agent id => (m.world.agents.get? id).map .agent
  | .container .list i => (m.store.lists.get? i).map .list
  | .container .map i => (m.store.maps.get? i).map .map
  | .container .matrix i => (m.store.matrices.get? i).map .matrix
  | .container .graph i => (m.store.graphs.get? i).map .graph

/-- Everything but the objects, the events and what is held. -/
def setting (m : Machine) : Machine :=
  { m with world := { m.world with agents := .empty }, store := .empty, events := [], held := [] }

/-- Every reference finds its container. -/
def Closed (m : Machine) : Prop := ∀ p o, m.object? p = some o → o.Within m.extent

/-- All objects. -/
def objects (m : Machine) : List Object :=
  m.world.agents.cells.toList.map .agent ++ m.store.lists.cells.toList.map .list ++
    m.store.maps.cells.toList.map .map ++ m.store.matrices.cells.toList.map .matrix ++
    m.store.graphs.cells.toList.map .graph

theorem mem_objects {m : Machine} {p : Place} {o : Object} (h : m.object? p = some o) :
    o ∈ m.objects := by
  have hcell {α : Type} {f : α → Object} {cells : Array α} {i : Nat}
      (h : cells[i]?.map f = some o) : o ∈ cells.toList.map f := by
    obtain ⟨c, hc, rfl⟩ := Option.map_eq_some_iff.mp h
    exact List.mem_map_of_mem (Array.mem_toList_iff.mpr (Array.mem_of_getElem? hc))
  unfold objects
  cases p with
  | agent id => simp only [List.mem_append, hcell h, true_or]
  | container k i => cases k <;> simp only [List.mem_append, hcell h, true_or, or_true]

theorem closed_of_objects {m : Machine} (h : ∀ o ∈ m.objects, o.Within m.extent) : m.Closed :=
  fun _ o ho => h o (mem_objects ho)

/-- Two machines that differ in the numbers of their containers, and beside these at most in the
events and in what is held. -/
structure Renumbered (ρ : Renumbering) (m m' : Machine) : Prop where
  setting : m'.setting = m.setting
  extent : m'.extent = m.extent
  within : ∀ k i, i < m.extent k → ρ k i < m'.extent k
  injective : ∀ k i j, i < m.extent k → j < m.extent k → ρ k i = ρ k j → i = j
  objects : ∀ p, ¬p.IsNew m.extent →
    m'.object? (p.renumber ρ) = (m.object? p).map (·.renumber ρ)

/-- Nothing has to be renumbered. -/
theorem Renumbered.refl {m : Machine} (hm : m.Closed) : Renumbered (fun _ i => i) m m where
  setting := rfl
  extent := rfl
  within _ _ h := h
  injective _ _ _ _ _ h := h
  objects p hp := by
    rw [Place.renumber_of_fixed (fun _ _ _ => rfl) hp]
    cases h : m.object? p with
    | none => rfl
    | some o => rw [Option.map_some, Object.renumber_of_fixed (fun _ _ _ => rfl) (hm p o h)]

end Machine

/-! ## Blocks

Agents that make containers one after another get blocks of numbers, in their order. -/

/-- How much all blocks take. -/
def total (w : AgentRef → Nat) : List AgentRef → Nat
  | [] => 0
  | b :: rest => w b + total w rest

/-- How much lies before the block of an agent, if the blocks stand in this order. -/
def offset (w : AgentRef → Nat) : List AgentRef → Nat → Nat
  | [], _ => 0
  | b :: rest, id => if b.id = id then 0 else w b + offset w rest id

/-- The block that a number falls into, and where in there. -/
def locate (w : AgentRef → Nat) : List AgentRef → Nat → Option (AgentRef × Nat)
  | [], _ => none
  | b :: rest, i => if i < w b then some (b, i) else locate w rest (i - w b)

section
variable {w : AgentRef → Nat}

theorem total_append_singleton (before : List AgentRef) (a : AgentRef) :
    total w (before ++ [a]) = total w before + w a := by
  induction before with
  | nil => exact Nat.add_comm (w a) 0
  | cons b before ih => rw [List.cons_append, total, total, ih, Nat.add_assoc]

theorem total_perm {order order' : List AgentRef} (h : order.Perm order') :
    total w order = total w order' := by
  induction h with
  | nil => rfl
  | cons a _ ih => rw [total, total, ih]
  | swap a b rest => exact Nat.add_left_comm (w b) (w a) (total w rest)
  | trans _ _ h h' => exact h.trans h'

theorem offset_append_cons {before : List AgentRef} {a : AgentRef}
    (h : a.id ∉ before.map (·.id)) (rest : List AgentRef) :
    offset w (before ++ a :: rest) a.id = total w before := by
  induction before with
  | nil => exact if_pos rfl
  | cons b before ih =>
    rw [List.map_cons, List.mem_cons, not_or] at h
    rw [List.cons_append, offset, if_neg (Ne.symm h.1), ih h.2, total]

theorem offset_cons_of_mem {b c : AgentRef} {rest : List AgentRef}
    (hnodup : ((c :: rest).map (·.id)).Nodup) (hb : b ∈ rest) :
    offset w (c :: rest) b.id = w c + offset w rest b.id := by
  rw [List.map_cons, List.nodup_cons] at hnodup
  have hne : c.id ≠ b.id := fun h => hnodup.1 (h ▸ List.mem_map_of_mem hb)
  exact if_neg hne

theorem locate_offset {order : List AgentRef} (hnodup : (order.map (·.id)).Nodup) {b : AgentRef}
    (hb : b ∈ order) {j : Nat} (hj : j < w b) :
    locate w order (offset w order b.id + j) = some (b, j) := by
  induction order with
  | nil => cases hb
  | cons c rest ih =>
    rcases List.mem_cons.mp hb with rfl | hb
    · rw [offset, if_pos rfl, Nat.zero_add, locate, if_pos hj]
    · rw [offset_cons_of_mem hnodup hb, locate, if_neg (by omega), Nat.add_assoc,
        Nat.add_sub_cancel_left, ih (List.nodup_cons.mp hnodup).2 hb]

theorem exists_locate {order : List AgentRef} (hnodup : (order.map (·.id)).Nodup) {i : Nat}
    (hi : i < total w order) :
    ∃ b ∈ order, ∃ j < w b, i = offset w order b.id + j := by
  induction order generalizing i with
  | nil => exact absurd hi (Nat.not_lt_zero i)
  | cons c rest ih =>
    by_cases hc : i < w c
    · exact ⟨c, List.mem_cons_self, i, hc, by rw [offset, if_pos rfl, Nat.zero_add]⟩
    · rw [total] at hi
      obtain ⟨b, hb, j, hj, h⟩ := ih (List.nodup_cons.mp hnodup).2 (i := i - w c) (by omega)
      refine ⟨b, List.mem_cons_of_mem c hb, j, hj, ?_⟩
      rw [offset_cons_of_mem hnodup hb]
      omega

theorem offset_add_le {order : List AgentRef} (hnodup : (order.map (·.id)).Nodup) {b : AgentRef}
    (hb : b ∈ order) : offset w order b.id + w b ≤ total w order := by
  induction order with
  | nil => cases hb
  | cons c rest ih =>
    rw [total]
    rcases List.mem_cons.mp hb with rfl | hb
    · rw [offset, if_pos rfl]
      omega
    · have := ih (List.nodup_cons.mp hnodup).2 hb
      rw [offset_cons_of_mem hnodup hb]
      omega

end

/-- The blocks after the first `n` containers are put into another order. -/
def Renumbering.rearrange (n : Store.Kind → Nat) (w : AgentRef → Store.Kind → Nat)
    (order order' : List AgentRef) : Renumbering := fun k i =>
  if i < n k then i else
  match locate (w · k) order (i - n k) with
  | some (b, j) => n k + offset (w · k) order' b.id + j
  | none => i

namespace Renumbering
variable {n : Store.Kind → Nat} {w : AgentRef → Store.Kind → Nat} {order order' : List AgentRef}

theorem rearrange_of_lt {k : Store.Kind} {i : Nat} (h : i < n k) :
    rearrange n w order order' k i = i := if_pos h

theorem rearrange_block (hnodup : (order.map (·.id)).Nodup) {b : AgentRef} (hb : b ∈ order)
    {k : Store.Kind} {j : Nat} (hj : j < w b k) :
    rearrange n w order order' k (n k + offset (w · k) order b.id + j) =
      n k + offset (w · k) order' b.id + j := by
  have hlocate := locate_offset (w := (w · k)) hnodup hb hj
  unfold rearrange
  rw [if_neg (by omega), show n k + offset (w · k) order b.id + j - n k =
    offset (w · k) order b.id + j by omega, hlocate]

/-- A number is an old one, or it lies in the block of an agent. -/
theorem block_cases (hnodup : (order.map (·.id)).Nodup) {k : Store.Kind} {i : Nat}
    (hi : i < n k + total (w · k) order) :
    i < n k ∨ ∃ b ∈ order, ∃ j < w b k, i = n k + offset (w · k) order b.id + j := by
  by_cases hold : i < n k
  · exact .inl hold
  · obtain ⟨b, hb, j, hj, h⟩ :=
      exists_locate (w := (w · k)) hnodup (i := i - n k) (by omega)
    exact .inr ⟨b, hb, j, hj, by omega⟩

theorem rearrange_within (hnodup : (order.map (·.id)).Nodup) (hperm : order.Perm order')
    {k : Store.Kind} {i : Nat} (hi : i < n k + total (w · k) order) :
    rearrange n w order order' k i < n k + total (w · k) order' := by
  have hnodup' : (order'.map (·.id)).Nodup := (hperm.map _).nodup_iff.mp hnodup
  rcases block_cases hnodup hi with hold | ⟨b, hb, j, hj, rfl⟩
  · rw [rearrange_of_lt hold]
    omega
  · have := offset_add_le (w := (w · k)) hnodup' (hperm.mem_iff.mp hb)
    rw [rearrange_block hnodup hb hj]
    omega

theorem rearrange_injective (hnodup : (order.map (·.id)).Nodup) (hperm : order.Perm order')
    {k : Store.Kind} {i i' : Nat} (hi : i < n k + total (w · k) order)
    (hi' : i' < n k + total (w · k) order)
    (h : rearrange n w order order' k i = rearrange n w order order' k i') : i = i' := by
  have hnodup' : (order'.map (·.id)).Nodup := (hperm.map _).nodup_iff.mp hnodup
  rcases block_cases hnodup hi with hold | ⟨b, hb, j, hj, rfl⟩ <;>
    rcases block_cases hnodup hi' with hold' | ⟨c, hc, j', hj', rfl⟩
  · rwa [rearrange_of_lt hold, rearrange_of_lt hold'] at h
  · rw [rearrange_of_lt hold, rearrange_block hnodup hc hj'] at h
    omega
  · rw [rearrange_of_lt hold', rearrange_block hnodup hb hj] at h
    omega
  · rw [rearrange_block hnodup hb hj, rearrange_block hnodup hc hj'] at h
    -- Both lie at one place in the other order, which belongs to one block.
    have hb' := locate_offset (w := (w · k)) hnodup' (hperm.mem_iff.mp hb) hj
    have hc' := locate_offset (w := (w · k)) hnodup' (hperm.mem_iff.mp hc) hj'
    rw [show offset (w · k) order' b.id + j = offset (w · k) order' c.id + j' by omega,
      hc'] at hb'
    obtain ⟨rfl, rfl⟩ := Prod.mk.inj (Option.some.inj hb')
    rfl

end Renumbering

end Habitat

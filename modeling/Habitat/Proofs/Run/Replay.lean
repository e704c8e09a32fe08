import Habitat.Proofs.Run.Containment
import Habitat.Proofs.Run.Estates
import Habitat.Proofs.Run.Footprint

/-!
# The same turn, later

A turn is taken twice: once from the state before a dispatch, and once from a state that looks the
same to its target. As long as the first run accesses nothing but what the target is permitted,
the second one does the same step by step (`Replay.Tracks`): the frames hold the same values, the
objects of the target and the new ones are the same, and everything else stays as it was. Only the
new containers have other numbers.

`Replay.Mimics` says that of a step with its log. Here it is defined, and shown what the states have
in common: a permitted read has one answer in both, and a permitted write keeps them together.

* `Replay.TracksMachine.shadows`, `Replay.TracksMachine.write`: reads and writes.
* `Replay.TracksMachine.make`: new containers.
-/
namespace Habitat

open Exec

/-! ## Values inside of results -/

/-- Results that may refer to containers. -/
class Carries (α : Type) where
  values : α → List Value
  renumber : Renumbering → α → α

namespace Carries
variable {α : Type}

/-- Other results refer to none. -/
instance (priority := low) plain : Carries α := ⟨fun _ => [], fun _ a => a⟩

instance value : Carries Value := ⟨fun v => [v], Value.renumber⟩

instance option : Carries (Option Value) := ⟨Option.toList, fun ρ v => v.map (·.renumber ρ)⟩

instance list : Carries (List Value) := ⟨id, fun ρ vs => vs.map (·.renumber ρ)⟩

instance visited : Carries (Value × Bool) := ⟨fun r => [r.1], fun ρ r => (r.1.renumber ρ, r.2)⟩

instance fields : Carries (List (String × Value)) :=
  ⟨List.map (·.2), fun ρ vs => vs.map fun v => (v.1, v.2.renumber ρ)⟩

instance entries : Carries (List (Value × Value)) :=
  ⟨List.flatMap fun e => [e.1, e.2], fun ρ es => es.map fun e => (e.1.renumber ρ, e.2.renumber ρ)⟩

instance payload : Carries Payload where
  values
    | .missing => []
    | .one v => [v]
    | .many vs => vs
  renumber ρ
    | .missing => .missing
    | .one v => .one (v.renumber ρ)
    | .many vs => .many (vs.map (·.renumber ρ))

instance remote : Carries RemoteResult :=
  ⟨fun r => [r.value], fun ρ r => ⟨r.value.renumber ρ, r.passed⟩⟩

instance remotes : Carries (List RemoteResult) :=
  ⟨List.map (·.value), fun ρ rs => rs.map (renumber ρ)⟩

instance caught [Carries α] : Carries (Except ExecError α) where
  values
    | .ok a => values a
    | .error _ => []
  renumber ρ r := r.map (renumber ρ)

instance outcomes : Carries (List (Except ExecError RemoteResult)) :=
  ⟨List.flatMap values, fun ρ rs => rs.map (renumber ρ)⟩

section
variable (a : α) (v : Value) (vs : List Value)

@[simp] theorem values_plain : @values α plain a = [] := rfl

@[simp] theorem values_value : values v = [v] := rfl

@[simp] theorem values_option (v : Option Value) : values v = v.toList := rfl

@[simp] theorem values_list : values vs = vs := rfl

@[simp] theorem values_visited (r : Value × Bool) : values r = [r.1] := rfl

@[simp] theorem values_fields (fields : List (String × Value)) :
    values fields = fields.map (·.2) := rfl

@[simp] theorem values_entries (es : List (Value × Value)) :
    values es = es.flatMap fun e => [e.1, e.2] := rfl

@[simp] theorem values_missing : values Payload.missing = [] := rfl

@[simp] theorem values_one : values (Payload.one v) = [v] := rfl

@[simp] theorem values_many : values (Payload.many vs) = vs := rfl

@[simp] theorem values_remote (r : RemoteResult) : values r = [r.value] := rfl

@[simp] theorem values_remotes (rs : List RemoteResult) :
    values rs = rs.map (·.value) := rfl

@[simp] theorem values_ok [Carries α] :
    values (Except.ok a : Except ExecError α) = values a := rfl

@[simp] theorem values_error [Carries α] (e : ExecError) :
    values (Except.error e : Except ExecError α) = [] := rfl

@[simp] theorem values_outcomes (rs : List (Except ExecError RemoteResult)) :
    values rs = rs.flatMap values := rfl

end
end Carries

namespace Frame

def renumber (ρ : Renumbering) (f : Frame) : Frame :=
  { f with vars := f.vars.map fun v => (v.1, v.2.renumber ρ) }

variable {ρ : Renumbering} {n : Store.Kind → Nat}

theorem get?_renumber (f : Frame) (name : String) :
    (f.renumber ρ).get? name = (f.get? name).map (·.renumber ρ) :=
  Record.get?_renumber ⟨f.vars⟩ name

theorem declare_renumber (f : Frame) (name : String) (v : Value) :
    (f.renumber ρ).declare name (v.renumber ρ) = (f.declare name v).renumber ρ := by
  have hput (vars : List (String × Value)) :
      putVar name (v.renumber ρ) (vars.map fun w => (w.1, w.2.renumber ρ)) =
        (putVar name v vars).map fun w => (w.1, w.2.renumber ρ) := by
    induction vars with
    | nil => rfl
    | cons w rest ih =>
      rw [List.map_cons, putVar, putVar]
      split
      · rfl
      · rw [List.map_cons, ih]
  simp only [declare, renumber, hput]

theorem within_putVar {vars : List (String × Value)} (hvars : ∀ w ∈ vars, w.2.Within n)
    {name : String} {v : Value} (hv : v.Within n) : ∀ w ∈ putVar name v vars, w.2.Within n := by
  induction vars with
  | nil => exact List.forall_mem_singleton.mpr hv
  | cons w rest ih =>
    rw [List.forall_mem_cons] at hvars
    unfold putVar
    split
    · exact List.forall_mem_cons.mpr ⟨hv, hvars.2⟩
    · exact List.forall_mem_cons.mpr ⟨hvars.1, ih hvars.2⟩

end Frame

namespace Scope
variable {ρ : Renumbering} {n : Store.Kind → Nat} {name : String} {v : Value}

theorem assignIn_renumber (fs : List Frame) :
    assignIn name (v.renumber ρ) (fs.map (·.renumber ρ)) =
      (assignIn name v fs).map (List.map (·.renumber ρ)) := by
  induction fs with
  | nil => rfl
  | cons f rest ih =>
    rw [List.map_cons, assignIn, assignIn, Frame.get?_renumber, Option.isSome_map, ih]
    split
    · rw [Frame.declare_renumber]
      rfl
    · cases assignIn name v rest <;> rfl

theorem within_assignIn {fs gs : List Frame} (h : assignIn name v fs = some gs)
    (hfs : ∀ f ∈ fs, ∀ w ∈ f.vars, w.2.Within n) (hv : v.Within n) :
    ∀ f ∈ gs, ∀ w ∈ f.vars, w.2.Within n := by
  induction fs generalizing gs with
  | nil => cases h
  | cons f rest ih =>
    rw [List.forall_mem_cons] at hfs
    unfold assignIn at h
    split at h
    · obtain rfl := Option.some.inj h
      exact List.forall_mem_cons.mpr ⟨Frame.within_putVar hfs.1 hv, hfs.2⟩
    · obtain ⟨hs, hassign, rfl⟩ := Option.map_eq_some_iff.mp h
      exact List.forall_mem_cons.mpr ⟨hfs.1, ih hassign hfs.2⟩

end Scope

/-! ## Replays -/

/-- A state before a dispatch, one of its targets, and a state that looks the same to it. -/
structure Replay (targets : List AgentRef) (s : State) where
  estates : Estates targets s
  target : AgentRef
  mem : target ∈ targets
  other : State
  closed : s.machine.Closed
  alike : estates.Alike target other

variable {targets : List AgentRef} {s : State}

namespace Replay
variable (K : Replay targets s)

/-- The numbers that the new containers have in the replay. -/
abbrev numbers : Renumbering := .shift s.machine.extent K.other.machine.extent

abbrev Permits (c : Access) : Prop := K.estates.Permits K.target c

/-- The target may read and write the object as it likes. -/
def Mine (p : Place) : Prop := K.estates.owns K.target p ∨ p.IsNew s.machine.extent

/-- Two scopes with the same frames, agents, signal and `try` blocks; once a statement has
completed, also with the same last value. -/
structure TracksScope (recent : Bool) (n : Store.Kind → Nat) (σ σ' : Scope) : Prop where
  frames : σ'.frames = σ.frames.map (·.renumber K.numbers)
  agents : σ'.agents = σ.agents
  flow : σ'.flow = σ.flow
  tryDepth : σ'.tryDepth = σ.tryDepth
  within : ∀ f ∈ σ.frames, ∀ v ∈ f.vars, v.2.Within n
  last : recent = true → σ'.lastValue = σ.lastValue.renumber K.numbers ∧ σ.lastValue.Within n

/-- Two machines with the same objects of the target and the same new ones, in which nothing else
has changed. -/
structure TracksMachine (m m' : Machine) : Prop where
  outline : m.outline = s.machine.outline
  outline' : m'.outline = s.machine.outline
  extent : ∀ k, s.machine.extent k ≤ m.extent k
  extent' : ∀ k, m'.extent k = K.numbers k (m.extent k)
  closed : ∀ p, (m.objectAt p).Within m.extent
  mine : ∀ p, K.Mine p → m'.objectAt (p.renumber K.numbers) = (m.objectAt p).renumber K.numbers
  kept : ∀ p, ¬p.IsNew s.machine.extent → ¬K.estates.owns K.target p →
    m.objectAt p = s.machine.objectAt p
  kept' : ∀ p, ¬p.IsNew K.other.machine.extent → ¬K.estates.owns K.target p →
    m'.objectAt p = K.other.machine.objectAt p
  stays : ∀ c, K.estates.stays c → ¬c.place.IsNew s.machine.extent →
    c.Same s.machine m ∧ c.Same s.machine m'
  reports : ∃ new, m.reports = s.machine.reports ++ new ∧
    m'.reports = K.other.machine.reports ++ new

/-- The replay is where the run is. -/
structure Tracks (recent : Bool) (t t' : State) : Prop where
  scope : K.TracksScope recent t.machine.extent t.scope t'.scope
  machine : K.TracksMachine t.machine t'.machine

/-- A step of the replay ends like the one of the run. -/
inductive Agrees {α : Type} [Carries α] (recent : Bool) (n : Store.Kind → Nat) :
    EStateM.Result Fault State α → EStateM.Result Fault State α → Prop
  | ok {a : α} {t t' : State} (within : ∀ v ∈ Carries.values a, v.Within t.machine.extent)
      (grown : ∀ k, n k ≤ t.machine.extent k) (tracks : K.Tracks recent t t') :
      Agrees recent n (.ok a t) (.ok (Carries.renumber K.numbers a) t')
  | error {e : Fault} {t t' : State} (grown : ∀ k, n k ≤ t.machine.extent k)
      (tracks : K.Tracks recent t t') : Agrees recent n (.error e t) (.error e t')

/-- From wherever the run and the replay are, a step `x` of the run that accesses only what the
target is permitted ends like the step `y` of the replay. The step may use the values in `vs`. -/
def Mimics {α : Type} [Carries α] (vs : List Value) (log : Log) (x y : Exec α) : Prop :=
  ∀ recent t t', K.Tracks recent t t' → (∀ v ∈ vs, v.Within t.machine.extent) →
    (∀ c ∈ log t, K.Permits c) → K.Agrees recent t.machine.extent (x t) (y t')

variable {K}

/-! ## Numbers -/

theorem numbers_of_lt {k : Store.Kind} {i : Nat} (h : i < s.machine.extent k) :
    K.numbers k i = i := Renumbering.shift_of_lt h

theorem numbers_mono {k : Store.Kind} {i j : Nat} (h : i < j) : K.numbers k i < K.numbers k j := by
  have := K.alike.extent k
  simp only [numbers, Renumbering.shift]
  split <;> split <;> omega

theorem numbers_injective {k : Store.Kind} {i j : Nat} (h : K.numbers k i = K.numbers k j) :
    i = j := by
  rcases Nat.lt_trichotomy i j with hij | hij | hij
  · exact absurd h (Nat.ne_of_lt (numbers_mono hij))
  · exact hij
  · exact absurd h.symm (Nat.ne_of_lt (numbers_mono hij))

theorem numbers_add_one {k : Store.Kind} {i : Nat} (h : s.machine.extent k ≤ i) :
    K.numbers k (i + 1) = K.numbers k i + 1 := by
  have := K.alike.extent k
  simp only [numbers, Renumbering.shift]
  rw [if_neg (by omega), if_neg (by omega)]
  omega

theorem le_numbers (k : Store.Kind) (i : Nat) : i ≤ K.numbers k i := by
  have := K.alike.extent k
  simp only [numbers, Renumbering.shift]
  split <;> omega

theorem renumber_of_old {p : Place} (h : ¬p.IsNew s.machine.extent) :
    p.renumber K.numbers = p := Place.renumber_of_fixed (fun _ _ => numbers_of_lt) h

theorem cell_of_old {c : Cell} (h : ¬c.place.IsNew s.machine.extent) :
    c.renumber K.numbers = c := by
  cases c with
  | container k i => exact congrArg _ (numbers_of_lt (Nat.not_le.mp h))
  | _ => rfl

/-- What is new in the run is new in the replay. -/
theorem isNew_renumber {p : Place} (h : p.IsNew s.machine.extent) :
    (p.renumber K.numbers).IsNew K.other.machine.extent := by
  cases p with
  | agent id => exact h
  | container k i =>
    obtain ⟨j, rfl⟩ := Nat.exists_eq_add_of_le h
    rw [Place.renumber, numbers, Renumbering.shift_add]
    exact Nat.le_add_right _ j

theorem place_injective {p q : Place} (h : p.renumber K.numbers = q.renumber K.numbers) :
    p = q := by
  cases p <;> cases q <;> simp only [Place.renumber, Place.agent.injEq, Place.container.injEq,
    reduceCtorEq] at h ⊢
  · exact h
  · obtain ⟨rfl, h⟩ := h
    exact ⟨rfl, numbers_injective h⟩

/-! ## Machines -/

section
variable {m m' : Machine}

theorem TracksMachine.start : K.TracksMachine s.machine K.other.machine where
  outline := rfl
  outline' := K.alike.outline
  extent _ := Nat.le_refl _
  extent' k := by simpa using (Renumbering.shift_add _ _ k 0).symm
  closed := K.closed.objectAt
  mine p hp := by
    by_cases hnew : p.IsNew s.machine.extent
    · -- There is nothing yet, in either machine.
      cases p with
      | agent id => exact hnew.elim
      | container k i => exact Machine.objectAt_of_isNew hnew (isNew_renumber hnew) K.numbers
    · have howns := hp.resolve_right hnew
      rw [renumber_of_old hnew, K.alike.seen p hnew (Estates.open_of_owns K.mem howns),
        Object.renumber_of_fixed (fun _ _ => numbers_of_lt) (K.closed.objectAt p)]
  kept _ _ _ := rfl
  kept' _ _ _ := rfl
  stays c hc hold := ⟨Cell.same_of_objectAt rfl, K.alike.stays c hc hold⟩
  reports := ⟨[], by simp⟩

/-- What the target is permitted to read holds the same in the replay. -/
theorem TracksMachine.shadows (h : K.TracksMachine m m') {c : Cell} (hc : K.Permits (.read c)) :
    c.Shadows K.numbers m m' := by
  have hmine (hp : K.Mine c.place) : c.Shadows K.numbers m m' :=
    Cell.shadows_of_objectAt (h.mine c.place hp)
  by_cases hnew : c.place.IsNew s.machine.extent
  · exact hmine (.inr hnew)
  by_cases howns : K.estates.owns K.target c.place
  · exact hmine (.inl howns)
  -- The cell has stayed as it was.
  have hsame : c.Same s.machine m ∧ c.Same s.machine m' := by
    rcases hc with hc | hc | hc
    · exact absurd hc hnew
    · have hseen := K.alike.seen c.place hnew hc
      refine ⟨Cell.same_of_objectAt (h.kept c.place hnew howns), Cell.same_of_objectAt ?_⟩
      rw [h.kept' c.place (Place.not_isNew_mono K.alike.extent hnew) howns, hseen]
    · exact h.stays c hc hnew
  exact hsame.1.shadows hsame.2 (fun _ _ => numbers_of_lt) hnew (K.closed.objectAt c.place)

theorem TracksMachine.size (h : K.TracksMachine m m') :
    m'.world.agents.size = m.world.agents.size :=
  Machine.size_of_outline (h.outline'.trans h.outline.symm)

theorem TracksMachine.extent_le (h : K.TracksMachine m m') (k : Store.Kind) :
    m.extent k ≤ m'.extent k := by
  rw [h.extent' k]
  exact le_numbers k _

/-- The same change of a cell that the target is permitted to write. -/
theorem TracksMachine.write (h : K.TracksMachine m m') {c : Cell} (hc : K.Permits (.write c))
    {n n' : Machine} (hn : m.Differs c n) (hn' : m'.Differs (c.renumber K.numbers) n')
    (hwithin : (n.objectAt c.place).Within m.extent)
    (hobject : n'.objectAt (c.place.renumber K.numbers) =
      (n.objectAt c.place).renumber K.numbers) : K.TracksMachine n n' where
  outline := hn.outline.trans h.outline
  outline' := hn'.outline.trans h.outline'
  extent k := by
    rw [hn.extent k]
    exact h.extent k
  extent' k := by
    rw [hn.extent k, hn'.extent k]
    exact h.extent' k
  closed p := by
    rw [funext hn.extent]
    by_cases hp : p = c.place
    · rw [hp]
      exact hwithin
    · rw [hn.places p hp]
      exact h.closed p
  mine p hp := by
    by_cases hplace : p = c.place
    · rw [hplace]
      exact hobject
    · have hne : p.renumber K.numbers ≠ (c.renumber K.numbers).place := by
        rw [Cell.place_renumber]
        exact fun heq => hplace (place_injective heq)
      rw [hn.places p hplace, hn'.places _ hne]
      exact h.mine p hp
  kept p hp howns := by
    have hne : p ≠ c.place := by
      rintro rfl
      rcases hc with hnew | hmine
      · exact hp hnew
      · exact howns hmine.1
    rw [hn.places p hne]
    exact h.kept p hp howns
  kept' p hp howns := by
    have hne : p ≠ (c.renumber K.numbers).place := by
      rw [Cell.place_renumber]
      rintro rfl
      rcases hc with hnew | hmine
      · exact hp (isNew_renumber hnew)
      · rw [renumber_of_old (K.estates.old K.target K.mem _ hmine.1)] at howns
        exact howns hmine.1
    rw [hn'.places p hne]
    exact h.kept' p hp howns
  stays d hd hold := by
    have hne : d ≠ c := by
      rintro rfl
      rcases hc with hnew | hmine
      · exact hold hnew
      · exact hmine.2 hd
    have hne' : d ≠ c.renumber K.numbers := by
      rintro rfl
      rcases hc with hnew | hmine
      · rw [Cell.place_renumber] at hold
        exact Place.not_isNew_mono K.alike.extent hold (isNew_renumber hnew)
      · rw [cell_of_old (K.estates.old K.target K.mem _ hmine.1)] at hd
        exact hmine.2 hd
    obtain ⟨hs, hs'⟩ := h.stays d hd hold
    exact ⟨hs.trans (hn.cells d hne), hs'.trans (hn'.cells d hne')⟩
  reports := by
    rw [hn.reports, hn'.reports]
    exact h.reports

/-- A new container with the same contents. -/
theorem TracksMachine.make (h : K.TracksMachine m m') {k : Store.Kind} {o : Object}
    {made made' : Value × Store} (hmade : m.store.Makes k o made)
    (hmade' : m'.store.Makes k (o.renumber K.numbers) made') (ho : o.Within m.extent) :
    K.TracksMachine { m with store := made.2 } { m' with store := made'.2 } where
  outline := h.outline
  outline' := h.outline'
  extent k' := Nat.le_trans (h.extent k') (hmade.extent_le k')
  extent' k' := by
    have hnumber := h.extent' k'
    simp only [Machine.extent, hmade.extent, hmade'.extent] at hnumber ⊢
    split
    · subst k'
      exact (congrArg (· + 1) hnumber).trans (numbers_add_one (h.extent k)).symm
    · exact hnumber
  closed p := by
    rw [hmade.objectAt p]
    split
    · exact ho.mono hmade.extent_le
    · exact (h.closed p).mono hmade.extent_le
  mine p hp := by
    rw [hmade.objectAt p, hmade'.objectAt, h.extent' k]
    by_cases hplace : p = .container k (m.extent k)
    · rw [if_pos hplace, if_pos (by rw [hplace]; rfl)]
    · have hne : p.renumber K.numbers ≠ .container k (K.numbers k (m.extent k)) :=
        fun heq => hplace (place_injective heq)
      rw [if_neg hplace, if_neg hne, h.mine p hp]
  kept p hp howns := by
    have hne : p ≠ .container k (m.extent k) := by
      rintro rfl
      exact hp (h.extent k)
    rw [hmade.objectAt p, if_neg hne, h.kept p hp howns]
  kept' p hp howns := by
    have hne : p ≠ .container k (m'.extent k) := by
      rintro rfl
      rw [h.extent' k] at hp
      exact hp (isNew_renumber (p := .container k (m.extent k)) (h.extent k))
    rw [hmade'.objectAt p, if_neg hne, h.kept' p hp howns]
  stays c hc hold := by
    have hne : c.place ≠ .container k (m.extent k) := by
      intro heq
      rw [heq] at hold
      exact hold (h.extent k)
    have hne' : c.place ≠ .container k (m'.extent k) := by
      intro heq
      rw [heq] at hold
      exact hold (Nat.le_trans (h.extent k) (h.extent_le k))
    obtain ⟨hs, hs'⟩ := h.stays c hc hold
    refine ⟨hs.trans (Cell.same_of_objectAt ?_), hs'.trans (Cell.same_of_objectAt ?_)⟩
    · rw [hmade.objectAt, if_neg hne]
    · rw [hmade'.objectAt, if_neg hne']
  reports := h.reports

/-- The same change of the target's own agents. -/
theorem TracksMachine.update (h : K.TracksMachine m m') {c : Cell} {a : AgentRef}
    {f f' : Agent → Agent}
    (hplace : c.place = .agent a.id) (hc : K.Permits (.write c))
    (hn : m.Differs c { m with world := m.world.update a f })
    (hn' : m'.Differs (c.renumber K.numbers) { m' with world := m'.world.update a f' })
    (hwithin : ∀ x, (Object.agent x).Within m.extent → (Object.agent (f x)).Within m.extent)
    (hf : ∀ x, f' (x.renumber K.numbers) = (f x).renumber K.numbers) :
    K.TracksMachine { m with world := m.world.update a f }
      { m' with world := m'.world.update a f' } := by
  have hmine : K.Mine (.agent a.id) := hplace ▸ hc.elim .inr fun hc => .inl hc.1
  have hagent : m'.world.agents.get a.id = (m.world.agents.get a.id).renumber K.numbers :=
    Object.agent.inj (h.mine _ hmine)
  refine h.write hc hn hn' ?_ ?_
  · rw [hplace, Machine.objectAt_update]
    split
    · exact hwithin _ (h.closed (.agent a.id))
    · exact h.closed (.agent a.id)
  · rw [hplace, Place.renumber, Machine.objectAt_update, Machine.objectAt_update, h.size, hagent,
      hf]
    split <;> rfl

/-- The same new value of an attribute. -/
theorem TracksMachine.setAttribute (h : K.TracksMachine m m') {a : AgentRef} {name : String}
    (hc : K.Permits (.write (.attr a.id name))) {v : Value} (hv : v.Within m.extent) :
    K.TracksMachine { m with world := m.world.setAttribute a name v }
      { m' with world := m'.world.setAttribute a name (v.renumber K.numbers) } := by
  refine h.update rfl hc (Machine.differs_setAttribute a name v)
    (Machine.differs_setAttribute a name (v.renumber K.numbers)) (fun x hx u hu => ?_) fun x => ?_
  · obtain ⟨field, hfield, rfl⟩ := List.mem_map.mp hu
    rcases Record.mem_insertField hfield with rfl | hold
    · exact hv
    · exact hx _ (List.mem_map_of_mem hold)
  · exact congrArg (fun r => { x with attributes := r }) (x.attributes.insert_renumber name v)

theorem TracksMachine.kill (h : K.TracksMachine m m') {a : AgentRef}
    (hc : K.Permits (.write (.life a.id))) :
    K.TracksMachine { m with world := m.world.kill a } { m' with world := m'.world.kill a } :=
  h.update rfl hc (Machine.differs_kill a) (Machine.differs_kill a) (fun _ hx => hx) fun _ => rfl

/-- What is held, and events that are no reports, do not matter. -/
theorem TracksMachine.aside (h : K.TracksMachine m m') {events events' : List Event}
    {held held' : List (List Value)}
    (hm : ({ m with events := events, held := held } : Machine).reports = m.reports)
    (hm' : ({ m' with events := events', held := held' } : Machine).reports = m'.reports) :
    K.TracksMachine { m with events := events, held := held }
      { m' with events := events', held := held' } :=
  ⟨h.outline, h.outline', h.extent, h.extent', h.closed, h.mine, h.kept, h.kept', h.stays,
    by rw [hm, hm']; exact h.reports⟩

/-- The same report. -/
theorem TracksMachine.report (h : K.TracksMachine m m') (r : Report) :
    K.TracksMachine (m.emit (.report r)) (m'.emit (.report r)) := by
  refine ⟨h.outline, h.outline', h.extent, h.extent', h.closed, h.mine, h.kept, h.kept', h.stays,
    ?_⟩
  obtain ⟨new, hnew, hnew'⟩ := h.reports
  refine ⟨new ++ [r], ?_, ?_⟩
  · rw [Machine.reports_emit_report, hnew, List.append_assoc]
  · rw [Machine.reports_emit_report, hnew', List.append_assoc]

/-! ## Looking around -/

/-- To the target the containers of the run and of the replay look alike. -/
theorem TracksMachine.store (h : K.TracksMachine m m') :
    Store.Mirrors K.Permits K.numbers m.store m'.store where
  cell k i hp := h.shadows hp
  size_le := by
    have hlists := h.extent_le .list
    have hmaps := h.extent_le .map
    have hmatrices := h.extent_le .matrix
    have hgraphs := h.extent_le .graph
    simp only [Machine.extent, Store.extent] at hlists hmaps hmatrices hgraphs
    unfold Store.size
    omega
  injective _ _ _ := numbers_injective
  ends := id

/-- To the target the agents of the run and of the replay look alike. -/
theorem TracksMachine.world (h : K.TracksMachine m m') :
    World.Resembles K.Permits m.world m'.world where
  outline := Machine.world_outline (h.outline'.trans h.outline.symm)
  dead _ hp := h.shadows hp
  ends := id
  alone := id

theorem TracksMachine.attribute? (h : K.TracksMachine m m') {a : AgentRef} {name : String}
    (hp : K.Permits (.read (.attr a.id name))) :
    m'.world.attribute? a name = (m.world.attribute? a name).map (·.renumber K.numbers) :=
  h.shadows hp

/-- The same change of a container. -/
theorem TracksMachine.mutate (h : K.TracksMachine m m') {mutation : Mutation}
    (hc : ∀ c ∈ changeLog mutation ⟨s.scope, m⟩, K.Permits c)
    (htarget : mutation.target.Within m.extent)
    (hv : ∀ v ∈ mutation.values m.store, v.Within m.extent) :
    K.TracksMachine { m with store := m.store.mutate mutation }
      { m' with store := m'.store.mutate (mutation.renumber K.numbers) } := by
  have hrenumber : (mutation.renumber K.numbers).target = mutation.target.renumber K.numbers := by
    cases mutation <;> rfl
  have htarget' := Store.container?_renumber (ρ := K.numbers) mutation.target
  rw [← hrenumber] at htarget'
  cases hr : mutation.target.container? with
  | none =>
    rw [hr] at htarget'
    rw [Store.mutate_of_none hr, Store.mutate_of_none htarget']
    exact h
  | some r =>
    rw [hr] at htarget'
    rw [changeLog, List.forall_mem_append, hr] at hc
    have hlt : r.2 < m.extent r.1 := htarget.lt hr
    have hlt' : K.numbers r.1 r.2 < m'.extent r.1 := by
      rw [h.extent' r.1]
      exact numbers_mono hlt
    refine h.write (hc.1 _ List.mem_cons_self) (Machine.differs_mutate hr)
      (Machine.differs_mutate htarget') ?_ ?_
    · exact Store.forall_mutate (fun _ _ => id) (h.closed (.container r.1 r.2)) hv
    · exact h.store.mutate_cell hc.2 hr hlt hlt'

end

/-! ## Scopes -/

section
variable {b : Bool} {n n' : Store.Kind → Nat} {σ σ' : Scope}

theorem TracksScope.mono (h : K.TracksScope b n σ σ') (hn : ∀ k, n k ≤ n' k) :
    K.TracksScope b n' σ σ' :=
  ⟨h.frames, h.agents, h.flow, h.tryDepth, fun f hf v hv => (h.within f hf v hv).mono hn,
    fun hb => ⟨(h.last hb).1, (h.last hb).2.mono hn⟩⟩

theorem TracksScope.weaken (h : K.TracksScope true n σ σ') (b : Bool) : K.TracksScope b n σ σ' :=
  ⟨h.frames, h.agents, h.flow, h.tryDepth, h.within, fun _ => h.last rfl⟩

theorem TracksScope.agent (h : K.TracksScope b n σ σ') : σ'.agent = σ.agent := by
  rw [Scope.agent, Scope.agent, h.agents]

theorem TracksScope.isNewAgent (h : K.TracksScope b n σ σ') (a : AgentRef) :
    σ'.isNewAgent a = σ.isNewAgent a := by
  rw [Scope.isNewAgent, Scope.isNewAgent, h.agents]

theorem TracksScope.myself (h : K.TracksScope b n σ σ') : σ'.myself = σ.myself := by
  rw [Scope.myself, Scope.myself, h.frames]
  cases σ.frames <;> rfl

theorem TracksScope.depth (h : K.TracksScope b n σ σ') : σ'.depth = σ.depth := by
  rw [Scope.depth, Scope.depth, h.frames]
  cases σ.frames <;> rfl

theorem TracksScope.getVar (h : K.TracksScope b n σ σ') (name : String) :
    σ'.getVar name = (σ.getVar name).map (·.renumber K.numbers) := by
  rw [Scope.getVar, Scope.getVar, h.frames]
  induction σ.frames with
  | nil => rfl
  | cons f rest ih =>
    rw [List.map_cons, List.findSome?_cons, List.findSome?_cons, Frame.get?_renumber]
    cases f.get? name with
    | some v => rfl
    | none => exact ih

theorem TracksScope.within_getVar (h : K.TracksScope b n σ σ') {name : String} {v : Value}
    (hv : σ.getVar name = some v) : v.Within n := by
  obtain ⟨f, hf, hget⟩ := List.exists_of_findSome?_eq_some hv
  exact h.within f hf (name, v) (Record.mem_of_lookup hget)

theorem TracksScope.push (h : K.TracksScope b n σ σ') (owner : String) (caller : Option AgentRef) :
    K.TracksScope b n (σ.push owner caller) (σ'.push owner caller) := by
  refine ⟨?_, h.agents, h.flow, h.tryDepth, ?_, h.last⟩
  · rw [Scope.push, Scope.push, h.myself, h.depth, h.frames]
    rfl
  · exact List.forall_mem_cons.mpr ⟨nofun, h.within⟩

theorem TracksScope.pop (h : K.TracksScope b n σ σ') : K.TracksScope b n σ.pop σ'.pop := by
  have hframes := h.frames
  unfold Scope.pop
  rcases hσ : σ.frames with _ | ⟨f, _ | ⟨g, rest⟩⟩ <;> rw [hσ] at hframes <;> rw [hframes]
  · exact h
  · exact h
  · have hwithin := h.within
    rw [hσ, List.forall_mem_cons] at hwithin
    exact ⟨rfl, h.agents, h.flow, h.tryDepth, hwithin.2, h.last⟩

theorem TracksScope.declare (h : K.TracksScope b n σ σ') (name : String) {v : Value}
    (hv : v.Within n) :
    K.TracksScope b n (σ.declare name v) (σ'.declare name (v.renumber K.numbers)) := by
  have hframes := h.frames
  unfold Scope.declare
  cases hσ : σ.frames with
  | nil =>
    rw [hσ] at hframes
    rw [hframes]
    exact h
  | cons f rest =>
    rw [hσ] at hframes
    rw [hframes]
    have hwithin := h.within
    rw [hσ, List.forall_mem_cons] at hwithin
    refine ⟨?_, h.agents, h.flow, h.tryDepth, ?_, h.last⟩
    · exact congrArg (· :: _) (f.declare_renumber name v)
    · exact List.forall_mem_cons.mpr ⟨Frame.within_putVar hwithin.1 hv, hwithin.2⟩

/-- A variable that is assigned in the run is assigned in the replay. -/
theorem TracksScope.setVar (h : K.TracksScope b n σ σ') (name : String) {v : Value}
    (hv : v.Within n) :
    σ.setVar name v = none ∧ σ'.setVar name (v.renumber K.numbers) = none ∨
      ∃ τ τ', σ.setVar name v = some τ ∧ σ'.setVar name (v.renumber K.numbers) = some τ' ∧
        K.TracksScope b n τ τ' := by
  rw [Scope.setVar, Scope.setVar, h.frames, Scope.assignIn_renumber]
  cases hassign : Scope.assignIn name v σ.frames with
  | none => exact .inl ⟨rfl, rfl⟩
  | some frames =>
    refine .inr ⟨_, _, rfl, rfl, rfl, h.agents, h.flow, h.tryDepth, ?_, h.last⟩
    exact Scope.within_assignIn hassign h.within hv

theorem TracksScope.fork (h : K.TracksScope b n σ σ') (name name' : String) :
    K.TracksScope true n (σ.fork name) (σ'.fork name') :=
  ⟨h.frames, h.agents, rfl, h.tryDepth, h.within, fun _ => ⟨rfl, trivial⟩⟩

end

end Replay
end Habitat

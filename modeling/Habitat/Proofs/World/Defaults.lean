import Habitat.Proofs.Store.Reach
import Mathlib.Data.List.Forall2
import Mathlib.Data.List.Pairwise

/-!
# What new agents share

The defaults of a species are copied once for all agents that one call creates, and only the
outermost container of a default is copied. So two agents that both take a container from the
defaults hold the same one, and what is nested inside a default is the species' own.

These are the only ways in which the defaults are shared: `defaults_unshared_iff`. Where they are
not shared, no edit of what an agent took from them shows anywhere else.
-/
namespace Habitat

/-! ## Records -/

namespace Record

theorem lookup_cons_ite {α : Type} (f : String × α) (fields : List (String × α)) (name : String) :
    (f :: fields).lookup name = if name = f.1 then some f.2 else fields.lookup name := by
  rw [List.lookup_cons]
  by_cases h : name = f.1
  · rw [if_pos h, beq_iff_eq.mpr h]
  · rw [if_neg h, beq_eq_false_iff_ne.mpr h]

theorem lookup_insertField (name : String) (v : Value) (fields : List (String × Value))
    (other : String) :
    (insertField name v fields).lookup other =
      if other = name then some v else fields.lookup other := by
  induction fields with
  | nil => rw [insertField, lookup_cons_ite]
  | cons f rest ih =>
    unfold insertField
    split
    · rw [lookup_cons_ite]
    · split
      · rename_i hname
        rw [lookup_cons_ite, lookup_cons_ite, hname]
        split <;> rfl
      · rename_i hname
        rw [lookup_cons_ite, ih, lookup_cons_ite]
        by_cases hother : other = f.1
        · rw [if_pos hother, if_pos hother, if_neg fun h => hname (h.symm.trans hother)]
        · rw [if_neg hother, if_neg hother]

theorem get?_extend (r : Record) (fields : List (String × Value)) (name : String) :
    (r.extend fields).get? name = (fields.reverse.lookup name).or (r.get? name) := by
  induction fields generalizing r with
  | nil => rfl
  | cons f rest ih =>
    have hinsert : (r.insert f.1 f.2).get? name = ([f].lookup name).or (r.get? name) := by
      rw [insert, get?, lookup_insertField, lookup_cons_ite]
      split <;> rfl
    rw [extend, List.foldl_cons, ← extend, ih, hinsert, List.reverse_cons, List.lookup_append,
      Option.or_assoc]

theorem get?_ofList (fields : List (String × Value)) (name : String) :
    (ofList fields).get? name = fields.reverse.lookup name := by
  rw [ofList, get?_extend]
  exact Option.or_none

/-- Whether nothing is given for a name. -/
def Lacks (r : Record) (name : String) : Prop := name ∉ r.fields.map (·.1)

instance (r : Record) (name : String) : Decidable (r.Lacks name) :=
  inferInstanceAs (Decidable (name ∉ r.fields.map (·.1)))

theorem lookup_of_lacks {r : Record} {name : String} (h : r.Lacks name) :
    r.fields.reverse.lookup name = none := by
  rw [List.lookup_eq_none_iff]
  intro f hf
  have hne : name ≠ f.1 := fun heq =>
    h (List.mem_map.mpr ⟨f, List.mem_reverse.mp hf, heq.symm⟩)
  simpa using hne

theorem mem_of_lookup {fields : List (String × Value)} {name : String} {v : Value}
    (h : fields.lookup name = some v) : (name, v) ∈ fields := by
  induction fields with
  | nil => cases h
  | cons f rest ih =>
    rw [lookup_cons_ite] at h
    split at h
    · rename_i hname
      cases h
      rw [hname]
      exact List.mem_cons_self
    · exact List.mem_cons_of_mem f (ih h)

/-- A value of an extended record is given by the extension, or it is taken from the record. -/
theorem get?_extend_cases {r init : Record} {name : String} {v : Value}
    (h : (r.extend init.fields).get? name = some v) :
    (name, v) ∈ init.fields ∨ init.Lacks name ∧ r.get? name = some v := by
  rw [get?_extend] at h
  by_cases hname : init.Lacks name
  · rw [lookup_of_lacks hname, Option.none_or] at h
    exact .inr ⟨hname, h⟩
  · cases hlookup : init.fields.reverse.lookup name with
    | none =>
      obtain ⟨f, hf, hfname⟩ := List.mem_map.mp (Decidable.not_not.mp hname)
      have hne := List.lookup_eq_none_iff.mp hlookup f (List.mem_reverse.mpr hf)
      rw [hfname] at hne
      simp at hne
    | some u =>
      rw [hlookup, Option.some_or] at h
      cases h
      exact .inl (List.mem_reverse.mp (mem_of_lookup hlookup))

/-- Records of fields that correspond one by one correspond name by name. -/
theorem lookup_forall₂ {R : Value → Value → Prop} {fields fields' : List (String × Value)}
    (h : List.Forall₂ (fun f f' => f'.1 = f.1 ∧ R f.2 f'.2) fields fields') (name : String) :
    (fields.lookup name = none ∧ fields'.lookup name = none) ∨
      ∃ d v, fields.lookup name = some d ∧ fields'.lookup name = some v ∧ R d v := by
  induction h with
  | nil => exact .inl ⟨rfl, rfl⟩
  | @cons f f' rest rest' hf _ ih =>
    rw [lookup_cons_ite, lookup_cons_ite, hf.1]
    by_cases hname : name = f.1
    · rw [if_pos hname, if_pos hname]
      exact .inr ⟨f.2, f'.2, rfl, rfl, hf.2⟩
    · rwa [if_neg hname, if_neg hname]

end Record

/-! ## Copies of the defaults -/

namespace World

open Store (Ref Extends Copied)

theorem extends_copyDefaults (s : Store) (fields : List (String × Value)) :
    s.Extends (copyDefaults s fields).2 := by
  induction fields generalizing s with
  | nil => exact .refl s
  | cons f rest ih => exact (s.extends_copy f.2).trans (ih _)

/-- Each default has a copy of its own. -/
theorem copied_copyDefaults {s s₁ : Store} (hs : s.Extends s₁) {fields : List (String × Value)}
    (h : ∀ f ∈ fields, f.2.Within s.extent) :
    List.Forall₂ (fun f f' => f'.1 = f.1 ∧ s.Copied (copyDefaults s₁ fields).2 f.2 f'.2) fields
      (copyDefaults s₁ fields).1 := by
  induction fields generalizing s₁ with
  | nil => exact .nil
  | cons f rest ih =>
    -- The later copies are made in a store that has the earlier ones.
    have hcopy : s.Copied (s₁.copy f.2).2 f.2 (s₁.copy f.2).1 :=
      (s₁.copied_copy f.2).of_extends hs (h f List.mem_cons_self)
    exact .cons ⟨rfl, hcopy.mono (extends_copyDefaults _ rest)⟩
      (ih (hs.trans (s₁.extends_copy f.2)) fun f' hf' => h f' (List.mem_cons_of_mem f hf'))

/-- The containers among the copies are new. -/
theorem fresh_copyDefaults (s : Store) (fields : List (String × Value)) :
    ∀ f ∈ (copyDefaults s fields).1, ∀ r, f.2.container? = some r → s.extent r.1 ≤ r.2 := by
  induction fields generalizing s with
  | nil => exact fun _ h => nomatch h
  | cons g rest ih =>
    intro f hf r hr
    rcases List.mem_cons.mp hf with rfl | hf
    · exact ((s.copied_copy g.2).fresh r hr).1
    · exact Nat.le_trans ((s.extends_copy g.2).extent_le r.1) (ih _ f hf r hr)

/-- No two copies are the same container. -/
theorem pairwise_copyDefaults (s : Store) (fields : List (String × Value)) :
    (copyDefaults s fields).1.Pairwise fun f g =>
      ∀ r, f.2.container? = some r → g.2.container? ≠ some r := by
  induction fields generalizing s with
  | nil => exact .nil
  | cons f rest ih =>
    refine List.pairwise_cons.mpr ⟨?_, ih _⟩
    intro g hg r hf hr
    have hlt := ((s.copied_copy f.2).fresh r hf).2
    have hle := fresh_copyDefaults _ rest g hg r hr
    exact Nat.lt_irrefl _ (Nat.lt_of_lt_of_le hlt hle)

/-! ## Births -/

theorem births_cons (p : Population) (defaults init : Record) (rest : List Record) (w : World) :
    births p defaults (init :: rest) w =
      let (a, w) := w.birth p (defaults.extend init.fields)
      let (as, w) := births p defaults rest w
      (a :: as, w) := rfl

theorem agents_birth (w : World) (p : Population) (attributes : Record) :
    (w.birth p attributes).2.agents = w.agents.push
      ⟨w.nextName p.species.name, p.species.name, some p.host, attributes, false, false⟩ := rfl

theorem get_births_of_lt (p : Population) (defaults : Record) (inits : List Record) {w : World}
    {i : Nat} (hi : i < w.agents.size) :
    (births p defaults inits w).2.agents.get i = w.agents.get i := by
  induction inits generalizing w with
  | nil => rfl
  | cons init rest ih =>
    have hstep := ih (w := (w.birth p (defaults.extend init.fields)).2)
      (by rw [size_birth]; omega)
    rw [births_cons]
    dsimp only
    rw [hstep, agents_birth, Heap.get_push_lt _ _ _ hi]

/-- The agent of a record has the defaults, and the values of the record in their place. -/
theorem attributes_births (p : Population) (defaults : Record) {inits : List Record} {w : World}
    {i : Nat} {init : Record} (hi : inits[i]? = some init) :
    ((births p defaults inits w).2.agents.get (w.agents.size + i)).attributes =
      defaults.extend init.fields := by
  induction inits generalizing w i with
  | nil => cases hi
  | cons init' rest ih =>
    rw [births_cons]
    dsimp only
    cases i with
    | zero =>
      cases hi
      rw [get_births_of_lt p defaults rest (by rw [size_birth]; omega), agents_birth,
        Nat.add_zero, Heap.get_push_size]
    | succ i =>
      have hstep := ih (w := (w.birth p (defaults.extend init'.fields)).2) (i := i) hi
      rw [size_birth] at hstep
      rwa [show w.agents.size + (i + 1) = w.agents.size + 1 + i by omega]

theorem births_id (p : Population) (defaults : Record) {inits : List Record} {w : World} {i : Nat}
    {a : AgentRef} (ha : (births p defaults inits w).1[i]? = some a) :
    a.id = w.agents.size + i := by
  induction inits generalizing w i with
  | nil => cases ha
  | cons init rest ih =>
    rw [births_cons] at ha
    cases i with
    | zero => cases ha; rfl
    | succ i =>
      have hstep := ih (w := (w.birth p (defaults.extend init.fields)).2) (i := i) ha
      rw [size_birth] at hstep
      omega

theorem length_births (p : Population) (defaults : Record) (inits : List Record) (w : World) :
    (births p defaults inits w).1.length = inits.length := by
  induction inits generalizing w with
  | nil => rfl
  | cons init rest ih => exact congrArg (· + 1) (ih _)

/-! ## Sharing -/

/-- The values that species keep as defaults. -/
def stored (w : World) (p : Population) : List Value :=
  ((p.species :: w.species).flatMap (·.attributes)).map (·.2)

/-- Every reference finds its container: in containers, agents and species, and in the initial
values. -/
structure Grounded (w : World) (s : Store) (p : Population) (inits : List Record) : Prop where
  store : s.Grounded
  agents : ∀ a name v, w.attribute? a name = some v → v.Within s.extent
  stored : ∀ v ∈ w.stored p, v.Within s.extent
  inits : ∀ init ∈ inits, ∀ f ∈ init.fields, f.2.Within s.extent

/-- No container that the value of an agent reaches is reached by an attribute of another agent, or
by a default that a species keeps. -/
def Unshared (w : World) (s : Store) (p : Population) (a : AgentRef) (v : Value) : Prop :=
  ∀ r, s.Reaches v r →
    (∀ b name u, b.id ≠ a.id → w.attribute? b name = some u → ¬s.Reaches u r) ∧
      ∀ u ∈ w.stored p, ¬s.Reaches u r

theorem mem_stored_of_mem_declared {w : World} {p : Population} {f : String × Value}
    (h : f ∈ w.declared p.species) : f.2 ∈ w.stored p := by
  obtain ⟨sp, hsp, hf⟩ := List.mem_flatMap.mp h
  have hkept : sp ∈ p.species :: w.species := by
    rcases List.mem_cons.mp (List.mem_reverse.mp hsp) with rfl | hsp
    · exact List.mem_cons_self
    · refine List.mem_cons_of_mem _ ?_
      cases hparent : p.species.parent with
      | none => rw [hparent] at hsp; cases hsp
      | some parent =>
        rw [hparent] at hsp
        obtain ⟨name, -, hfind⟩ := List.mem_filterMap.mp hsp
        exact List.mem_of_find?_eq_some hfind
  exact List.mem_map.mpr ⟨f, List.mem_flatMap.mpr ⟨sp, hkept, hf⟩, rfl⟩

/-- Whatever happens to the containers that an unshared value reaches, the attributes of other
agents and the kept defaults look the same. -/
theorem Unshared.treeAt_eq {w : World} {s t : Store} {p : Population} {a : AgentRef} {v : Value}
    (h : w.Unshared s p a v) (hst : ∀ r, ¬s.Reaches v r → t.cell r = s.cell r) (n : Nat) :
    (∀ b name u, b.id ≠ a.id → w.attribute? b name = some u → t.treeAt n u = s.treeAt n u) ∧
      ∀ u ∈ w.stored p, t.treeAt n u = s.treeAt n u := by
  constructor
  · intro b name u hb hu
    exact Store.treeAt_congr fun r hr => hst r fun hv => (h r hv).1 b name u hb hu hr
  · intro u hu
    exact Store.treeAt_congr fun r hr => hst r fun hv => (h r hv).2 u hu hr

section
variable {w : World} {s : Store} {p : Population} {inits : List Record}

/-- An attribute after births is one of an agent that was there before, an initial value, or a
default. -/
theorem attribute?_births_cases {defaults : Record} {b : AgentRef} {name : String} {u : Value}
    (h : (births p defaults inits w).2.attribute? b name = some u) :
    w.attribute? b name = some u ∨
      ∃ j init, inits[j]? = some init ∧ b.id = w.agents.size + j ∧
        ((name, u) ∈ init.fields ∨ init.Lacks name ∧ defaults.get? name = some u) := by
  by_cases hold : b.id < w.agents.size
  · rw [attribute?, agent, get_births_of_lt p defaults inits hold] at h
    exact .inl h
  · by_cases hnew : b.id < w.agents.size + inits.length
    · have hj : b.id - w.agents.size < inits.length := by omega
      have hid : b.id = w.agents.size + (b.id - w.agents.size) := by omega
      have hinit := List.getElem?_eq_getElem hj
      rw [attribute?, agent, hid, attributes_births p defaults hinit] at h
      exact .inr ⟨_, _, hinit, hid, Record.get?_extend_cases h⟩
    · rw [attribute?, agent, Heap.get_of_size_le _ _ (by rw [size_births]; omega)] at h
      cases h

/-- The attributes that new agents take from the defaults are copies, each name has its own. -/
theorem defaults_get? (hground : w.Grounded s p inits) {name : String} {d : Value}
    (hd : (Record.ofList (w.declared p.species)).get? name = some d) :
    ∃ v, (w.defaults s p.species).1.get? name = some v ∧
      s.Copied (w.defaults s p.species).2 d v := by
  have hwithin : ∀ f ∈ w.declared p.species, f.2.Within s.extent :=
    fun f hf => hground.stored f.2 (mem_stored_of_mem_declared hf)
  have hcopies := List.forall₂_reverse_iff.mpr (copied_copyDefaults (.refl s) hwithin)
  rw [Record.get?_ofList] at hd
  rcases Record.lookup_forall₂ hcopies name with ⟨hnone, -⟩ | ⟨d', v, hd', hv, hcopied⟩
  · rw [hnone] at hd
    cases hd
  · rw [hd'] at hd
    cases hd
    exact ⟨v, (Record.get?_ofList _ name).trans hv, hcopied⟩

theorem exists_default_of_get? (hground : w.Grounded s p inits) {name : String} {v : Value}
    (hv : (w.defaults s p.species).1.get? name = some v) :
    ∃ d, d ∈ w.stored p ∧ s.Copied (w.defaults s p.species).2 d v := by
  have hwithin : ∀ f ∈ w.declared p.species, f.2.Within s.extent :=
    fun f hf => hground.stored f.2 (mem_stored_of_mem_declared hf)
  have hcopies := List.forall₂_reverse_iff.mpr (copied_copyDefaults (.refl s) hwithin)
  have hv : (copyDefaults s (w.declared p.species)).1.reverse.lookup name = some v :=
    (Record.get?_ofList _ name).symm.trans hv
  rcases Record.lookup_forall₂ hcopies name with ⟨-, hnone⟩ | ⟨d, v', hd, hv', hcopied⟩
  · rw [hnone] at hv
    cases hv
  · rw [hv'] at hv
    cases hv
    have hmem := List.mem_reverse.mp (Record.mem_of_lookup hd)
    exact ⟨d, mem_stored_of_mem_declared hmem, hcopied⟩

/-- Different names have different copies. -/
theorem container?_ne_of_ne {x y : String} {v u : Value}
    (hv : (w.defaults s p.species).1.get? x = some v)
    (hu : (w.defaults s p.species).1.get? y = some u) (hxy : x ≠ y) {r : Ref}
    (hr : v.container? = some r) : u.container? ≠ some r := by
  have hmem {name : String} {v : Value} (hv : (w.defaults s p.species).1.get? name = some v) :
      (name, v) ∈ (copyDefaults s (w.declared p.species)).1 :=
    List.mem_reverse.mp (Record.mem_of_lookup ((Record.get?_ofList _ name).symm.trans hv))
  have : Std.Symm fun f g : String × Value =>
      ∀ r, f.2.container? = some r → g.2.container? ≠ some r :=
    ⟨fun _ _ h r hg hf => h r hf hg⟩
  exact (pairwise_copyDefaults s (w.declared p.species)).forall (hmem hv) (hmem hu)
    (fun heq => hxy (congrArg Prod.fst heq)) r hr

end

section
variable {w : World} {s : Store} {p : Population} {inits : List Record}

/-- The births of a creation. -/
theorem create_eq_ok {as : List AgentRef} {w' : World} {s' : Store}
    (h : w.create s p inits = .ok (as, w', s')) :
    as = (births p (w.defaults s p.species).1 inits w).1 ∧
      w' = (births p (w.defaults s p.species).1 inits w).2 ∧ s' = (w.defaults s p.species).2 := by
  unfold create populate at h
  split at h
  · cases h
  · cases h
    exact ⟨rfl, rfl, rfl⟩

/-- What an agent takes from the defaults is reached from elsewhere only if the default is nested,
or another agent takes it too. -/
theorem unshared_of_flat (hground : w.Grounded s p inits) {i : Nat} {a : AgentRef}
    (ha : a.id = w.agents.size + i) {name : String} {d v : Value} (hflat : s.Flat d)
    (hv : (w.defaults s p.species).1.get? name = some v)
    (hcopied : s.Copied (w.defaults s p.species).2 d v) (hd : d.Within s.extent)
    (honly : d.isContainer = true →
      ∀ j init', inits[j]? = some init' → init'.Lacks name → j = i) :
    (births p (w.defaults s p.species).1 inits w).2.Unshared (w.defaults s p.species).2 p a v := by
  have hext : s.Extends (w.defaults s p.species).2 := extends_copyDefaults s (w.declared p.species)
  intro r hr
  have hr : v.container? = some r := by
    rcases (hcopied.reaches_iff hext hground.store (Store.within_parts hground.store hd)).mp hr with
      hr | ⟨u, hu, hur⟩
    · exact hr
    · obtain ⟨q, hq⟩ := hur.exists_ref
      rw [hflat u hu] at hq
      cases hq
  have hnew := (hcopied.fresh r hr).1
  -- The copy is newer than everything that refers to the old store.
  have hold {u : Value} (hu : u.Within s.extent) : ¬(w.defaults s p.species).2.Reaches u r := by
    intro hur
    have hlt := ((hext.reaches_iff hground.store hu).mp hur).lt hground.store hu
    omega
  refine ⟨fun b x u hb hu => ?_, fun u hu => hold (hground.stored u ?_)⟩
  · rcases attribute?_births_cases hu with hu | ⟨j, init', hinit', hj, hu | ⟨hlacks, hu⟩⟩
    · exact hold (hground.agents b x u hu)
    · exact hold (hground.inits init' (List.mem_of_getElem? hinit') _ hu)
    · have hxname : x ≠ name := by
        rintro rfl
        have hcontainer : d.isContainer = true := by
          rw [← hcopied.isContainer, ← v.isSome_container?, hr]
          rfl
        have hji := honly hcontainer j init' hinit' hlacks
        exact hb (by omega)
      obtain ⟨d', hd', hcopied'⟩ := exists_default_of_get? hground hu
      intro hur
      have hd'within := hground.stored d' hd'
      rcases (hcopied'.reaches_iff hext hground.store
          (Store.within_parts hground.store hd'within)).mp hur with hur | ⟨u', hu', hur⟩
      · exact container?_ne_of_ne hu hv hxname hur hr
      · have hlt := hur.lt hground.store
          (Store.within_parts hground.store hd'within u' hu')
        omega
  · rwa [stored, species_births] at hu

end

/-- What a new agent takes from the defaults of its species is a copy of the default. It is shared
with no other agent and no species exactly if the default has no container inside, and no other
agent of the call takes it too if it is a container itself. Then no edit of a container that the
agent holds there shows in an attribute of another agent or in a default. -/
theorem defaults_unshared_iff {w w' : World} {s s' : Store} {p : Population} {inits : List Record}
    {as : List AgentRef} (hground : w.Grounded s p inits)
    (hcreate : w.create s p inits = .ok (as, w', s')) {i : Nat} {a : AgentRef} {init : Record}
    (ha : as[i]? = some a) (hinit : inits[i]? = some init) {name : String} {d : Value}
    (hname : init.Lacks name)
    (hd : (Record.ofList (w.declared p.species)).get? name = some d) :
    ∃ v, w'.attribute? a name = some v ∧ s.Copied s' d v ∧
      (w'.Unshared s' p a v ↔ s.Flat d ∧ (d.isContainer = true →
        ∀ j init', inits[j]? = some init' → init'.Lacks name → j = i)) ∧
      (w'.Unshared s' p a v → ∀ requests : List (Value × Edit),
        (∀ e ∈ requests, ∀ r ∈ e.1.refs, s'.Reaches v r) → ∀ n,
        (∀ b x u, b.id ≠ a.id → w'.attribute? b x = some u →
          (s'.editAll requests).treeAt n u = s'.treeAt n u) ∧
        ∀ u ∈ w'.stored p, (s'.editAll requests).treeAt n u = s'.treeAt n u) := by
  obtain ⟨rfl, rfl, rfl⟩ := create_eq_ok hcreate
  obtain ⟨v, hv, hcopied⟩ := defaults_get? hground hd
  have hext : s.Extends (w.defaults s p.species).2 := extends_copyDefaults s (w.declared p.species)
  have hstored : d ∈ w.stored p :=
    mem_stored_of_mem_declared
      (List.mem_reverse.mp (Record.mem_of_lookup ((Record.get?_ofList _ name).symm.trans hd)))
  have hwithin := hground.stored d hstored
  have hattribute {j : Nat} {b : AgentRef} {init' : Record}
      (hb : (births p (w.defaults s p.species).1 inits w).1[j]? = some b)
      (hinit' : inits[j]? = some init') (hlacks : init'.Lacks name) :
      (births p (w.defaults s p.species).1 inits w).2.attribute? b name = some v := by
    rw [attribute?, agent, births_id p _ hb, attributes_births p _ hinit', Record.get?_extend,
      Record.lookup_of_lacks hlacks, Option.none_or, hv]
  refine ⟨v, hattribute ha hinit hname, hcopied, ⟨fun hunshared => ⟨?_, ?_⟩, ?_⟩, ?_⟩
  · intro u hu
    -- What is inside the default is reached from the agent and from the species.
    refine List.eq_nil_iff_forall_not_mem.mpr fun q hq => ?_
    have hagent : (w.defaults s p.species).2.Reaches v q :=
      (hcopied.reaches_iff hext hground.store (Store.within_parts hground.store hwithin)).mpr
        (.inr ⟨u, hu, .here hq⟩)
    have hspecies : (w.defaults s p.species).2.Reaches d q :=
      (hext.reaches_iff hground.store hwithin).mpr
        (Store.reaches_iff_parts.mpr (.inr ⟨u, hu, .here hq⟩))
    exact (hunshared q hagent).2 d (by rwa [stored, species_births]) hspecies
  · intro hcontainer j init' hinit' hlacks
    refine Decidable.byContradiction fun hji => ?_
    rw [← hcopied.isContainer, ← v.isSome_container?] at hcontainer
    obtain ⟨q, hq⟩ := Option.isSome_iff_exists.mp hcontainer
    have hreaches : (w.defaults s p.species).2.Reaches v q := Store.reaches_iff_parts.mpr (.inl hq)
    obtain ⟨hj, -⟩ := List.getElem?_eq_some_iff.mp hinit'
    have hb := List.getElem?_eq_getElem (l := (births p (w.defaults s p.species).1 inits w).1)
      (i := j) (by rwa [length_births])
    refine (hunshared q hreaches).1 _ name v ?_ (hattribute hb hinit' hlacks) hreaches
    rw [births_id p _ hb, births_id p _ ha]
    omega
  · rintro ⟨hflat, honly⟩
    exact unshared_of_flat hground (births_id p _ ha) hflat hv hcopied hwithin honly
  · intro hunshared requests hrequests n
    refine hunshared.treeAt_eq (fun r hr => Store.editAll_cell _ fun e he hmem => ?_) n
    exact hr (hrequests e he r hmem)

/-- Sheep remember what they have seen, at first nothing. -/
def sheepPopulation : Population :=
  ⟨⟨0, "world"⟩, ⟨"sheep", none, [], false, [("seen", .list 0)], []⟩⟩

/-- A world of sheep before the first sheep, and the store with the default list. -/
def pasture : World × Store :=
  ((start ⟨"world", none, ["sheep"], false, [], []⟩).register sheepPopulation.species,
    (Store.empty.newList .any []).2)

theorem grounded_pasture : pasture.1.Grounded pasture.2 sheepPopulation [.empty, .empty] where
  store := by
    rintro ⟨k, i⟩ v hv
    cases k with
    | list => cases i <;> cases hv
    | _ => cases hv
  agents a name v hv := by
    rw [attribute?, agent] at hv
    cases hid : a.id with
    | zero => rw [hid] at hv; cases hv
    | succ i => rw [hid] at hv; cases hv
  stored := by decide
  inits := by decide

/-- Two sheep of one call hold the same list, and what one of them sees the other one has seen. -/
theorem defaults_shared_flock : ∃ as w s,
    pasture.1.create pasture.2 sheepPopulation [.empty, .empty] = .ok (as, w, s) ∧
    ∃ a b v, as[0]? = some a ∧ as[1]? = some b ∧ w.attribute? a "seen" = some v ∧
      w.attribute? b "seen" = some v ∧ ¬w.Unshared s sheepPopulation a v ∧
      (s.edit v (.add (.int 1))).2.tree v ≠ s.tree v := by
  refine ⟨_, _, _, rfl, _, _, _, rfl, rfl, rfl, rfl, fun hunshared => ?_, nofun⟩
  have hlacks : Record.empty.Lacks "seen" := by decide
  have hdeclared : (Record.ofList (pasture.1.declared sheepPopulation.species)).get? "seen" =
      some (.list 0) := rfl
  obtain ⟨v, hv, -, hiff, -⟩ :=
    defaults_unshared_iff grounded_pasture rfl (i := 0) rfl rfl hlacks hdeclared
  cases hv
  have honly : 1 = 0 := (hiff.mp hunshared).2 rfl 1 .empty rfl hlacks
  cases honly

end World
end Habitat

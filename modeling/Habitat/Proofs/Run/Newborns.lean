import Habitat.Proofs.Run.Creation
import Habitat.Proofs.Run.Facets

/-!
# Who is created, and with which attributes

A statement that creates agents computes its facets one after another (`CreateFacets.Reading`). They
tell how many agents there will be (`wanted`), of which population (`Reading.Resolves`), and what
the source has for each of them (`Reading.fields`). An agent has what is given for a name, else what
the source has, else a copy of the default of the nearest species that declares the name
(`Reading.Endows`).

* `recordsFor_eq_ok`: the records read like the maps of the source.
* `initsFor_eq_ok`: what is given is computed for each agent among the fields of its record.
* `planCreate_eq_ok`, `creates_of_bear`: what is worked out, and what the births make of it.
* `creation_end_to_end`: the whole statement.
-/
namespace Habitat

open Exec

/-! ## Records of a source -/

/-- The value of a map under a name: that of the last entry whose key is the name or is rendered
like it. -/
def Store.entry? (s : Store) (map : Value) (name : String) : Option Value :=
  match map with
  | .map r =>
    ((s.maps.get r).entries.map fun (k, v) => (k.asText.getD (s.text k), v)).reverse.lookup name
  | _ => none

/-- The maps of a source: a map itself, or what is listed. -/
def Store.sourceMaps (s : Store) : Value → List Value
  | .map r => [.map r]
  | v => s.elements v

/-- A record that reads like a map. -/
structure Store.Records (s : Store) (map : Value) (r : Record) : Prop where
  ascending : Record.Ascending r.fields
  entry : ∀ name, r.get? name = s.entry? map name

theorem Delegate.records_recordOf? {s : Store} {map : Value} {r : Record}
    (h : recordOf? s map = some r) : s.Records map r := by
  cases map with
  | map i =>
    cases h
    exact ⟨Record.ascending_ofList _, fun name => Record.get?_ofList _ name⟩
  | _ => cases h

theorem Delegate.recordsOf_spec {s : Store} {maps : List Value} {records : List Record}
    (h : recordsOf s maps = .ok records) : List.Forall₂ s.Records maps records := by
  induction maps generalizing records with
  | nil =>
    cases h
    exact .nil
  | cons v rest ih =>
    unfold recordsOf at h
    split at h
    case h_1 => cases h
    case h_2 r hr =>
      cases hrest : recordsOf s rest with
      | error message => rw [hrest] at h; cases h
      | ok rs =>
        rw [hrest] at h
        cases h
        exact .cons (records_recordOf? hr) (ih hrest)

namespace Exec

/-- The number that a value asks for: its view as an integer, or zero. -/
def countOf (v : Value) : Int := (v.asInt.getD 0).toInt

/-- How many agents are created, for a number that may be given and the maps of a source that may
be given. -/
def wanted : Option Int → Option (List Value) → Nat
  | none, none => 0
  | some n, none => n.toNat
  | none, some maps => maps.length
  | some n, some maps => min n.toNat maps.length

variable {s t : State}

/-- A source that no registered delegate accepts is read as a map or a list of maps. -/
theorem recordsFrom_eq_ok {source : Expr} {limit : Option Nat} {records : List Record}
    (hs : ∀ v u, eval source s = .ok v u →
      ∀ d ∈ s.machine.delegates, d.accepts u.machine.store v = false)
    (h : recordsFrom source limit s = .ok records t) :
    ∃ v, eval source s = .ok v t ∧
      List.Forall₂ t.machine.store.Records
        ((t.machine.store.sourceMaps v).take
          (limit.getD (t.machine.store.sourceMaps v).length)) records := by
  obtain ⟨v, u, hv, hrest⟩ := bind_eq_ok h
  have hnone : s.machine.delegates.find? (·.accepts u.machine.store v) = none := by
    rw [List.find?_eq_none]
    exact fun d hd => Bool.eq_false_iff.mp (hs v u hv d hd)
  have hu : u.machine.delegateList.find? (·.accepts u.machine.store v) =
      [Delegate.records].find? (·.accepts u.machine.store v) := by
    rw [Machine.delegateList, (State.Views.of_eval hv).machine.delegates, List.find?_append, hnone,
      Option.none_or]
  rw [machine_bind_apply, hu] at hrest
  by_cases haccepts : Delegate.accepts u.machine.store .records v = true
  · simp only [List.find?_cons, haccepts] at hrest
    cases hcreate : Delegate.create u.machine.store limit v .records with
    | error message => rw [hcreate] at hrest; cases hrest
    | ok records' =>
      rw [hcreate] at hrest
      cases hrest
      refine ⟨v, hv, Delegate.recordsOf_spec ?_⟩
      cases v <;> exact hcreate
  · simp only [List.find?_cons, haccepts, List.find?_nil] at hrest
    obtain ⟨_, _, _, hfail⟩ := bind_eq_ok hrest
    cases hfail

theorem exists_of_forall₂ {α β : Type} {R : α → β → Prop} {as : List α} {bs : List β}
    (h : List.Forall₂ R as bs) {i : Nat} {b : β} (hb : bs[i]? = some b) :
    ∃ a, as[i]? = some a ∧ R a b := by
  obtain ⟨hi, rfl⟩ := List.getElem?_eq_some_iff.mp hb
  have hi' : i < as.length := h.length_eq ▸ hi
  exact ⟨as[i], List.getElem?_eq_getElem hi', h.get hi' hi⟩

/-- The fields of the record for the agent with a number: none without a source. -/
def fieldOf (s : Store) (maps : Option (List Value)) (i : Nat) (name : String) : Option Value :=
  (maps.bind (·[i]?)).bind (s.entry? · name)

/-- Records that read like the maps of a source, or like nothing without one. -/
structure Recorded (s : Store) (maps : Option (List Value)) (records : List Record) : Prop where
  ascending : ∀ r ∈ records, Record.Ascending r.fields
  entry : ∀ (i : Nat) (r : Record), records[i]? = some r → r.get? = fieldOf s maps i

theorem recorded_of_forall₂ {s : Store} {maps : List Value} {records : List Record} {n : Nat}
    (h : List.Forall₂ s.Records (maps.take n) records) : Recorded s (some maps) records where
  ascending r hr := by
    obtain ⟨i, hi⟩ := List.getElem?_of_mem hr
    obtain ⟨map, -, hmap⟩ := exists_of_forall₂ h hi
    exact hmap.ascending
  entry i r hi := by
    obtain ⟨map, hfind, hmap⟩ := exists_of_forall₂ h hi
    rw [List.getElem?_take] at hfind
    split at hfind
    · funext name
      rw [hmap.entry name, fieldOf, Option.bind_some, hfind, Option.bind_some]
    · cases hfind

theorem recordsFor_eq_ok {source : Option Expr} {count : Option Int} {records : List Record}
    (hs : ∀ v u, evalOption source s = .ok (some v) u →
      ∀ d ∈ s.machine.delegates, d.accepts u.machine.store v = false)
    (h : recordsFor source (count.map Int.toNat) s = .ok records t) :
    ∃ v, evalOption source s = .ok v t ∧
      records.length = wanted count (v.map t.machine.store.sourceMaps) ∧
      Recorded t.machine.store (v.map t.machine.store.sourceMaps) records := by
  cases source with
  | none =>
    cases h
    refine ⟨none, rfl, ?_, ?_, ?_⟩
    · cases count <;> simp [wanted]
    · intro r hr
      rw [List.eq_of_mem_replicate hr]
      exact List.Pairwise.nil
    · intro i r hi
      rw [List.eq_of_mem_replicate (List.mem_of_getElem? hi)]
      rfl
  | some e =>
    obtain ⟨v, hv, hrecords⟩ := recordsFrom_eq_ok (fun v u hv => hs v u (bind_ok hv)) h
    refine ⟨some v, bind_ok hv, ?_, recorded_of_forall₂ hrecords⟩
    have hlength := hrecords.length_eq
    rw [List.length_take] at hlength
    cases count <;> simp [wanted, ← hlength]

/-- Initial values: what the arguments give, each computed in `s` among the fields of the record of
the agent, and else these fields. -/
structure Prepared (init : Arguments) (s : State) (fields : Nat → String → Option Value)
    (inits : List Record) : Prop where
  ascending : ∀ r ∈ inits, Record.Ascending r.fields
  value : ∀ (i : Nat) (r : Record), inits[i]? = some r → ∀ name, ∃ given,
    Given init s (fields i) name given ∧ r.get? name = given.or (fields i name)

theorem initsFor_eq_ok (hs : s.scope.frames ≠ []) {init : Arguments} {store : Store}
    {maps : Option (List Value)} {records inits : List Record}
    (hrecords : Recorded store maps records)
    (h : initsFor init records s = .ok inits t) :
    s.Views t ∧ inits.length = records.length ∧ Prepared init s (fieldOf store maps) inits := by
  unfold initsFor at h
  split at h
  case isTrue hinit =>
    cases h
    rw [List.isEmpty_iff] at hinit
    subst hinit
    refine ⟨.refl _, rfl, hrecords.ascending, fun i r hi name => ⟨none, .absent rfl, ?_⟩⟩
    rw [hrecords.entry i r hi, Option.none_or]
  case isFalse =>
    obtain ⟨hviews, hall⟩ := initialise_spec (.refl s) hs hrecords.ascending h
    refine ⟨hviews, hall.length_eq.symm, fun r hr => ?_, fun i r hi name => ?_⟩
    · obtain ⟨i, hi⟩ := List.getElem?_of_mem hr
      obtain ⟨record, hrecord, hinit⟩ := exists_of_forall₂ hall hi
      exact hinit.ascending
    · obtain ⟨record, hrecord, hinit⟩ := exists_of_forall₂ hall hi
      rw [← hrecords.entry i record hrecord]
      exact hinit.value name

/-- The name of the species that a value means to an agent: its own without a value. -/
def namedSpecies (w : World) (executor : AgentRef) : Option Value → Option String
  | none => some (w.speciesOf executor)
  | some (.species name) => some name
  | some (.str name) => some name
  | some (.agent a) => some (w.speciesOf a)
  | some _ => none

theorem speciesName_eq_ok {species : Option Expr} {executor : AgentRef} {name : String}
    (h : speciesName species executor s = .ok name t) :
    ∃ v, evalOption species s = .ok v t ∧
      namedSpecies t.machine.world executor v = some name := by
  cases species with
  | none =>
    cases h
    exact ⟨none, rfl, rfl⟩
  | some e =>
    obtain ⟨v, u, hv, hrest⟩ := bind_eq_ok h
    cases v with
    | species _ | str _ | agent _ =>
      cases hrest
      exact ⟨_, bind_ok hv, rfl⟩
    | _ =>
      obtain ⟨_, _, _, hfail⟩ := bind_eq_ok hrest
      cases hfail

end Exec

/-! ## What is created -/

/-- The facets that say how many agents of which species are created, computed one after
another. -/
structure CreateFacets.Reading (f : CreateFacets) (s : State) where
  number : Option Value
  counted : State
  species : Option Value
  named : State
  source : Option Value
  sourced : State
  number_eq : evalOption f.number s = .ok number counted
  species_eq : evalOption f.species counted = .ok species named
  source_eq : evalOption f.source named = .ok source sourced

namespace CreateFacets.Reading

variable {f : CreateFacets} {s : State} (R : f.Reading s)

def count : Option Int := R.number.map countOf

def maps : Option (List Value) := R.source.map R.sourced.machine.store.sourceMaps

/-- The values that the source has for the agent with a number. -/
def fields : Nat → String → Option Value := fieldOf R.sourced.machine.store R.maps

/-- The population is the nearest one, from the executing agent on, of the species that is
named. -/
def Resolves (p : Population) : Prop :=
  ∃ executor name, s.scope.agent = some executor ∧
    namedSpecies s.machine.world executor R.species = some name ∧
    s.machine.world.populationFor? (holds R.named) executor name = some p

theorem views_named : s.Views R.named :=
  (State.Views.of_evalOption R.number_eq).trans (.of_evalOption R.species_eq)

theorem views_sourced : s.Views R.sourced := R.views_named.trans (.of_evalOption R.source_eq)

/-- What an agent has for a name: what is given for it, or else what the source has, or else a copy
of the default of the nearest species that declares it, or else nothing. -/
def Endows (p : Population) (born : State) (i : Nat) (a : AgentRef) (name : String) : Prop :=
  ∃ given, Given f.init R.sourced (R.fields i) name given ∧
    match given.or (R.fields i name), s.machine.world.default? p.species name with
    | some v, _ => born.machine.world.attribute? a name = some v
    | none, some d => ∃ v, born.machine.world.attribute? a name = some v ∧
        s.machine.store.Copied born.machine.store d v
    | none, none => born.machine.world.attribute? a name = none

/-- As many new agents as are wanted are in a population, after those that were there, and each has
its attributes. -/
structure Creates (p : Population) (as : List AgentRef) (born : State) : Prop where
  count : as.length = wanted R.count R.maps
  new : ∀ (i : Nat) (a : AgentRef), as[i]? = some a → a.id = s.machine.world.agents.size + i
  members : born.machine.world.members p.host p.species.name =
    s.machine.world.members p.host p.species.name ++ as
  attributes : ∀ (i : Nat) (a : AgentRef), as[i]? = some a → ∀ name, R.Endows p born i a name

end CreateFacets.Reading

/-- The source is left to the delegate for records: no registered delegate accepts it. -/
def CreateFacets.Untaken (f : CreateFacets) (s : State) : Prop :=
  ∀ (R : f.Reading s) (v : Value), R.source = some v →
    ∀ d ∈ s.machine.delegates, d.accepts R.sourced.machine.store v = false

namespace Exec

variable {f : CreateFacets} {s t : State}

/-- Nothing is to be created, or there is a population and there are initial values for as many
agents as are wanted. -/
theorem planCreate_eq_ok (huntaken : f.Untaken s) (hframes : s.scope.frames ≠ [])
    {plan : Option Brood} (h : planCreate f s = .ok plan t) :
    (∃ number, evalOption f.number s = .ok number t ∧ f.source = none ∧
      wanted (number.map countOf) none = 0 ∧ plan = none) ∨
    ∃ (R : f.Reading s) (b : Brood), plan = some b ∧ R.sourced.Views t ∧ R.Resolves b.place ∧
      b.inits.length = wanted R.count R.maps ∧ Prepared f.init R.sourced R.fields b.inits := by
  obtain ⟨number, counted, hnumber, h⟩ := bind_eq_ok h
  dsimp only at h
  split at h
  case isTrue hnothing =>
    cases h
    simp only [Bool.and_eq_true, Option.isNone_iff_eq_none] at hnothing
    refine .inl ⟨number, hnumber, hnothing.1, ?_, rfl⟩
    cases number with
    | none => rfl
    | some v => exact Int.toNat_of_nonpos (of_decide_eq_true hnothing.2)
  case isFalse =>
    obtain ⟨executor, counted', hexecutor, hrest⟩ := bind_eq_ok h
    obtain ⟨hagent, hcounted⟩ := currentAgent_eq_ok hexecutor
    subst counted'
    obtain ⟨name, named, hname, hrest⟩ := bind_eq_ok hrest
    obtain ⟨species, hspecies, hnamed⟩ := speciesName_eq_ok hname
    obtain ⟨p, named', hbirthplace, hrest⟩ := bind_eq_ok hrest
    obtain ⟨hp, hnamed'⟩ := birthplace_eq_ok hbirthplace
    subst named'
    obtain ⟨records, sourced, hrecords, hrest⟩ := bind_eq_ok hrest
    obtain ⟨inits, t', hinits, hlast⟩ := bind_eq_ok hrest
    cases hlast
    have hviews : s.Views named :=
      (State.Views.of_evalOption hnumber).trans (.of_evalOption hspecies)
    have hleft (v : Value) (u : State) (hv : evalOption f.source named = .ok (some v) u) :
        ∀ d ∈ named.machine.delegates, d.accepts u.machine.store v = false := by
      rw [hviews.machine.delegates]
      exact huntaken ⟨number, counted, species, named, some v, u, hnumber, hspecies, hv⟩ v rfl
    obtain ⟨source, hsource, hlength, hrecorded⟩ := recordsFor_eq_ok hleft hrecords
    let R : f.Reading s :=
      ⟨number, counted, species, named, source, sourced, hnumber, hspecies, hsource⟩
    have hsourced : R.sourced.scope.frames ≠ [] := by rwa [R.views_sourced.frames]
    obtain ⟨hviews', hlength', hprepared⟩ := initsFor_eq_ok hsourced hrecorded hinits
    refine .inr ⟨R, ⟨p, inits⟩, rfl, hviews', ⟨executor, name, ?_, ?_, ?_⟩, ?_, hprepared⟩
    · exact (State.Views.of_evalOption hnumber).agent.symm.trans hagent
    · rwa [hviews.machine.world] at hnamed
    · rwa [hviews.machine.world] at hp
    · exact hlength'.trans hlength

theorem bear_eq_ok {p : Population} {inits : List Record} {as : List AgentRef}
    (h : bear p inits s = .ok as t) :
    ∃ defaults, s.machine.world.defaults s.machine.store p.species = (defaults, t.machine.store) ∧
      World.births p defaults inits s.machine.world = (as, t.machine.world) := by
  cases h
  exact ⟨_, rfl, rfl⟩

/-- Births give the agents what was prepared for them. -/
theorem creates_of_bear {R : f.Reading s} {b : Brood} {u born : State} {as : List AgentRef}
    (hw : s.machine.world.Reachable) (hviews : R.sourced.Views u)
    (hlength : b.inits.length = wanted R.count R.maps)
    (hinits : Prepared f.init R.sourced R.fields b.inits)
    (hstored : ∀ d ∈ s.machine.world.declared b.place.species, d.2.Within s.machine.store.extent)
    (h : bear b.place b.inits u = .ok as born) : R.Creates b.place as born := by
  have hsu : s.machine.Resumes u.machine := (R.views_sourced.trans hviews).machine
  obtain ⟨defaults, hdefaults, hbirths⟩ := bear_eq_ok h
  rw [hsu.world] at hdefaults hbirths
  have hlength' := World.length_births b.place defaults b.inits s.machine.world
  have hmembers := World.members_births hw.listing b.place defaults b.inits
  rw [hbirths] at hlength' hmembers
  have hid {i : Nat} {a : AgentRef} (ha : as[i]? = some a) :
      a.id = s.machine.world.agents.size + i := by
    have hborn : (World.births b.place defaults b.inits s.machine.world).1[i]? = some a := by
      rwa [hbirths]
    exact World.births_id b.place defaults hborn
  refine ⟨hlength'.trans hlength, fun i a ha => hid ha, hmembers, fun i a ha name => ?_⟩
  have hi : i < b.inits.length := by
    rw [← hlength']
    exact (List.getElem?_eq_some_iff.mp ha).1
  have hinit := List.getElem?_eq_getElem hi
  obtain ⟨given, hgiven, hvalue⟩ := hinits.value i _ hinit name
  refine ⟨given, hgiven, ?_⟩
  have hattribute : born.machine.world.attribute? a name =
      (given.or (R.fields i name)).or (defaults.get? name) := by
    have hattributes := World.attributes_births b.place defaults (w := s.machine.world) hinit
    rw [hbirths] at hattributes
    rw [World.attribute?, World.agent, hid ha, hattributes, ← hvalue]
    exact Record.get?_extend_fields defaults (hinits.ascending _ (List.mem_of_getElem? hinit)) name
  have hdefault := World.get?_defaults hsu.store hstored name
  rw [hdefaults] at hdefault
  rw [hattribute]
  cases hgivens : given.or (R.fields i name) with
  | some v => rfl
  | none =>
    rw [Option.none_or]
    cases hd : s.machine.world.default? b.place.species name with
    | none =>
      rw [hd] at hdefault
      exact hdefault
    | some d =>
      rw [hd] at hdefault
      exact hdefault

end Exec

/-- The defaults that species keep refer to containers of the store. -/
def World.Stocked (w : World) (s : Store) : Prop :=
  ∀ sp ∈ w.species, ∀ f ∈ sp.attributes, f.2.Within s.extent

instance (w : World) (s : Store) : Decidable (w.Stocked s) :=
  inferInstanceAs (Decidable (∀ sp ∈ w.species, ∀ f ∈ sp.attributes, f.2.Within s.extent))

theorem World.Stocked.declared {w : World} {s : Store} (h : w.Stocked s) {p : Population}
    (hp : p.species ∈ w.species) : ∀ d ∈ w.declared p.species, d.2.Within s.extent := by
  intro d hd
  obtain ⟨f, hf, hfd⟩ := List.mem_map.mp (World.mem_stored_of_mem_declared hd)
  obtain ⟨sp, hsp, hf⟩ := List.mem_flatMap.mp hf
  rw [← hfd]
  rcases List.mem_cons.mp hsp with rfl | hsp
  · exact h _ hp f hf
  · exact h sp hsp f hf

/-- A statement that creates agents, from a source that no registered delegate accepts, gives back
the list of as many as are wanted, nothing or a population of new agents with their attributes, and
changes nothing else before the bodies run. -/
theorem creation_end_to_end (n fuel : Nat) (f : CreateFacets) (body : Sequence) {s t : State}
    {v : Value} (huntaken : f.Untaken s) (hframes : s.scope.frames ≠ [])
    (hw : s.machine.world.Reachable) (hstocked : s.machine.world.Stocked s.machine.store)
    (h : statement fuel (sequence n) (.create f body) s = .ok v t) :
    ∃ host as born, createAgents f s = .ok (host, as) born ∧
      (runBodies (sequence n) f body host as >>= fun _ => giveBack f.returns as) born = .ok v t ∧
      t.machine.store.elements v = as.map .agent ∧
      ((∃ number, evalOption f.number s = .ok number born ∧ f.source = none ∧
          wanted (number.map countOf) none = 0 ∧ as = [] ∧
          born.machine.world = s.machine.world) ∨
        ∃ (R : f.Reading s) (p : Population), R.Resolves p ∧ R.Creates p as born) := by
  have hrun : runCreate (sequence n) f body s = .ok v t := h
  rw [runCreate_eq] at hrun
  obtain ⟨⟨host, as⟩, born, hcreate, hrest⟩ := bind_eq_ok hrun
  refine ⟨host, as, born, hcreate, hrest, ?_, ?_⟩
  · obtain ⟨_, bodies, -, hback⟩ := bind_eq_ok hrest
    obtain ⟨t', hlist, hstore⟩ := giveBack_ok f.returns as bodies
    have hend := hlist.symm.trans hback
    cases hend
    have helements (st : Store) :
        (st.newList .agent (as.map .agent)).2.elements (.list st.lists.size) = as.map .agent :=
      congrArg (·.items.toList) (Heap.get_push_size st.lists _)
    rw [hstore]
    exact helements bodies.machine.store
  · obtain ⟨plan, u, hplan, hdeliver⟩ := createAgents_eq_ok hcreate
    rcases planCreate_eq_ok huntaken hframes hplan with
      ⟨number, hnumber, hsource, hzero, rfl⟩ | ⟨R, b, rfl, hviews, hresolves, hlength, hinits⟩
    · cases hdeliver
      exact .inl ⟨number, hnumber, hsource, hzero, rfl,
        (State.Views.of_evalOption hnumber).machine.world⟩
    · obtain ⟨as', born', hbear, hlast⟩ := bind_eq_ok hdeliver
      cases hlast
      have ⟨executor, name, _, _, hp⟩ := hresolves
      refine .inr ⟨R, b.place, hresolves, creates_of_bear hw hviews hlength hinits ?_ hbear⟩
      exact hstocked.declared ((World.populationFor?_offers hp).species)

/-- Sheep are animals. They are born with the age of a lamb, whatever animals are born with, and
remember what they have seen. -/
def lambing : State :=
  let animal : Species := ⟨"animal", none, [], true, [("age", .int 9), ("legs", .int 4)], []⟩
  let sheep : Species :=
    ⟨"sheep", some "animal", [], false, [("age", .int 0), ("seen", .list 0)], []⟩
  let w := ((World.start ⟨"world", none, ["sheep"], false, [], []⟩).register animal).register sheep
  ⟨.start ⟨0, "world"⟩ "main", .start .standard w (Store.empty.newList .any []).2⟩

/-- Sheep from a list of records. Each is tagged with its name. -/
def lambs : CreateFacets where
  species := some (.species "sheep")
  number := some (.int 2)
  source := some (.list [.map [(.str "name", .str "Dolly"), (.str "age", .int 1)],
    .map [(.str "name", .str "Molly")], .map []] .any)
  init := [("tag", .str ""), ("tag", .var "name" .any)]
  parallel := none
  returns := none

theorem creation_end_to_end_lambs :
    ∃ v t, statement 1 (sequence 1) (.create lambs []) lambing = .ok v t ∧
      ∃ (R : lambs.Reading lambing) (p : Population) (as : List AgentRef) (born : State),
        R.Resolves p ∧ R.Creates p as born ∧ t.machine.store.elements v = as.map .agent ∧
        as.map (·.name) = ["sheep0", "sheep1"] := by
  obtain ⟨v, hv⟩ := Option.isSome_iff_exists.mp
    (by decide +kernel :
      (value? (statement 1 (sequence 1) (.create lambs [])) lambing).isSome = true)
  obtain ⟨t, h⟩ := eq_ok_of_value? hv
  obtain ⟨host, as, born, hcreate, -, hlist, ⟨_, -, hsource, -⟩ | ⟨R, p, hresolves, hcreates⟩⟩ :=
    creation_end_to_end 1 1 lambs [] (s := lambing) (fun _ _ _ => nofun) (List.cons_ne_nil _ _)
      (.register _ (.register _ (.start _))) (by decide) h
  · cases hsource
  · refine ⟨v, t, h, R, p, as, born, hresolves, hcreates, hlist, ?_⟩
    have hnames : (value? (createAgents lambs) lambing).map (·.2.map (·.name)) =
        some ["sheep0", "sheep1"] := by decide +kernel
    rw [value?_ok hcreate] at hnames
    exact Option.some.inj hnames

end Habitat

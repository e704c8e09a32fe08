import Habitat.Proofs.Run.Traversal
import Habitat.Proofs.World.Hierarchy

/-!
# Relocations and the hierarchy of hosts

Capturing, migrating, and releasing without a host that is named keep hosts a tree: a capture
checks the way up from the macro-agent, and the other two move agents that stand below the
executing one to places that stand above it or to itself. Releasing *into* an agent checks
nothing of the kind.

Whether a statement is about to put an agent below itself can be computed (`misplaces`).
`cautiousSequence` is an interpreter that does something else, whatever it is, instead of such a
statement. Runs that cannot be told from runs with caution keep hosts a tree.

* `Guides.tree_iff`: one move after another, given how each destination is found.
* `guided_capture`, `guided_release`, `guided_migrate`: how the plans find them.
* `hosts_stay_tree_iff`: statements of any depth.
-/
namespace Habitat

open Exec World Discipline

/-! ## The moves -/

/-- The state once a candidate has gone where its destination is. -/
def settled (a : AgentRef) (o : Option Population) (t : State) : State :=
  match o with
  | some p => after (moveAgent a p) t
  | none => t

/-- The candidates move in their order. -/
theorem after_moveAll_cons {dest : AgentRef → Exec (Option Population)} {a : AgentRef}
    (rest : List AgentRef) {s t : State} {o : Option Population} (h : dest a s = .ok o t) :
    after (moveAll dest (a :: rest)) s = after (moveAll dest rest) (settled a o t) := by
  rw [moveAll, after_bind h]
  cases o with
  | none => exact after_bind_pure _ _ t
  | some p =>
    by_cases hstuck : t.machine.policy.stuck.contains a.name = true
    · have hmove := moveAgent_stuck (p := p) hstuck
      rw [settled, after_ok hmove]
      refine Eq.trans (after_bind hmove) ?_
      exact after_bind_pure _ _ t
    · have hmove := moveAgent_free (p := p) hstuck
      rw [settled, after_ok hmove]
      refine Eq.trans (after_bind hmove) ?_
      exact after_bind_pure _ _ _

theorem world_settled (a : AgentRef) (p : Population) (t : State) :
    (settled a (some p) t).machine.world =
      if t.machine.policy.stuck.contains a.name then t.machine.world
      else (t.machine.world.move (holds t) t.machine.store a p).1 := by
  by_cases hstuck : t.machine.policy.stuck.contains a.name = true
  · rw [settled, after_ok (moveAgent_stuck hstuck), if_pos hstuck]
  · rw [settled, after_ok (moveAgent_free hstuck), if_neg hstuck]

theorem within_settled (a : AgentRef) (o : Option Population) (t : State) :
    t.machine.world.Within (settled a o t).machine.world := by
  cases o with
  | none => exact .refl _
  | some p =>
    rw [world_settled]
    split
    · exact .refl _
    · exact within_move _ _ _ _ _

/-- The links once a candidate has moved: those before, or one from the candidate. -/
theorem hostId?_settled {a : AgentRef} {o : Option Population} {t : State}
    (ho : ∀ p, o = some p → a.id < t.machine.world.agents.size) {i j : Nat}
    (hij : (settled a o t).machine.world.hostId? i = some j) :
    t.machine.world.hostId? i = some j ∨ i = a.id := by
  cases o with
  | none => exact .inl hij
  | some p =>
    rw [world_settled] at hij
    split at hij
    · exact .inl hij
    · rcases (hostId?_move _ (ho p rfl)).mp hij with ⟨-, hij⟩ | ⟨hi, -, -⟩
      · exact .inl ((fades_forget _ _ _).hostId? i j hij)
      · exact .inr hi

theorem gone_settled {a x : AgentRef} {o : Option Population} {t : State}
    (ho : ∀ p, o = some p → a.id < t.machine.world.agents.size)
    (hx : (t.machine.world.agent x).gone = true) :
    ((settled a o t).machine.world.agent x).gone = true := by
  cases o with
  | none => exact hx
  | some p =>
    rw [world_settled]
    split
    · exact hx
    · obtain ⟨attributes, hget⟩ := move_get (holds t) t.machine.world t.machine.store a p
        (ho p rfl) x.id
      have hgone := (fades_forget (holds t) t.machine.world a).gone x.id hx
      unfold agent
      rw [hget]
      split
      · exact hgone
      · exact hgone

/-! ## Candidates that would be put below themselves -/

/-- Whether a candidate is about to be put below itself: it can be moved, its new host is still
known, and the candidate is met on the way up from there. -/
def misplaced (a : AgentRef) (o : Option Population) (s t : State) : Bool :=
  o.any fun p =>
    !t.machine.policy.stuck.contains a.name && !(t.machine.world.agent p.host).gone &&
      s.machine.world.isInHostChain (holds s) p.host a

/-- Whether one of the candidates is put below itself when its turn comes. -/
def misplaces (destination : AgentRef → Exec (Option Population)) : List AgentRef → State → Bool
  | [], _ => false
  | a :: rest, s =>
    match destination a s with
    | .ok o t => misplaced a o s t || misplaces destination rest (settled a o t)
    | .error _ _ => false

/-- Whether a statement that moves agents is about to put one of them below itself. -/
def Statement.misplaces (st : Statement) (s : State) : Bool :=
  match st.plan? with
  | none => false
  | some plan =>
    match plan s with
    | .ok r t => Habitat.misplaces r.destination r.candidates (t.holding r.holdings)
    | .error _ _ => false

/-- The destination of a candidate was found, and what the check sees above it is all there is. -/
structure Found (destination : AgentRef → Exec (Option Population)) (a : AgentRef) (s : State)
    (o : Option Population) (t : State) : Prop where
  found : destination a s = .ok o t
  rooted : t.machine.world.Rooted
  fits : ∀ p, o = some p →
    a.id < t.machine.world.agents.size ∧ p.host.id < t.machine.world.agents.size
  seen : ∀ p, o = some p → (t.machine.world.agent p.host).gone = false →
    (s.machine.world.isInHostChain (holds s) p.host a = true ↔
      Reaches t.machine.world.hostId? p.host.id a.id)

section
variable {destination : AgentRef → Exec (Option Population)} {a : AgentRef} {s t : State}
  {o : Option Population}

theorem Found.lineal_settled (h : Found destination a s o t) :
    (settled a o t).machine.world.Lineal := by
  cases o with
  | none => exact h.rooted.toLineal
  | some p =>
    obtain ⟨ha, hp⟩ := h.fits p rfl
    rw [world_settled]
    split
    · exact h.rooted.toLineal
    · exact h.rooted.toLineal.move (byId_holds t) _ ha hp

/-- One candidate: hosts stay a tree unless it is put below itself. -/
theorem Found.tree_settled_iff (h : Found destination a s o t) :
    (settled a o t).machine.world.Tree ↔ misplaced a o s t = false := by
  cases o with
  | none => exact ⟨fun _ => rfl, fun _ => h.rooted.tree⟩
  | some p =>
    have hseen := h.seen p rfl
    rw [world_settled]
    simp only [misplaced, Option.any_some]
    cases hstuck : t.machine.policy.stuck.contains a.name with
    | true => simpa using h.rooted.tree
    | false =>
      simp only [Bool.false_eq_true, if_false]
      rw [tree_move_iff h.rooted.tree _ (h.fits p rfl).1]
      cases hgone : (t.machine.world.agent p.host).gone with
      | true => simp
      | false => simp [← hseen hgone]

end

/-! ## All candidates -/

/-- How each destination is found, with an invariant of the moves before it. -/
def Guides (destination : AgentRef → Exec (Option Population)) (as : List AgentRef)
    (P : State → Prop) : Prop :=
  ∀ a ∈ as, ∀ s, P s → s.machine.world.Rooted →
    ∃ o t, Found destination a s o t ∧ P (settled a o t)

section
variable {destination : AgentRef → Exec (Option Population)} {as : List AgentRef}
  {P : State → Prop}

theorem Guides.tail {a : AgentRef} (h : Guides destination (a :: as) P) :
    Guides destination as P := fun b hb => h b (List.mem_cons_of_mem a hb)

/-- As long as no candidate is put below itself, hosts are a tree after each move. -/
theorem Guides.rooted (h : Guides destination as P) {s : State} (hs : P s)
    (hr : s.machine.world.Rooted) (hm : misplaces destination as s = false) {pre : List AgentRef}
    (hpre : pre <+: as) : (after (moveAll destination pre) s).machine.world.Rooted := by
  induction as generalizing s pre with
  | nil =>
    rw [List.prefix_nil] at hpre
    subst hpre
    exact hr
  | cons a rest ih =>
    rcases List.prefix_cons_iff.mp hpre with rfl | ⟨first, rfl, hfirst⟩
    · exact hr
    · obtain ⟨o, t, hfound, hP⟩ := h a List.mem_cons_self s hs hr
      simp only [misplaces, hfound.found, Bool.or_eq_false_iff] at hm
      rw [after_moveAll_cons first hfound.found]
      have htree := hfound.tree_settled_iff.mpr hm.1
      exact ih h.tail hP ⟨hfound.lineal_settled, htree⟩ hm.2 hfirst

/-- If hosts are a tree after each move, no candidate was put below itself. -/
theorem Guides.not_misplaces (h : Guides destination as P) {s : State} (hs : P s)
    (hr : s.machine.world.Rooted)
    (htree : ∀ pre, pre <+: as → (after (moveAll destination pre) s).machine.world.Tree) :
    misplaces destination as s = false := by
  induction as generalizing s with
  | nil => rfl
  | cons a rest ih =>
    obtain ⟨o, t, hfound, hP⟩ := h a List.mem_cons_self s hs hr
    have hrest : ∀ pre, pre <+: rest →
        (after (moveAll destination pre) (settled a o t)).machine.world.Tree := by
      intro pre hpre
      have htree' := htree (a :: pre) (List.cons_prefix_cons.mpr ⟨rfl, hpre⟩)
      rwa [after_moveAll_cons pre hfound.found] at htree'
    have hfirst := hrest [] List.nil_prefix
    simp only [misplaces, hfound.found, Bool.or_eq_false_iff]
    refine ⟨hfound.tree_settled_iff.mp hfirst, ?_⟩
    exact ih h.tail hP ⟨hfound.lineal_settled, hfirst⟩ hrest

/-- Where no destination puts a candidate below itself, none of them all does. -/
theorem Guides.harmless (h : Guides destination as P)
    (hm : ∀ a ∈ as, ∀ s o t, P s → destination a s = .ok o t → misplaced a o s t = false)
    {s : State} (hs : P s) (hr : s.machine.world.Rooted) : misplaces destination as s = false := by
  induction as generalizing s with
  | nil => rfl
  | cons a rest ih =>
    obtain ⟨o, t, hfound, hP⟩ := h a List.mem_cons_self s hs hr
    have hfirst := hm a List.mem_cons_self s o t hs hfound.found
    have htree := hfound.tree_settled_iff.mpr hfirst
    simp only [misplaces, hfound.found, hfirst, Bool.false_or]
    refine ih h.tail ?_ hP ⟨hfound.lineal_settled, htree⟩
    exact fun b hb => hm b (List.mem_cons_of_mem a hb)

theorem Guides.tree_iff (h : Guides destination as P) {s : State} (hs : P s)
    (hr : s.machine.world.Rooted) :
    (∀ pre, pre <+: as → (after (moveAll destination pre) s).machine.world.Tree) ↔
      misplaces destination as s = false :=
  ⟨h.not_misplaces hs hr, fun hm _ hpre => (h.rooted hs hr hm hpre).tree⟩

end

/-! ## Destinations that are looked up from a named host -/

/-- A destination of a candidate is the given host, once the nearest lost host above that is
forgotten. -/
def Named (destination : AgentRef → Exec (Option Population)) (h : AgentRef) : Prop :=
  ∀ a s, ∃ o, destination a s = .ok o
      ⟨s.scope, { s.machine with world := s.machine.world.forget (holds s) h }⟩ ∧
    ∀ p, o = some p → p.host = h

/-- Capturing and releasing into a host look at the way up from there as it is. -/
theorem Named.guides {r : Relocation} {h : AgentRef} {w : World} (hd : Named r.destination h)
    (hfits : r.Fits w) :
    Guides r.destination r.candidates fun s => w.Within s.machine.world := by
  intro a ha s hn hr
  obtain ⟨o, hdest, hhost⟩ := hd a s
  refine ⟨o, _, ⟨hdest, ?_, ?_, ?_⟩, ?_⟩
  · exact (fades_forget (holds s) s.machine.world h).rooted hr
  · intro p hp
    subst hp
    exact (hfits a ha s p _ hn hdest).imp_right (·.host)
  · intro p hp _
    rw [hhost p hp]
    exact isInHostChain_iff hr.tree hr.toLineal (byId_holds s) h a
  · have hforget := hn.trans (within_forget (holds s) s.machine.world h)
    exact hforget.trans (within_settled a o
      ⟨s.scope, { s.machine with world := s.machine.world.forget (holds s) h }⟩)

theorem named_captureInto {m : AgentRef} {fixed : Option Population}
    (hfixed : ∀ p, fixed = some p → p.host = m) : Named (captureInto m fixed) m := by
  intro a s
  refine ⟨_, captureInto_eq m fixed a s, ?_⟩
  intro p hp
  split at hp
  · rcases Option.or_eq_some_iff.mp hp with hp | ⟨-, hp⟩
    · exact hfixed p hp
    · exact (population?_host hp).1
  · cases hp

theorem named_releaseTo (x h : AgentRef) (species : Option String) :
    Named (releaseTo x (some h) species) h := by
  intro a s
  refine ⟨_, releaseTo_some_eq x h species a s, ?_⟩
  intro p hp
  split at hp
  · cases hp
  · exact (population?_host hp).1

/-- Whoever is captured is not met on the way up from the macro-agent. -/
theorem misplaced_captureInto {m a : AgentRef} {fixed o : Option Population} {s t : State}
    (hfixed : ∀ p, fixed = some p → p.host = m) (h : captureInto m fixed a s = .ok o t) :
    misplaced a o s t = false := by
  rw [captureInto_eq] at h
  obtain ⟨rfl, -⟩ := EStateM.Result.ok.inj h
  simp only [misplaced, Option.any_eq_false]
  intro p hp
  split at hp
  case isTrue hcan =>
    have hm : p.host = m := by
      rcases Option.or_eq_some_iff.mp hp with hp | ⟨-, hp⟩
      · exact hfixed p hp
      · exact (population?_host hp).1
    simp only [canCapture, isInHostChain_forget (byId_holds s), Bool.and_eq_true,
      Bool.not_eq_true'] at hcan
    simp [hm, hcan.1.2]
  case isFalse => cases hp

/-! ## Destinations that are looked up from the executing agent -/

/-- Nobody of some agents is met on the way up from an agent. -/
def Below (x : AgentRef) (as : List AgentRef) (s : State) : Prop :=
  ∀ a ∈ as, ¬Reaches s.machine.world.hostId? x.id a.id

theorem Below.settled {x a : AgentRef} {as : List AgentRef} {o : Option Population} {s : State}
    (h : Below x as s) (ha : a ∈ as)
    (ho : ∀ p, o = some p → a.id < s.machine.world.agents.size) :
    Below x as (settled a o s) := by
  intro b hb hr
  exact h b hb (hr.of_links (h a ha) fun i j hij => hostId?_settled ho hij)

/-- A destination of a candidate is met on the way up from the given agent. -/
def Upward (destination : AgentRef → Exec (Option Population)) (x : AgentRef) : Prop :=
  ∀ a s, ∃ o, destination a s = .ok o s ∧
    ∀ p, o = some p → Reaches s.machine.world.hostId? x.id p.host.id

theorem upward_releaseTo (x : AgentRef) (species : Option String) :
    Upward (releaseTo x none species) x := by
  intro a s
  refine ⟨_, releaseTo_none_eq x species a s, ?_⟩
  intro p hp
  obtain ⟨h, hh, hp⟩ := Option.bind_eq_some_iff.mp hp
  exact .head (hostId?_of_host? hh) (reaches_of_hostChain (populationFor?_host hp).1)

theorem upward_pure {x : AgentRef} {p : Population} (hp : p.host = x) :
    Upward (fun _ => pure (some p)) x := by
  intro a s
  refine ⟨some p, rfl, ?_⟩
  intro q hq
  cases hq
  rw [hp]
  exact .refl

section
variable {r : Relocation} {x a : AgentRef} {w : World}

theorem Upward.not_reaches {s t : State} {o : Option Population} {p : Population}
    (hd : Upward r.destination x) (hs : Below x r.candidates s) (ha : a ∈ r.candidates)
    (h : r.destination a s = .ok o t) (hp : o = some p) :
    ¬Reaches s.machine.world.hostId? p.host.id a.id := by
  obtain ⟨o', ho', hup⟩ := hd a s
  rw [h] at ho'
  obtain ⟨rfl, rfl⟩ := EStateM.Result.ok.inj ho'
  exact fun hr => hs a ha ((hup p hp).trans hr)

/-- Where candidates go up from an agent, none of them gets above it. -/
theorem Upward.guides (hd : Upward r.destination x) (hfits : r.Fits w) :
    Guides r.destination r.candidates fun s =>
      w.Within s.machine.world ∧ Below x r.candidates s := by
  intro a ha s ⟨hn, hs⟩ hr
  obtain ⟨o, hdest, -⟩ := hd a s
  have hlt : ∀ p, o = some p → a.id < s.machine.world.agents.size ∧
      p.host.id < s.machine.world.agents.size := by
    intro p hp
    subst hp
    exact (hfits a ha s p s hn hdest).imp_right (·.host)
  refine ⟨o, s, ⟨hdest, hr, hlt, ?_⟩, ?_, hs.settled ha fun p hp => (hlt p hp).1⟩
  · intro p hp _
    have hnot := hd.not_reaches hs ha hdest hp
    exact ⟨fun hin => absurd (reaches_of_isInHostChain hin) hnot, fun h => absurd h hnot⟩
  · exact hn.trans (within_settled a _ s)

theorem Upward.misplaced {s t : State} {o : Option Population} (hd : Upward r.destination x)
    (hs : Below x r.candidates s) (ha : a ∈ r.candidates) (h : r.destination a s = .ok o t) :
    misplaced a o s t = false := by
  simp only [Habitat.misplaced, Option.any_eq_false]
  intro p hp
  have hnot := hd.not_reaches hs ha h hp
  cases hin : s.machine.world.isInHostChain (holds s) p.host a with
  | true => exact absurd (reaches_of_isInHostChain hin) hnot
  | false => simp

/-- Below a host that is gone, nobody gets a host that is known. -/
theorem guides_gone {p : Population} (hd : r.destination = fun _ => pure (some p))
    (hfits : r.Fits w) :
    Guides r.destination r.candidates fun s =>
      w.Within s.machine.world ∧ (s.machine.world.agent p.host).gone = true := by
  intro a ha s ⟨hn, hgone⟩ hr
  have hdest : r.destination a s = .ok (some p) s := by
    rw [hd]
    rfl
  have hlt := (hfits a ha s p s hn hdest).imp_right (·.host)
  refine ⟨some p, s, ⟨hdest, hr, ?_, ?_⟩, ?_, gone_settled (fun _ _ => hlt.1) hgone⟩
  · intro q hq
    cases hq
    exact hlt
  · intro q hq hknown
    cases hq
    rw [hgone] at hknown
    cases hknown
  · exact hn.trans (within_settled a _ s)

/-! ## Plans -/

/-- Who is released stands below the executing agent. -/
theorem below_of_isHostedBy {s : State} (hr : s.machine.world.Rooted)
    (h : ∀ a ∈ r.candidates, isHostedBy (holds s) s.machine.world a x = true) :
    Below x r.candidates s := by
  intro a ha
  obtain ⟨y, hy, hyx⟩ := isHostedBy_iff.mp (h a ha)
  rw [← hyx]
  exact hr.tree.no_return (hostId?_of_host? hy)

/-- Who migrates stands below the executing agent, unless that one is gone. -/
theorem below_of_members {s : State} {source : String} (hr : s.machine.world.Rooted)
    (hx : (s.machine.world.agent x).gone = false)
    (h : r.candidates = s.machine.world.members x source) : Below x r.candidates s := by
  intro a ha
  rw [h] at ha
  exact hr.tree.no_return (hr.toLineal.hostId?_of_mem_members hx ha)

end

/-- An invariant guides the moves of a relocation, and only one that names a host can put anyone
below itself. -/
def Guided (r : Relocation) (s : State) : Prop :=
  ∃ P, Guides r.destination r.candidates P ∧ P s ∧
    (r.into = none → misplaces r.destination r.candidates s = false)

section
variable {r : Relocation} {s t : State}

/-- Where candidates go up from an agent that they stand below. -/
theorem Upward.guided {x : AgentRef} (hd : Upward r.destination x)
    (hfits : r.Fits s.machine.world) (hr : s.machine.world.Rooted)
    (hs : Below x r.candidates s) : Guided r s := by
  have hguides := hd.guides hfits
  refine ⟨_, hguides, ⟨.refl _, hs⟩, fun _ => ?_⟩
  exact hguides.harmless (fun a ha u o v hu hv => hd.misplaced hu.2 ha hv) ⟨.refl _, hs⟩ hr

theorem guided_capture {target : Expr} {species : Option String}
    (hr : planCapture target species s = .ok r t) (ht : t.machine.world.Rooted) :
    Guided r (t.holding r.holdings) := by
  obtain ⟨m, fixed, -, -, -, hdest, hfixed⟩ := planCapture_eq_ok hr
  have hm : ∀ p, fixed = some p → p.host = m := fun p hp => (hfixed p hp).1
  have hnamed : Named r.destination m := by
    rw [hdest]
    exact named_captureInto hm
  have hguides := hnamed.guides (planCapture_fits hr)
  refine ⟨_, hguides, .refl _, fun _ => hguides.harmless ?_ (.refl _) ht⟩
  intro a _ u o v _ hv
  rw [hdest] at hv
  exact misplaced_captureInto hm hv

theorem guided_release {target : Expr} {species : Option String} {host : Option Expr}
    (hr : planRelease target species host s = .ok r t) (ht : t.machine.world.Rooted) :
    Guided r (t.holding r.holdings) := by
  obtain ⟨x, -, -, hdest, -, hcand⟩ := planRelease_eq_ok hr
  have hfits := planRelease_fits hr
  cases hinto : r.into with
  | some h =>
    -- the way up from the named host is seen as it is, but nobody looks
    rw [hinto] at hdest
    have hnamed : Named r.destination h := by
      rw [hdest]
      exact named_releaseTo x h species
    refine ⟨_, hnamed.guides hfits, .refl _, fun hnone => ?_⟩
    rw [hinto] at hnone
    cases hnone
  | none =>
    rw [hinto] at hdest
    have hup : Upward r.destination x := by
      rw [hdest]
      exact upward_releaseTo x species
    have hbelow : Below x r.candidates t := below_of_isHostedBy ht hcand
    exact hup.guided (s := t.holding r.holdings) hfits ht hbelow

theorem guided_migrate {source target : String} (hr : planMigrate source target s = .ok r t)
    (ht : t.machine.world.Rooted) : Guided r (t.holding r.holdings) := by
  obtain ⟨x, p, -, -, -, hdest, hcand, hpop⟩ := planMigrate_eq_ok hr
  have hfits := planMigrate_fits hr
  have hx : p.host = x := (population?_host hpop).1
  cases hgone : (t.machine.world.agent x).gone with
  | true =>
    -- slots of a host that is gone may list anyone, but nobody gets a host that is known
    rw [← hx] at hgone
    have hguides := guides_gone hdest hfits
    refine ⟨_, hguides, ⟨.refl _, hgone⟩, fun _ => ?_⟩
    refine hguides.harmless ?_ ⟨.refl _, hgone⟩ ht
    intro a _ u o v hu hv
    rw [hdest] at hv
    cases hv
    simp [misplaced, hu.2]
  | false =>
    have hup : Upward r.destination x := by
      rw [hdest]
      exact upward_pure hx
    have hbelow : Below x r.candidates t := below_of_members ht hgone hcand
    exact hup.guided (s := t.holding r.holdings) hfits ht hbelow

theorem guided_plan {st : Statement} {plan : Exec Relocation} (hst : st.plan? = some plan)
    (hr : plan s = .ok r t) (ht : t.machine.world.Rooted) : Guided r (t.holding r.holdings) := by
  cases st with
  | capture target species returns body =>
    cases hst
    exact guided_capture hr ht
  | release target species host returns body =>
    cases hst
    exact guided_release hr ht
  | migrate source target returns body =>
    cases hst
    exact guided_migrate hr ht
  | _ => cases hst

end

/-- Hosts are a tree after each move of a statement exactly if it puts nobody below itself. -/
theorem tree_moves_iff {st : Statement} {plan : Exec Relocation} (hst : st.plan? = some plan)
    {s t : State} {r : Relocation} (hr : plan s = .ok r t) (ht : t.machine.world.Rooted) :
    (∀ pre, pre <+: r.candidates →
      (after (moveAll r.destination pre) (t.holding r.holdings)).machine.world.Tree) ↔
      st.misplaces s = false := by
  obtain ⟨P, hguides, hP, -⟩ := guided_plan hst hr ht
  simp only [Statement.misplaces, hst, hr]
  exact hguides.tree_iff hP ht

/-! ## Runs -/

/-- What the world satisfies in every state of a run. -/
def Discipline.ofWorld (P : World → Prop) : Discipline where
  admits s := P s.machine.world
  keeps _ t := P t.machine.world
  raises _ := True

theorem Discipline.ofWorld_lawful (P : World → Prop) : Lawful (ofWorld P) where
  refl _ hs := hs
  trans _ _ _ _ h := h
  admitted _ _ _ h := h
  declare _ _ _ hs := hs
  assign _ _ _ _ hs _ := hs
  caught _ _ hs := hs
  machine s m hs hm := by
    simp only [ofWorld, hm]
    exact hs
  frame_in s owner caller hs := by
    simp only [ofWorld, pushFrame_world]
    exact hs
  frame_out _ _ _ _ _ h := h
  agent_in _ _ hs _ := hs
  agent_out _ _ _ _ _ h := h
  try_in _ hs := hs
  try_out _ _ _ h := h
  fork_in _ _ hs := hs
  fork_out _ _ _ _ h := h
  error _ _ := trivial
  noAgent _ _ _ _ := trivial
  outOfFuel := trivial

/-- All that statements do leaves worlds that come about. -/
theorem reachable_sound : Sound (ofWorld Reachable) where
  toLawful := ofWorld_lawful Reachable
  world _ _ hs h := Reachable.follows hs h
  signal _ _ hs := hs
  record _ _ hs := hs

/-- All that statements do, moves apart, keeps hosts a tree. -/
theorem rooted_active : Active (ofWorld Rooted) where
  toLawful := ofWorld_lawful Rooted
  born s m p inits hs hp hm := by
    simp only [ofWorld, hm]
    exact Rooted.populate hs hp.host _ inits
  died s m a hs hm := by
    simp only [ofWorld, hm]
    exact (fades_kill _ a).rooted hs
  assigned s m a name v hs hm := by
    simp only [ofWorld, hm]
    exact (fades_setAttribute _ a name v).rooted hs
  signal _ _ hs := hs
  record _ _ hs := hs

namespace Exec

/-- Does `alarm` where a statement would put an agent below itself. -/
def cautious (alarm : Exec Value) (st : Statement) (x : Exec Value) : Exec Value := fun s =>
  if st.misplaces s then alarm s else x s

/-- Runs a sequence with caution, that is, each statement in it and inside those. -/
def cautiousSequence (handlers : Handlers) (alarm : Exec Value) : Nat → Sequence → Exec Value
  | 0, _ => throw .outOfFuel
  | n + 1, body =>
    steps (fun st => cautious alarm st
      (statementWith handlers n (cautiousSequence handlers alarm n) st)) body .nil

/-- Runs a statement with caution. -/
def cautiousStatement (handlers : Handlers) (alarm : Exec Value) (n : Nat) (st : Statement) :
    Exec Value :=
  cautious alarm st (statementWith handlers n (cautiousSequence handlers alarm n) st)

/-- Native actions leave the world alone. -/
def Handlers.Homely (handlers : Handlers) : Prop :=
  ∀ native args s, (after (handlers native args) s).machine.world = s.machine.world

theorem Handlers.Homely.safe {handlers : Handlers} (hh : handlers.Homely) (P : World → Prop)
    (native : Native) (args : BoundArguments) :
    (ofWorld P).Safe (asForeign (handlers native args)) := by
  refine (ofWorld_lawful P).safe_asForeign fun s hs => ?_
  simp only [ofWorld, hh native args s]
  exact hs

end Exec

theorem rooted_of_plan {st : Statement} {plan : Exec Relocation} (hst : st.plan? = some plan)
    {s t : State} {r : Relocation} (hs : s.machine.world.Rooted) (hr : plan s = .ok r t) :
    t.machine.world.Rooted :=
  have L := ofWorld_lawful Rooted
  (L.safe_plan hst s hs).admitted L hs hr

section
variable {handlers : Handlers} (hh : handlers.Homely) {alarm : Exec Value}
  (halarm : (ofWorld Rooted).Safe alarm)
include hh halarm

/-- One layer of statements, with caution. -/
theorem safe_cautious {run : Sequence → Exec Value}
    (hrun : ∀ body, (ofWorld Rooted).Safe (run body)) (n : Nat) (st : Statement) :
    (ofWorld Rooted).Safe (cautious alarm st (statementWith handlers n run st)) := by
  intro s hs
  by_cases hm : st.misplaces s = true
  · exact (halarm s hs).of_eq (by simp [cautious, hm]) (by simp [cautious, hm])
  · refine At.of_eq (rooted_active.at_statementWith hrun (hh.safe Rooted) n st hs ?_)
      (by simp [cautious, hm]) (by simp [cautious, hm])
    intro plan hplan r t hr
    have ht := rooted_of_plan hplan hs hr
    obtain ⟨P, hguides, hP, -⟩ := guided_plan hplan hr ht
    simp only [Statement.misplaces, hplan, hr, Bool.not_eq_true] at hm
    exact ⟨rfl, hguides.rooted hP ht hm (List.prefix_refl _), fun _ _ _ => trivial⟩

theorem safe_cautiousSequence (n : Nat) (body : Sequence) :
    (ofWorld Rooted).Safe (cautiousSequence handlers alarm n body) := by
  induction n generalizing body with
  | zero => exact rooted_active.lawful.safe_throw_outOfFuel
  | succ n ih => exact rooted_active.rel_steps (safe_cautious hh halarm ih n) body .nil

end

theorem exists_plan_of_misplaces {st : Statement} {s : State} (hm : st.misplaces s = true) :
    ∃ plan r t, st.plan? = some plan ∧ plan s = .ok r t ∧
      misplaces r.destination r.candidates (t.holding r.holdings) = true := by
  unfold Statement.misplaces at hm
  split at hm
  case h_1 => cases hm
  case h_2 plan hst =>
    split at hm
    case h_1 r t hr => exact ⟨plan, r, t, hst, hr, hm⟩
    case h_2 => cases hm

/-- Only a release into an agent can put an agent below itself. -/
theorem release_of_misplaces {st : Statement} {s : State} (hs : s.machine.world.Rooted)
    (hm : st.misplaces s = true) :
    ∃ target species host returns body, st = .release target species (some host) returns body := by
  obtain ⟨plan, r, t, hst, hr, hmis⟩ := exists_plan_of_misplaces hm
  obtain ⟨P, -, -, hnone⟩ := guided_plan hst hr (rooted_of_plan hst hs hr)
  have hinto : r.into ≠ none := by
    intro h
    rw [hnone h] at hmis
    cases hmis
  cases st with
  | capture target species returns body =>
    cases hst
    obtain ⟨m, fixed, -, -, h, -, -⟩ := planCapture_eq_ok hr
    exact absurd h hinto
  | release target species host returns body =>
    cases hst
    obtain ⟨x, -, -, -, hhost, -⟩ := planRelease_eq_ok hr
    cases host with
    | none => exact absurd (hhost.mpr rfl) hinto
    | some e => exact ⟨target, species, e, returns, body, rfl⟩
  | migrate source target returns body =>
    cases hst
    obtain ⟨x, p, -, -, h, -, -, -⟩ := planMigrate_eq_ok hr
    exact absurd h hinto
  | _ => cases hst

/-- From every world that comes about and in which hosts are a tree, a run that puts no agent
below itself keeps it so, and walks along hosts end. A statement that moves agents keeps hosts a
tree after each move exactly if it puts nobody below itself, and only a release into an agent can
do that. -/
theorem hosts_stay_tree_iff {handlers : Handlers} (hh : handlers.Homely) {s : State}
    (hs : s.machine.world.Reachable) (htree : s.machine.world.Tree) :
    (∀ n st,
      (∀ alarm, cautiousStatement handlers alarm n st s =
        statementWith handlers n (sequenceWith handlers n) st s) →
      let w := (after (statementWith handlers n (sequenceWith handlers n) st) s).machine.world
      w.Reachable ∧ w.Tree ∧
        ∀ held a k, w.agents.size < k → w.hostChainAt held k a = w.hostChain held a) ∧
    (∀ (st : Statement) plan r t, st.plan? = some plan → plan s = .ok r t →
      ((∀ pre, pre <+: r.candidates →
        (after (moveAll r.destination pre) (t.holding r.holdings)).machine.world.Tree) ↔
        st.misplaces s = false)) ∧
    ∀ st : Statement, st.misplaces s = true →
      ∃ target species host returns body, st = .release target species (some host) returns body := by
  have hroot : s.machine.world.Rooted := ⟨hs.lineal, htree⟩
  refine ⟨?_, ?_, ?_⟩
  · intro n st hsame w
    have hreach : w.Reachable :=
      (reachable_sound.safe_statementWith (hh.safe Reachable) n st s hs).kept
    have halarm := (ofWorld_lawful Rooted).safe_throw_outOfFuel (α := Value)
    have hkept := (safe_cautious hh halarm (safe_cautiousSequence hh halarm n) n st s hroot).kept
    have hw : w.Rooted := by
      have heq : after (cautiousStatement handlers (throw .outOfFuel) n st) s =
          after (statementWith handlers n (sequenceWith handlers n) st) s := by
        simp only [after, hsame]
      rw [cautiousStatement] at heq
      rw [heq] at hkept
      exact hkept
    exact ⟨hreach, hw.tree, fun held a k hk => hw.tree.hostChainAt_eq hw.toLineal held a hk⟩
  · intro st plan r t hst hr
    exact tree_moves_iff hst hr (rooted_of_plan hst hroot hr)
  · intro st hm
    exact release_of_misplaces hroot hm

theorem runNative_homely : Handlers.Homely runNative := by
  intro native args s
  cases native <;> rfl

/-- The root holds a box, which holds another one. The root knows both. -/
def nestedBoxes : State :=
  let box : Species := ⟨"box", none, ["box"], false, [], []⟩
  let w := (start ⟨"world", none, ["box"], false, [], []⟩).register box
  let w := (w.populate .empty ⟨⟨0, "world"⟩, box⟩ [.empty]).2.1
  let w := (w.populate .empty ⟨⟨1, "box0"⟩, box⟩ [.empty]).2.1
  let known := [("outer", .agent ⟨1, "box0"⟩), ("inner", .agent ⟨2, "box1"⟩)]
  ⟨(Scope.start ⟨0, "world"⟩ "world").declareAll known, .start .standard w .empty⟩

/-- The root releases the outer box into the inner one. -/
theorem hosts_no_tree_nestedBoxes :
    ∃ r t, planRelease (.var "outer" .any) none (some (.var "inner" .any)) nestedBoxes = .ok r t ∧
      ¬∀ pre, pre <+: r.candidates →
        (after (moveAll r.destination pre) (t.holding r.holdings)).machine.world.Tree := by
  have hs : nestedBoxes.machine.world.Reachable := by
    simp only [nestedBoxes, Machine.start]
    refine Reachable.change (Reachable.change ?_ (.born _ _ _ _ ?_)) (.born _ _ _ _ ?_)
    · exact .register _ (.start _)
    · decide
    · decide
  have htree : nestedBoxes.machine.world.Rooted := by
    simp only [nestedBoxes, Machine.start]
    refine Rooted.populate (Rooted.populate ?_ ?_ _ _) ?_ _ _
    · exact (fades_register _ _).rooted ⟨lineal_start _, tree_start _⟩
    · decide
    · decide
  refine ⟨_, _, rfl, ?_⟩
  have hiff := (hosts_stay_tree_iff runNative_homely hs htree.tree).2.1
    (.release (.var "outer" .any) none (some (.var "inner" .any)) none []) _ _ _ rfl rfl
  rw [hiff]
  decide +kernel

end Habitat

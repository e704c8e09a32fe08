import Habitat.Proofs.Expr.Typing
import Habitat.Proofs.Model.Code
import Habitat.Proofs.Run.Discipline
import Habitat.Run.Statement
import Habitat.Statement.Build

/-!
# Loops over numbers

A loop over numbers is built in one of three ways. With bounds whose static types are known it
reads them as integers or as floats, constants among them when it is built; otherwise it computes
them when it starts, and their values decide. All three do the same.

* `resolve_ofExpr`: a bound that is known is the one that would be computed.
* `resolveRange_eq`: bounds of known types are read as they are computed.
* `runKind_ofRange`: the kind that the types of the bounds tell is the one that their values tell.
* `built_ranges_agree`: a loop that is built runs like one whose values decide.
-/
namespace Habitat

open Exec

/-- What the names in an expression stand for. -/
def State.vars (s : State) : String → Option Value := Expr.lookup? (env s.scope s.machine)

/-- The names of expressions stand for the same in both states. -/
structure State.Agrees (s t : State) : Prop where
  scope : t.scope = s.scope
  world : t.machine.world = s.machine.world

theorem State.Agrees.vars {s t : State} (h : s.Agrees t) : t.vars = s.vars := by
  funext name
  simp only [State.vars, Expr.lookup?, env, h.scope, h.world]

theorem State.Agrees.refl {s : State} : s.Agrees s := ⟨rfl, rfl⟩

theorem State.Agrees.trans {s t u : State} (h : s.Agrees t) (h' : t.Agrees u) : s.Agrees u :=
  ⟨h'.scope.trans h.scope, h'.world.trans h.world⟩

namespace Exec

theorem eval_eq_ok {e : Expr} {s t : State} {v : Value} (h : eval e s = .ok v t) :
    s.Agrees t ∧ ∃ u, e.eval (env s.scope { s.machine with store := .empty }) s.machine.store =
      .ok v u := by
  unfold eval compute Eval.releasing at h
  dsimp only at h
  split at h
  case h_2 => cases h
  case h_1 a u hx =>
    cases h
    split at hx
    case h_2 => cases hx
    case h_1 b w hy =>
      cases hx
      exact ⟨⟨rfl, rfl⟩, w, hy⟩

/-- Where the syntax says that a value is an integer or a float, it is. -/
theorem type_of_eval {e : Expr} {s t : State} {v : Value} (honest : e.Honest s.vars)
    (hnum : e.staticType.base.isNumeric = true) (h : eval e s = .ok v t) :
    v.type = e.staticType.base := by
  obtain ⟨-, u, hu⟩ := eval_eq_ok h
  exact e.type_of_eval _ honest hnum hu

/-! ## Bounds -/

/-- A bound that is known is the one that would be computed. -/
theorem resolve_ofExpr {α : Type} {read : Value → Option α}
    (hread : ∀ v a, read v = some a → v.isFlat = true) (e : Expr) (s : State) :
    resolve read (.ofExpr read e) s = resolve read (.dynamic e) s := by
  unfold Bound.ofExpr
  cases h : e.constScalar.bind read with
  | none => rfl
  | some a =>
    obtain ⟨v, hv, ha⟩ := Option.bind_eq_some_iff.mp h
    have hrun : resolve read (.dynamic e) s = .ok a s := by
      refine (bind_ok (eval_of_constScalar hv (hread v a ha) s)).trans ?_
      rw [ha]
      rfl
    exact hrun.symm

theorem resolve_int (e : Expr) (s : State) :
    resolve intBound? (.int e) s = resolve intBound? (.dynamic e) s := by
  refine resolve_ofExpr (fun v n hv => ?_) e s
  cases v with
  | int => rfl
  | _ => cases hv

theorem resolve_float (e : Expr) (s : State) :
    resolve Value.asFloat (.float e) s = resolve Value.asFloat (.dynamic e) s := by
  refine resolve_ofExpr (fun v x hv => ?_) e s
  cases v with
  | int | float => rfl
  | _ => cases hv

end Exec

namespace Range

variable {α β : Type}

/-- The bounds that are given. -/
def bounds (r : Range α) : List α := r.start :: r.stop :: r.step.toList

/-- The range with every bound replaced. -/
def map (f : α → β) (r : Range α) : Range β := ⟨f r.start, f r.stop, r.step.map f⟩

theorem bounds_map (f : α → β) (r : Range α) : (r.map f).bounds = r.bounds.map f := by
  obtain ⟨start, stop, step⟩ := r
  cases step <;> rfl

end Range

namespace Exec

/-- The values of the bounds of a loop. -/
def evalRange (r : Range Expr) : Exec (Range Value) := do
  let start ← eval r.start
  let stop ← eval r.stop
  let step ← evalOption r.step
  return ⟨start, stop, step⟩

theorem runKind_anyRange (fuel : Nat) (visit : Value → Exec (Value × Bool)) (r : Range Expr) :
    runKind fuel visit (.anyRange r) = evalRange r >>= countAny fuel visit := by
  simp only [runKind, evalRange, bind_assoc, pure_bind]

theorem evalOption_eq_error {e : Expr} {s t : State} {err : Fault} (h : eval e s = .error err t) :
    evalOption (some e) s = .error err t :=
  bind_error h

theorem evalOption_eq_ok {e : Expr} {s t : State} {v : Value} (h : eval e s = .ok v t) :
    evalOption (some e) s = .ok (some v) t :=
  bind_ok h

/-- The bounds as numbers of one kind. -/
def readRange? {α : Type} (read : Value → Option α) (r : Range Value) : Option (Range α) := do
  let start ← read r.start
  let stop ← read r.stop
  match r.step with
  | some s => return ⟨start, stop, some (← read s)⟩
  | none => return ⟨start, stop, none⟩

/-- Wherever names stand for what they do in `s`, the value of an expression can be read. -/
def Readable {α : Type} (read : Value → Option α) (s : State) (e : Expr) : Prop :=
  ∀ t v u, s.Agrees t → eval e t = .ok v u → ∃ a, read v = some a

section
variable {α : Type} {read : Value → Option α} {bound : Expr → Bound α}
  (hbound : ∀ e s, resolve read (bound e) s = resolve read (.dynamic e) s)
include hbound

theorem resolve_eq_error {e : Expr} {s t : State} {err : Fault} (h : eval e s = .error err t) :
    resolve read (bound e) s = .error err t := by
  rw [hbound]
  exact bind_error h

theorem resolve_eq_ok {e : Expr} {s t : State} {v : Value} {a : α} (h : eval e s = .ok v t)
    (ha : read v = some a) : resolve read (bound e) s = .ok a t := by
  rw [hbound]
  refine (bind_ok h).trans ?_
  rw [ha]
  rfl

/-- Bounds that can be read give, one after the other, the numbers or the error that computing them
gives. -/
theorem resolveRange_eq {r : Range Expr} {s : State} (h : ∀ e ∈ r.bounds, Readable read s e) :
    match evalRange r s with
    | .ok vs t => ∃ x, readRange? read vs = some x ∧ resolveRange read (r.map bound) s = .ok x t
    | .error err t => resolveRange read (r.map bound) s = .error err t := by
  obtain ⟨start, stop, step⟩ := r
  unfold evalRange resolveRange Range.map
  cases hstart : eval start s with
  | error err t => rw [bind_error hstart, bind_error (resolve_eq_error hbound hstart)]
  | ok v t =>
    obtain ⟨a, ha⟩ := h start (by simp [Range.bounds]) s v t .refl hstart
    rw [bind_ok hstart, bind_ok (resolve_eq_ok hbound hstart ha)]
    have hst := (eval_eq_ok hstart).1
    cases hstop : eval stop t with
    | error err u => rw [bind_error hstop, bind_error (resolve_eq_error hbound hstop)]
    | ok w u =>
      obtain ⟨b, hb⟩ := h stop (by simp [Range.bounds]) t w u hst hstop
      rw [bind_ok hstop, bind_ok (resolve_eq_ok hbound hstop hb)]
      cases step with
      | none => exact ⟨⟨a, b, none⟩, by simp [readRange?, ha, hb], rfl⟩
      | some e =>
        cases hstep : eval e u with
        | error err y =>
          rw [bind_error (evalOption_eq_error hstep)]
          exact bind_error (resolve_eq_error hbound hstep)
        | ok z y =>
          have hsu := hst.trans (eval_eq_ok hstop).1
          obtain ⟨c, hc⟩ := h e (by simp [Range.bounds]) u z y hsu hstep
          rw [bind_ok (evalOption_eq_ok hstep)]
          exact ⟨⟨a, b, some c⟩, by simp [readRange?, ha, hb, hc],
            bind_ok (resolve_eq_ok hbound hstep hc)⟩

end

/-! ## Types of bounds -/

/-- The values of bounds have the types that the syntax says. -/
theorem types_of_evalRange {r : Range Expr} {s t : State} {vs : Range Value}
    (honest : ∀ e ∈ r.bounds, e.Honest s.vars)
    (hnum : ∀ e ∈ r.bounds, e.staticType.base.isNumeric = true) (h : evalRange r s = .ok vs t) :
    vs.bounds.map Value.type = r.bounds.map fun e => e.staticType.base := by
  obtain ⟨start, stop, step⟩ := r
  obtain ⟨v, s₁, hv, h⟩ := bind_eq_ok h
  obtain ⟨w, s₂, hw, h⟩ := bind_eq_ok h
  obtain ⟨z, s₃, hz, h⟩ := bind_eq_ok h
  cases h
  have h₁ := (eval_eq_ok hv).1
  have h₂ := h₁.trans (eval_eq_ok hw).1
  have hstart : v.type = start.staticType.base := by
    refine type_of_eval (honest start ?_) (hnum start ?_) hv <;> simp [Range.bounds]
  have hstop : w.type = stop.staticType.base := by
    refine type_of_eval (h₁.vars ▸ honest stop ?_) (hnum stop ?_) hw <;> simp [Range.bounds]
  cases step with
  | none =>
    cases hz
    simp [Range.bounds, hstart, hstop]
  | some e =>
    obtain ⟨z, s₄, hz, h⟩ := bind_eq_ok hz
    cases h
    have hstep : z.type = e.staticType.base := by
      refine type_of_eval (h₂.vars ▸ honest e ?_) (hnum e ?_) hz <;> simp [Range.bounds]
    simp [Range.bounds, hstart, hstop, hstep]

theorem readable_of_static {α : Type} {read : Value → Option α} {s : State} {e : Expr}
    (honest : e.Honest s.vars) (hnum : e.staticType.base.isNumeric = true)
    (hread : ∀ v : Value, v.type = e.staticType.base → ∃ a, read v = some a) :
    Readable read s e := by
  intro t v u hst hv
  exact hread v (type_of_eval (hst.vars ▸ honest) hnum hv)

theorem exists_intBound? {v : Value} (h : v.type = .int) : ∃ n, intBound? v = some n := by
  cases v with
  | int n => exact ⟨n, rfl⟩
  | _ => cases h

theorem exists_asFloat {v : Value} (h : v.type.isNumeric = true) : ∃ x, v.asFloat = some x := by
  cases v with
  | int | float => exact ⟨_, rfl⟩
  | _ => cases h

theorem type_of_intBound? {v : Value} {n : Int64} (h : intBound? v = some n) : v.type = .int := by
  cases v with
  | int => rfl
  | _ => cases h

theorem types_of_intRange? {vs : Range Value} {x : Range Int64} (h : intRange? vs = some x) :
    ∀ v ∈ vs.bounds, v.type = .int := by
  obtain ⟨start, stop, step⟩ := vs
  obtain ⟨a, ha, h⟩ := Option.bind_eq_some_iff.mp h
  obtain ⟨b, hb, h⟩ := Option.bind_eq_some_iff.mp h
  cases step with
  | none => simp [Range.bounds, type_of_intBound? ha, type_of_intBound? hb]
  | some z =>
    obtain ⟨c, hc, h⟩ := Option.bind_eq_some_iff.mp h
    simp [Range.bounds, type_of_intBound? ha, type_of_intBound? hb, type_of_intBound? hc]

/-! ## Counting -/

section
variable {fuel : Nat} {visit : Value → Exec (Value × Bool)} {vs : Range Value}

theorem countAny_of_ints {x : Range Int64} (h : readRange? intBound? vs = some x) :
    countAny fuel visit vs = countInts visit x := by
  have hint : intRange? vs = some x := h
  simp only [countAny, hint]

theorem number_of_asFloat {v : Value} {x : Float} (h : v.asFloat = some x) :
    number v = pure x := by
  simp only [number, h]

theorem countAny_of_floats {x : Range Float} (hint : intRange? vs = none)
    (h : readRange? Value.asFloat vs = some x) :
    countAny fuel visit vs = countFloats fuel visit x := by
  obtain ⟨start, stop, step⟩ := vs
  obtain ⟨a, ha, h⟩ := Option.bind_eq_some_iff.mp h
  obtain ⟨b, hb, h⟩ := Option.bind_eq_some_iff.mp h
  cases step with
  | none =>
    cases h
    simp only [countAny, hint, number_of_asFloat ha, number_of_asFloat hb, pure_bind]
  | some z =>
    obtain ⟨c, hc, h⟩ := Option.bind_eq_some_iff.mp h
    cases h
    simp only [countAny, hint, number_of_asFloat ha, number_of_asFloat hb, number_of_asFloat hc,
      pure_bind]

end

/-- Reading the bounds and counting does what computing them does, if their values say to count
that way. -/
theorem resolveRange_bind {α : Type} {read : Value → Option α} {bound : Expr → Bound α}
    (hbound : ∀ e s, resolve read (bound e) s = resolve read (.dynamic e) s) {fuel : Nat}
    {visit : Value → Exec (Value × Bool)} {r : Range Expr} {s : State}
    (hread : ∀ e ∈ r.bounds, Readable read s e) {count : Range α → Exec Value}
    (hcount : ∀ vs x t, evalRange r s = .ok vs t → readRange? read vs = some x →
      countAny fuel visit vs = count x) :
    (resolveRange read (r.map bound) >>= count) s =
      runKind fuel visit (.anyRange r) s := by
  have heq := resolveRange_eq hbound hread
  rw [runKind_anyRange]
  cases hvs : evalRange r s with
  | error err t =>
    rw [hvs] at heq
    rw [bind_error hvs, bind_error heq]
  | ok vs t =>
    rw [hvs] at heq
    obtain ⟨x, hx, heq⟩ := heq
    rw [bind_ok hvs, bind_ok heq, hcount vs x t hvs hx]

/-- A loop over numbers that chose its kind by the types of the bounds does what the values of the
bounds decide. -/
theorem runKind_ofRange (fuel : Nat) (visit : Value → Exec (Value × Bool)) {r : Range Expr}
    {s : State} (honest : ∀ e ∈ r.bounds, e.Honest s.vars) :
    runKind fuel visit (.ofRange r) s = runKind fuel visit (.anyRange r) s := by
  unfold LoopKind.ofRange
  extract_lets types
  split
  case isTrue hints =>
    have hint : ∀ e ∈ r.bounds, e.staticType.base = .int := by
      simpa [types, Range.bounds] using hints
    have hread : ∀ e ∈ r.bounds, Readable intBound? s e := fun e he =>
      readable_of_static (honest e he) (by rw [hint e he]; rfl)
        fun v hv => exists_intBound? (hv.trans (hint e he))
    exact resolveRange_bind resolve_int hread fun vs x t _ hx => countAny_of_ints hx
  case isFalse hints =>
    split
    case isFalse => rfl
    case isTrue hnums =>
      have hnum : ∀ e ∈ r.bounds, e.staticType.base.isNumeric = true := by
        simpa [types, Range.bounds] using hnums
      have hread : ∀ e ∈ r.bounds, Readable Value.asFloat s e := fun e he =>
        readable_of_static (honest e he) (hnum e he)
          fun v hv => exists_asFloat (hv ▸ hnum e he)
      refine resolveRange_bind resolve_float hread fun vs x t hvs hx => countAny_of_floats ?_ hx
      -- The types of the values are those of the bounds, and one of these is no integer.
      have htypes := types_of_evalRange honest hnum hvs
      cases hsome : intRange? vs with
      | none => rfl
      | some y =>
        have hall : ∀ b ∈ vs.bounds.map Value.type, b = .int := by
          simpa using types_of_intRange? hsome
        rw [htypes] at hall
        exact absurd (by simpa [types, Range.bounds] using hall) hints

/-- Bounds are computed alike when they are folded. -/
theorem runKind_folded (fuel : Nat) (visit : Value → Exec (Value × Bool)) (r : Range Expr) :
    runKind fuel visit (.anyRange (r.map Expr.folded)) = runKind fuel visit (.anyRange r) := by
  have hfold : ∀ e : Expr, eval e.folded = eval e := fun e => funext (eval_folded e)
  have hstep : evalOption (r.step.map Expr.folded) = evalOption r.step := by
    cases r.step with
    | none => rfl
    | some e => simp only [Option.map_some, evalOption, hfold]
  simp only [runKind, Range.map, hfold, hstep]

/-- Loops run alike if their iterations do. -/
theorem runLoop_congr {fuel : Nat} {run : Sequence → Exec Value} {var : Option String}
    {kind kind' : LoopKind} {body : Sequence} {s : State}
    (h : runKind fuel (iterate run var body) kind s = runKind fuel (iterate run var body) kind' s) :
    runLoop fuel run var kind body s = runLoop fuel run var kind' body s := by
  simp only [runLoop, bind, EStateM.bind, attempt, h]

end Exec

theorem Expr.Honest.folded {vars : String → Option Value} {e : Expr} (h : e.Honest vars) :
    e.folded.Honest vars := by
  unfold Expr.folded
  cases hfold : e.constScalar.bind Expr.literal? with
  | none => exact h
  | some lit =>
    obtain ⟨v, -, hlit⟩ := Option.bind_eq_some_iff.mp hfold
    cases v with
    | nil | bool | int | float | str => cases hlit; trivial
    | _ => cases hlit

/-- The loop that is built over a range of numbers. -/
theorem Build.loop_range {f : LoopFacets} {body : Sequence} {st : Statement}
    {ds ds' : List Diagnostic} {start stop : Expr} (htimes : f.times = none) (heach : f.each = none)
    (hcond : f.condition = none) (hstart : f.start = some start) (hstop : f.stop = some stop)
    (h : Build.loop f body ds = .ok st ds') :
    ∃ var, f.var = some var ∧
      st = .loop (some var) (.ofRange (Range.map Expr.folded ⟨start, stop, f.step⟩)) body := by
  unfold Build.loop at h
  simp only [htimes, heach, hcond, hstart, hstop] at h
  obtain ⟨var, ds₁, hvar, h⟩ := Build.bind_eq_ok h
  cases h
  cases hf : f.var with
  | none => simp only [Build.loopVar, hf] at hvar; cases hvar
  | some name =>
    simp only [Build.loopVar, hf] at hvar
    cases hvar
    exact ⟨var, rfl, rfl⟩

open Exec in
/-- A loop over a range of numbers runs as if nothing was known about its bounds before: as they are
written they are computed, and their values decide what is counted. -/
theorem built_ranges_agree {c : BuildContext} {f : LoopFacets} {drafts : List Draft}
    {ds ds' : List Diagnostic} {st : Statement} {start stop : Expr} (htimes : f.times = none)
    (heach : f.each = none) (hcond : f.condition = none) (hstart : f.start = some start)
    (hstop : f.stop = some stop) (hbuilt : Build.statement c (.loop f drafts) ds = .ok st ds') :
    ∃ var kind body, f.var = some var ∧ st = .loop (some var) kind body ∧
      ∀ (handlers : Handlers) (fuel : Nat) (run : Sequence → Exec Value) (s : State),
        (∀ e ∈ (Range.mk start stop f.step).bounds, e.Honest s.vars) →
        statementWith handlers fuel run st s =
          statementWith handlers fuel run (.loop (some var) (.anyRange ⟨start, stop, f.step⟩) body)
            s := by
  rw [Build.statement] at hbuilt
  obtain ⟨-, ds₁, -, hbuilt⟩ := Build.bind_eq_ok hbuilt
  obtain ⟨body, ds₂, -, hbuilt⟩ := Build.bind_eq_ok hbuilt
  obtain ⟨var, hvar, rfl⟩ := Build.loop_range htimes heach hcond hstart hstop hbuilt
  refine ⟨var, _, body, hvar, rfl, fun handlers fuel run s honest => ?_⟩
  refine runLoop_congr ?_
  rw [runKind_ofRange, runKind_folded]
  intro e he
  rw [Range.bounds_map] at he
  obtain ⟨e, hmem, rfl⟩ := List.mem_map.mp he
  exact (honest e hmem).folded

open Exec in
/-- A loop from a sum of constants to a variable that declares a float counts floats. It does what
it would do if it looked at its bounds when it starts, wherever the variable is a float. -/
theorem built_ranges_agree_float :
    let start : Expr := .binary .add (.int 1) (.int 1)
    let stop : Expr := .var "n" ⟨.float, .any, .any⟩
    let f : LoopFacets := ⟨some "i", none, none, none, some start, some stop, none⟩
    let kind : LoopKind := .floatRange ⟨.float (.int 2), .dynamic stop, none⟩
    let m : Machine := .start .standard (.start ⟨"world", none, [], false, [], []⟩) .empty
    let s : State := ⟨(Scope.start ⟨0, "world"⟩ "world").declare "n" (.float 3.5), m⟩
    Build.statement ⟨none, none⟩ (.loop f []) [] = .ok (.loop (some "i") kind []) [] ∧
      ∀ (handlers : Handlers) (fuel : Nat) (run : Sequence → Exec Value),
        statementWith handlers fuel run (.loop (some "i") kind []) s =
          statementWith handlers fuel run (.loop (some "i") (.anyRange ⟨start, stop, none⟩) [])
            s := by
  intro start stop f kind m s
  have hbuilt : Build.statement ⟨none, none⟩ (.loop f []) [] =
      .ok (.loop (some "i") kind []) [] := rfl
  obtain ⟨var, k, body, hvar, hst, hruns⟩ := built_ranges_agree rfl rfl rfl rfl rfl hbuilt
  cases hvar
  cases hst
  refine ⟨hbuilt, fun handlers fuel run => hruns handlers fuel run s fun e he => ?_⟩
  rcases List.mem_pair.mp he with rfl | rfl
  · exact ⟨trivial, trivial⟩
  · intro _ v hv
    cases hv
    rfl

end Habitat

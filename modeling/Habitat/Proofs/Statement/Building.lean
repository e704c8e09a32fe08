import Habitat.Statement.Build
import Mathlib.Data.List.Forall2

/-!
# Which drafts can be built

Building walks through drafts: it begins a draft, builds what is inside, and then finishes the
draft itself (`Draft.walk`). A draft is checked when it is finished, so a loop is checked after its
body; the remark that a loop gives several kinds of iteration is made when it begins.

`Build.Follows` says that building takes such a walk up to the first draft that is wrong by itself,
with the error of that draft and the remarks made until then.

* `Draft.fault?_eq_none_iff`: a draft is wrong by itself if it breaks its own rule.
* `EditFacets.remarks`, `LoopFacets.Ambiguous`: what is remarked on, and when.
* `Build.follows_sequence`: building takes the walk through its drafts.
* `builds_sound_drafts`: outside of any species, what can be built is what breaks no rule at any
  depth.
-/
namespace Habitat

/-! ## Rules -/

/-- The ways a loop can iterate. -/
inductive Iteration where
  | times | each | loopWhile | range
  deriving DecidableEq

namespace LoopFacets

/-- The way of iterating that counts: the first that is given. -/
def iteration? (f : LoopFacets) : Option Iteration :=
  if f.times.isSome then some .times
  else if f.each.isSome then some .each
  else if f.condition.isSome then some .loopWhile
  else if f.start.isSome && f.stop.isSome then some .range
  else none

/-- A loop says how it iterates, and names a variable where one takes values. -/
def Sound (f : LoopFacets) : Prop :=
  ∃ i, f.iteration? = some i ∧ (i = .each ∨ i = .range → f.var.isSome)

/-- The error of a loop that does not. -/
def fault? (f : LoopFacets) : Option BuildError :=
  match f.iteration? with
  | some .each =>
    if f.var.isNone then some (.incomplete "loop" "a loop variable is required with 'over'")
    else none
  | some .range =>
    if f.var.isNone then some (.incomplete "loop" "a loop variable is required with 'from'")
    else none
  | some _ => none
  | none =>
    some (.incomplete "loop" (
      if f.start.isSome then "'from' requires 'to'"
      else if f.stop.isSome then "'to' requires 'from'"
      else "one of 'times', 'over', 'while' or 'from'/'to' is required"))

theorem fault?_eq_none_iff (f : LoopFacets) : f.fault? = none ↔ f.Sound := by
  unfold fault? Sound
  cases f.iteration? with
  | none => simp
  | some i => cases i <;> simp [Option.isSome_iff_ne_none]

/-- A way of iterating is given; for a range, one bound is enough. -/
def Gives (f : LoopFacets) : Iteration → Prop
  | .times => f.times.isSome
  | .each => f.each.isSome
  | .loopWhile => f.condition.isSome
  | .range => f.start.isSome ∨ f.stop.isSome

/-- Several ways of iterating are given. -/
def Ambiguous (f : LoopFacets) : Prop := ∃ i j, i ≠ j ∧ f.Gives i ∧ f.Gives j

theorem one_lt_kindCount_iff (f : LoopFacets) : 1 < Build.kindCount f ↔ f.Ambiguous := by
  have hexists (P : Iteration → Prop) :
      (∃ i, P i) ↔ P .times ∨ P .each ∨ P .loopWhile ∨ P .range := by
    constructor
    · rintro ⟨i, hi⟩
      cases i <;> simp [hi]
    · rintro (h | h | h | h) <;> exact ⟨_, h⟩
  simp only [Ambiguous, hexists, Gives, Build.kindCount]
  cases f.times <;> cases f.each <;> cases f.condition <;> cases f.start <;> cases f.stop <;> simp

instance (f : LoopFacets) : Decidable f.Ambiguous :=
  decidable_of_iff _ f.one_lt_kindCount_iff

end LoopFacets

namespace EditFacets

/-- The facets of a change are there: something to add, something to put and either a place for it
or all of them, something to remove. Nothing is added to or removed from what has a fixed length. -/
def Sound (f : EditFacets) : EditKind → Prop
  | .add => f.item.isSome ∧ f.container.staticType.isFixedLength = false
  | .put => f.item.isSome ∧ (f.index.isSome ↔ f.all = false)
  | .remove =>
    (f.item.isSome ∨ f.index.isSome ∨ f.all) ∧ f.container.staticType.isFixedLength = false

/-- The error of a change that lacks a facet, or has two that do not go together. -/
def facetFault? (f : EditFacets) : EditKind → Option BuildError
  | .add => if f.item = none then some (.incomplete "add" "an item to add is required") else none
  | .put =>
    match f.item, f.all, f.index with
    | none, _, _ => some (.incomplete "put" "a value to put is required")
    | some _, true, some _ => some (.conflictingFacets "put" "all" "at")
    | some _, false, none => some (.incomplete "put" "either 'at' or 'all' is required")
    | _, _, _ => none
  | .remove =>
    match f.item, f.index, f.all with
    | none, none, false =>
      some (.incomplete "remove" "an item, an index or 'all' is required")
    | _, _, _ => none

/-- The error of a change whose facets are not right. What is missing is told before what is
fixed. -/
def fault? (f : EditFacets) (kind : EditKind) : Option BuildError :=
  (f.facetFault? kind).or
    (if kind ≠ .put ∧ f.container.staticType.isFixedLength then
      some (.fixedLengthContainer (f.container.text ++ " (" ++ f.container.staticType.text ++ ")"))
    else none)

theorem fault?_eq_none_iff (f : EditFacets) (kind : EditKind) :
    f.fault? kind = none ↔ f.Sound kind := by
  unfold fault? facetFault? Sound
  cases kind <;> cases f.item <;> cases f.index <;> cases f.all <;> simp

theorem checkFacets_eq (f : EditFacets) (kind : EditKind) :
    Build.checkFacets kind f =
      match f.facetFault? kind with
      | some e => .error e
      | none => .ok () := by
  unfold Build.checkFacets facetFault?
  cases kind <;> cases f.item <;> cases f.index <;> cases f.all <;> simp

/-! ### Remarks on types -/

/-- The container is known to be something else. -/
def Misused (f : EditFacets) : Prop :=
  f.container.staticType.base ≠ .any ∧
    f.container.staticType.base ∉ [BaseType.list, .map, .matrix, .graph]

/-- The type of what an item brings into the container. With `all` a container stands for its
elements, unless it is put. -/
def brings (f : EditFacets) (kind : EditKind) (item : Expr) : BaseType :=
  if f.all ∧ kind ≠ .put ∧ item.staticType.base ∈ [BaseType.list, .map, .matrix, .graph] then
    item.staticType.content
  else item.staticType.base

/-- An item is known not to suit the contents of the container; a graph takes any item. -/
def ItemMisfits (f : EditFacets) (kind : EditKind) (item : Expr) : Prop :=
  f.container.staticType.base ≠ .graph ∧
    (f.brings kind item).isTranslatableInto f.container.staticType.content = false

/-- An index suits the container: a list has numbers for indexes, and pairs where a part of it is
put, a matrix and a graph have a few types of their own, and a map says what its keys are. -/
def IndexSuits (f : EditFacets) (kind : EditKind) (index : Expr) : Prop :=
  let base := f.container.staticType.base
  let type := index.staticType.base
  base = .list ∧ (type.isTranslatableInto .int = true ∨ kind = .put ∧ type = .pair) ∨
  base = .matrix ∧ type ∈ [BaseType.any, .point, .list, .pair, .int] ∨
  base = .graph ∧ type ∈ [BaseType.any, .pair] ∨
  base ∉ [BaseType.list, .matrix, .graph] ∧
    type.isTranslatableInto f.container.staticType.key = true

instance (f : EditFacets) : Decidable f.Misused := inferInstanceAs (Decidable (_ ∧ _))

instance (f : EditFacets) (kind : EditKind) (item : Expr) : Decidable (f.ItemMisfits kind item) :=
  inferInstanceAs (Decidable (_ ∧ _))

instance (f : EditFacets) (kind : EditKind) (index : Expr) : Decidable (f.IndexSuits kind index) :=
  inferInstanceAs (Decidable (_ ∨ _))

/-- The remark on an item that does not suit the contents. -/
def itemRemark? (f : EditFacets) (kind : EditKind) : Option String :=
  (f.item.filter fun item => f.ItemMisfits kind item).map fun item =>
    "the type of the contents of " ++ f.container.text ++ " (" ++
      f.container.staticType.content.name ++ ") does not match the type of " ++ item.text ++ " (" ++
      (f.brings kind item).name ++ "); it will be casted"

/-- The remark on an index that does not suit the container. -/
def indexRemark? (f : EditFacets) (kind : EditKind) : Option String :=
  (f.index.filter fun index => ¬f.IndexSuits kind index).map fun index =>
    "the type of the index of " ++ f.container.text ++ " (" ++ f.container.staticType.key.name ++
      ") does not match the type of " ++ index.text ++ " (" ++ index.staticType.base.name ++ ")"

/-- The remarks on the types of a change: on a container that is none, or else on the item and then
on the index. -/
def remarks (f : EditFacets) (kind : EditKind) : List String :=
  if f.Misused then
    [f.container.text ++ " is of type " ++ f.container.staticType.text ++
      " and cannot be used as a container"]
  else (f.itemRemark? kind).toList ++ (f.indexRemark? kind).toList

theorem isContainer_iff (t : StaticType) :
    t.isContainer = true ↔ t.base ∈ [BaseType.list, .map, .matrix, .graph] := by
  unfold StaticType.isContainer
  cases t.base <;> decide

theorem indexAllowed_iff (f : EditFacets) (kind : EditKind) (index : Expr) :
    Build.indexAllowed kind f.container.staticType index.staticType.base = true ↔
      f.IndexSuits kind index := by
  unfold Build.indexAllowed IndexSuits
  cases f.container.staticType.base <;> simp

theorem itemWarning_eq (f : EditFacets) (kind : EditKind) :
    Build.itemWarning kind f f.container.staticType = (f.itemRemark? kind).toList := by
  unfold Build.itemWarning itemRemark?
  cases f.item with
  | none => rfl
  | some item =>
    have hbrings : (if f.all && kind != .put && item.staticType.isContainer then
        item.staticType.content else item.staticType.base) = f.brings kind item := by
      simp only [Bool.and_eq_true, bne_iff_ne, isContainer_iff, and_assoc, brings]
    have hmisfits : (f.container.staticType.base != .graph &&
        !(f.brings kind item).isTranslatableInto f.container.staticType.content) = true ↔
        f.ItemMisfits kind item := by
      simp only [Bool.and_eq_true, bne_iff_ne, Bool.not_eq_true', ItemMisfits]
    simp only [hbrings, hmisfits]
    by_cases h : f.ItemMisfits kind item <;> simp [h, Option.filter_some]

theorem indexWarning_eq (f : EditFacets) (kind : EditKind) :
    Build.indexWarning kind f f.container.staticType = (f.indexRemark? kind).toList := by
  unfold Build.indexWarning indexRemark?
  cases f.index with
  | none => rfl
  | some index =>
    simp only [indexAllowed_iff]
    by_cases h : f.IndexSuits kind index <;> simp [h, Option.filter_some]

/-- The builder makes these remarks. -/
theorem typeWarnings_eq (f : EditFacets) (kind : EditKind) :
    Build.typeWarnings kind f = f.remarks kind := by
  have hmisused : (f.container.staticType.base != .any && !f.container.staticType.isContainer) =
      true ↔ f.Misused := by
    simp only [Bool.and_eq_true, bne_iff_ne, Bool.not_eq_true', Misused, ← isContainer_iff,
      Bool.not_eq_true]
  unfold Build.typeWarnings remarks
  simp only [hmisused, itemWarning_eq, indexWarning_eq]

end EditFacets

namespace Draft

/-- The rule of a draft by itself, outside of any species. -/
def Sound : Draft → Prop
  | .loop f _ => f.Sound
  | .edit kind f => f.Sound kind
  | .invoke _ => False
  | _ => True

/-- The error of a draft that breaks its rule. -/
def fault? : Draft → Option BuildError
  | .loop f _ => f.fault?
  | .edit kind f => f.fault? kind
  | .invoke _ => some (.incomplete "invoke" "only available inside a species")
  | _ => none

theorem fault?_eq_none_iff (d : Draft) : d.fault? = none ↔ d.Sound := by
  cases d with
  | loop f body => exact f.fault?_eq_none_iff
  | edit kind f => exact f.fault?_eq_none_iff kind
  | _ => simp [fault?, Sound]

/-- The sequences inside a draft. -/
def bodies : Draft → List (List Draft)
  | .branch _ yes no => yes :: no.toList
  | .attempt body rescue => body :: rescue.toList
  | .block body | .loop _ body | .ask _ _ body | .create _ body | .capture _ _ _ body
  | .release _ _ _ _ body | .migrate _ _ _ body => [body]
  | _ => []

/-- A draft is among drafts, at any depth. -/
inductive Within (d : Draft) : List Draft → Prop
  | here {drafts : List Draft} (h : d ∈ drafts) : Within d drafts
  | inside {drafts body : List Draft} {e : Draft} (he : e ∈ drafts) (hbody : body ∈ e.bodies)
      (h : Within d body) : Within d drafts

/-! ## Walks -/

/-- A moment of a walk: a draft is begun or finished. -/
inductive Moment where
  | begun (d : Draft)
  | finished (d : Draft)

/-- The error of a draft shows when it is finished. -/
def Moment.fault? : Moment → Option BuildError
  | .begun _ => none
  | .finished d => d.fault?

/-- The remarks made at a moment: on several kinds of iteration when a loop is begun, on types when
a change is finished. -/
def Moment.remarks : Moment → List Diagnostic
  | .begun (.loop f _) =>
    if f.Ambiguous then
      [⟨"loop", "several iteration kinds given; only the first of times, over, while, " ++
        "from/to is used"⟩]
    else []
  | .finished (.edit kind f) => (f.remarks kind).map (⟨kind.keyword, ·⟩)
  | _ => []

mutual

/-- The walk through what is inside a draft. -/
def inside : Draft → List Moment
  | .branch _ yes no => walk yes ++ walkOption no
  | .attempt body rescue => walk body ++ walkOption rescue
  | .block body | .loop _ body | .ask _ _ body | .create _ body | .capture _ _ _ body
  | .release _ _ _ _ body | .migrate _ _ _ body => walk body
  | _ => []

/-- The walk through drafts. -/
def walk : List Draft → List Moment
  | [] => []
  | d :: rest => .begun d :: (inside d ++ .finished d :: walk rest)

def walkOption : Option (List Draft) → List Moment
  | none => []
  | some body => walk body

end

/-- The walk through one draft. -/
def visit (d : Draft) : List Moment := .begun d :: (inside d ++ [.finished d])

theorem walk_cons (d : Draft) (rest : List Draft) : walk (d :: rest) = d.visit ++ walk rest := by
  simp [walk, visit]

theorem inside_eq_flatMap (d : Draft) : inside d = d.bodies.flatMap walk := by
  cases d with
  | branch _ _ rest | attempt _ rest => cases rest <;> simp [inside, bodies, walkOption]
  | _ => simp [inside, bodies]

theorem walk_eq_flatMap (drafts : List Draft) : walk drafts = drafts.flatMap visit := by
  induction drafts with
  | nil => rfl
  | cons d rest ih => rw [walk_cons, ih, List.flatMap_cons]

theorem sizeOf_lt_of_mem_bodies {d : Draft} {body : List Draft} (h : body ∈ d.bodies) :
    sizeOf body < sizeOf d := by
  cases d with
  | branch _ _ rest | attempt _ rest =>
    rcases List.mem_cons.mp h with rfl | h
    · simp only [branch.sizeOf_spec, attempt.sizeOf_spec]
      omega
    · obtain rfl := Option.mem_toList.mp h
      simp only [branch.sizeOf_spec, attempt.sizeOf_spec, Option.some.sizeOf_spec]
      omega
  | block | loop | ask | create | capture | release | migrate =>
    obtain rfl := List.mem_singleton.mp h
    simp only [block.sizeOf_spec, loop.sizeOf_spec, ask.sizeOf_spec, create.sizeOf_spec,
      capture.sizeOf_spec, release.sizeOf_spec, migrate.sizeOf_spec]
    omega
  | _ => exact nomatch h

/-- A walk finishes the drafts at any depth. -/
theorem finished_mem_walk_iff {d : Draft} {drafts : List Draft} :
    .finished d ∈ walk drafts ↔ d.Within drafts := by
  constructor
  · -- What is inside is smaller.
    intro h
    induction hn : sizeOf drafts using Nat.strongRecOn generalizing drafts with
    | _ n ih =>
      rw [walk_eq_flatMap, List.mem_flatMap] at h
      obtain ⟨e, he, h⟩ := h
      simp only [visit, List.mem_cons, List.mem_append, inside_eq_flatMap, List.mem_flatMap,
        reduceCtorEq, false_or, List.not_mem_nil, or_false, Moment.finished.injEq] at h
      rcases h with ⟨body, hbody, h⟩ | rfl
      · have hsize : sizeOf body < sizeOf drafts :=
          Nat.lt_trans (sizeOf_lt_of_mem_bodies hbody) (List.sizeOf_lt_of_mem he)
        exact .inside he hbody (ih _ (hn ▸ hsize) h rfl)
      · exact .here he
  · intro h
    induction h with
    | here h =>
      rw [walk_eq_flatMap]
      exact List.mem_flatMap.mpr ⟨d, h, by simp [visit]⟩
    | inside he hbody _ ih =>
      rw [walk_eq_flatMap]
      refine List.mem_flatMap.mpr ⟨_, he, List.mem_cons_of_mem _ (List.mem_append_left _ ?_)⟩
      rw [inside_eq_flatMap]
      exact List.mem_flatMap.mpr ⟨_, hbody, ih⟩

end Draft

/-! ## What is built -/

/-- The variable and the kind of a loop that is built. -/
inductive LoopFacets.Yields (f : LoopFacets) : Option String → LoopKind → Prop
  | times {count : Expr} (h : f.times = some count) : Yields f none (.times (.int count.folded))
  | each {var : String} {source : Expr} (htimes : f.times = none) (h : f.each = some source)
      (hvar : f.var = some var) : Yields f (some var) (.each source)
  | loopWhile {condition : Expr} (htimes : f.times = none) (heach : f.each = none)
      (h : f.condition = some condition) : Yields f none (.loopWhile condition)
  | range {var : String} {start stop : Expr} (htimes : f.times = none) (heach : f.each = none)
      (hcondition : f.condition = none) (hstart : f.start = some start) (hstop : f.stop = some stop)
      (hvar : f.var = some var) :
      Yields f (some var) (.ofRange ⟨start.folded, stop.folded, f.step.map Expr.folded⟩)

/-- A statement is what a draft describes, and so are the statements inside it. Values that are
stored, counts and bounds are folded. -/
inductive Mirrors : Draft → Statement → Prop
  | declare (name : String) (value : Option Expr) :
    Mirrors (.declare name value) (.declare name (value.map Expr.folded))
  | assign (target : Option Expr) (name : String) (value : Expr) :
    Mirrors (.assign target name value) (.assign target name value.folded)
  | branch (condition : Expr) {yes : List Draft} {no : Option (List Draft)} {yes' : Sequence}
      {no' : Option Sequence} (hyes : List.Forall₂ Mirrors yes yes')
      (hno : Option.Rel (List.Forall₂ Mirrors) no no') :
    Mirrors (.branch condition yes no) (.branch condition yes' no')
  | block {body : List Draft} {body' : Sequence} (h : List.Forall₂ Mirrors body body') :
    Mirrors (.block body) (.block body')
  | loop {f : LoopFacets} {body : List Draft} {var : Option String} {kind : LoopKind}
      {body' : Sequence} (hkind : f.Yields var kind) (h : List.Forall₂ Mirrors body body') :
    Mirrors (.loop f body) (.loop var kind body')
  | ask (target : Expr) (parallel : Option Expr) {body : List Draft} {body' : Sequence}
      (h : List.Forall₂ Mirrors body body') :
    Mirrors (.ask target parallel body) (.ask target parallel body')
  | create (f : CreateFacets) {body : List Draft} {body' : Sequence}
      (h : List.Forall₂ Mirrors body body') :
    Mirrors (.create f body) (.create { f with number := f.number.map Expr.folded } body')
  | capture (target : Expr) (species returns : Option String) {body : List Draft}
      {body' : Sequence} (h : List.Forall₂ Mirrors body body') :
    Mirrors (.capture target species returns body) (.capture target species returns body')
  | release (target : Expr) (species : Option String) (host : Option Expr)
      (returns : Option String) {body : List Draft} {body' : Sequence}
      (h : List.Forall₂ Mirrors body body') :
    Mirrors (.release target species host returns body) (.release target species host returns body')
  | migrate (source target : String) (returns : Option String) {body : List Draft}
      {body' : Sequence} (h : List.Forall₂ Mirrors body body') :
    Mirrors (.migrate source target returns body) (.migrate source target returns body')
  | call (f : CallFacets) :
    Mirrors (.call f) (.call ⟨f.action, f.args, f.target, none, f.returns⟩)
  | edit (kind : EditKind) (f : EditFacets) :
    Mirrors (.edit kind f) (.edit kind f (f.remarks kind))
  | attempt {body : List Draft} {rescue : Option (List Draft)} {body' : Sequence}
      {rescue' : Option Sequence} (hbody : List.Forall₂ Mirrors body body')
      (hrescue : Option.Rel (List.Forall₂ Mirrors) rescue rescue') :
    Mirrors (.attempt body rescue) (.attempt body' rescue')
  | leave : Mirrors .leave .leave
  | skip : Mirrors .skip .skip
  | yield (value : Option Expr) : Mirrors (.yield value) (.yield value)
  | die : Mirrors .die .die
  | write (message : Expr) : Mirrors (.write message) (.write message)
  | warn (message : Expr) : Mirrors (.warn message) (.warn message)
  | raise (message : Expr) : Mirrors (.raise message) (.raise message)

/-! ## Building along a walk -/

open Draft (Moment)

namespace Build

/-- How building ends that takes a walk and starts with some remarks. -/
inductive Ends {α : Type} (walk : List Moment) (P : α → Prop) (ds : List Diagnostic) :
    EStateM.Result BuildError (List Diagnostic) α → Prop
  /-- Nothing was wrong, and all remarks were made. -/
  | built {a : α} (hsound : ∀ m ∈ walk, m.fault? = none) (ha : P a) :
    Ends walk P ds (.ok a (ds ++ walk.flatMap Moment.remarks))
  /-- The walk stopped at the first fault, with the remarks made until then. -/
  | stopped {before after : List Moment} {m : Moment} {e : BuildError}
      (hwalk : walk = before ++ m :: after) (hsound : ∀ m ∈ before, m.fault? = none)
      (he : m.fault? = some e) :
    Ends walk P ds (.error e (ds ++ before.flatMap Moment.remarks))

/-- Building takes a walk, and what it builds has a property. -/
def Follows {α : Type} (walk : List Moment) (P : α → Prop) (x : Build α) : Prop :=
  ∀ ds, Ends walk P ds (x ds)

namespace Follows
variable {α β : Type} {walk walk' : List Moment} {P : α → Prop} {Q : β → Prop} {x : Build α}

theorem pure {a : α} (ha : P a) : Follows [] P (Pure.pure a) := by
  intro ds
  have h : Ends [] P ds (.ok a (ds ++ [].flatMap Moment.remarks)) :=
    .built (fun _ h => absurd h List.not_mem_nil) ha
  rw [List.flatMap_nil, List.append_nil] at h
  exact h

theorem bind {f : α → Build β} (hx : Follows walk P x) (hf : ∀ a, P a → Follows walk' Q (f a)) :
    Follows (walk ++ walk') Q (x >>= f) := by
  intro ds
  change Ends _ _ _ (EStateM.bind x f ds)
  unfold EStateM.bind
  have h := hx ds
  generalize x ds = r at h
  cases h with
  | @built a hsound ha =>
    have h' := hf a ha (ds ++ walk.flatMap Moment.remarks)
    dsimp only
    generalize f a (ds ++ walk.flatMap Moment.remarks) = r at h'
    cases h' with
    | built hsound' hb =>
      rw [List.append_assoc, ← List.flatMap_append]
      exact .built (List.forall_mem_append.mpr ⟨hsound, hsound'⟩) hb
    | @stopped before after m e hwalk hsound' he =>
      rw [List.append_assoc, ← List.flatMap_append]
      have hwhole : walk ++ walk' = walk ++ before ++ m :: after := by
        rw [hwalk, List.append_assoc]
      exact .stopped hwhole (List.forall_mem_append.mpr ⟨hsound, hsound'⟩) he
  | @stopped before after m e hwalk hsound he =>
    have hwhole : walk ++ walk' = before ++ m :: (after ++ walk') := by
      rw [hwalk, List.append_assoc, List.cons_append]
    exact .stopped hwhole hsound he

/-- A fault stops the walk. -/
theorem throw {m : Moment} {e : BuildError} (he : m.fault? = some e) :
    Follows (m :: walk) P (MonadExcept.throw e : Build α) := by
  intro ds
  have h : Ends (m :: walk) P ds (.error e (ds ++ [].flatMap Moment.remarks)) :=
    .stopped (List.nil_append _).symm (fun _ h => absurd h List.not_mem_nil) he
  rw [List.flatMap_nil, List.append_nil] at h
  exact h

/-- A moment at which nothing is wrong and some remarks are made. -/
theorem remark {m : Moment} {x : Build Unit} (hsound : m.fault? = none)
    (hx : ∀ ds, x ds = .ok () (ds ++ m.remarks)) : Follows [m] (fun _ => True) x := by
  intro ds
  rw [hx]
  have h : Ends [m] (fun _ => True) ds (.ok () (ds ++ [m].flatMap Moment.remarks)) :=
    .built (by simpa) trivial
  rwa [List.flatMap_singleton] at h

/-- A result at a moment at which nothing is wrong and nothing to remark. -/
theorem done {m : Moment} {a : α} (hsound : m.fault? = none) (hquiet : m.remarks = [])
    (ha : P a) : Follows [m] P (Pure.pure a) := by
  have hm : Follows [m] (fun _ => True) (Pure.pure () : Build Unit) :=
    remark hsound fun ds => by rw [hquiet, List.append_nil]; rfl
  exact hm.bind fun _ _ => pure ha

theorem map {f : α → β} (hx : Follows walk P x) (hf : ∀ a, P a → Q (f a)) :
    Follows walk Q (do return f (← x)) := by
  have h := hx.bind fun a ha => pure (hf a ha)
  rwa [List.append_nil] at h

/-- Building what is inside a draft that has no rule and no remarks of its own. -/
theorem around {d : Draft} (hsound : d.fault? = none) (hbegun : (Moment.begun d).remarks = [])
    (hfinished : (Moment.finished d).remarks = []) (hx : Follows (Draft.inside d) P x) :
    Follows d.visit P x := by
  have hbegin : Follows [.begun d] (fun _ => True) (Pure.pure () : Build Unit) :=
    done rfl hbegun trivial
  have h := hbegin.bind fun _ _ => hx.bind fun a ha => done (m := .finished d) hsound hfinished ha
  rwa [bind_pure] at h

end Follows

/-- A builder that knows neither a model nor a species. -/
def bare : BuildContext := ⟨none, none⟩

theorem follows_checkKinds (f : LoopFacets) (drafts : List Draft) :
    Follows [.begun (.loop f drafts)] (fun _ => True) (checkKinds f) := by
  refine .remark rfl fun ds => ?_
  unfold checkKinds
  by_cases hkinds : f.Ambiguous
  · rw [if_pos (f.one_lt_kindCount_iff.mpr hkinds), Moment.remarks, if_pos hkinds]
    rfl
  · rw [if_neg (mt f.one_lt_kindCount_iff.mp hkinds), Moment.remarks, if_neg hkinds,
      List.append_nil]
    rfl

theorem follows_loopVar {f : LoopFacets} {drafts : List Draft} {kind : String}
    {g : String → Build Statement}
    (hnone : f.var = none →
      f.fault? = some (.incomplete "loop" ("a loop variable is required with '" ++ kind ++ "'")))
    (hsome : ∀ var, f.var = some var →
      Follows [.finished (.loop f drafts)] (Mirrors (.loop f drafts)) (g var)) :
    Follows [.finished (.loop f drafts)] (Mirrors (.loop f drafts)) (loopVar f kind >>= g) := by
  unfold loopVar
  cases hvar : f.var with
  | none => exact .throw (hnone hvar)
  | some var => exact hsome var hvar

/-- A loop is checked and built once its body is. -/
theorem follows_loop (f : LoopFacets) {drafts : List Draft} {body : Sequence}
    (h : List.Forall₂ Mirrors drafts body) :
    Follows [.finished (.loop f drafts)] (Mirrors (.loop f drafts)) (loop f body) := by
  unfold loop
  cases htimes : f.times with
  | some count =>
    have hsound : f.fault? = none := by simp [LoopFacets.fault?, LoopFacets.iteration?, htimes]
    exact .done hsound rfl (.loop (.times htimes) h)
  | none =>
    cases heach : f.each with
    | some source =>
      refine follows_loopVar (fun hvar => ?_) fun var hvar => ?_
      · simp [LoopFacets.fault?, LoopFacets.iteration?, htimes, heach, hvar]
      · have hsound : f.fault? = none := by
          simp [LoopFacets.fault?, LoopFacets.iteration?, htimes, heach, hvar]
        exact .done hsound rfl (.loop (.each htimes heach hvar) h)
    | none =>
      cases hcond : f.condition with
      | some condition =>
        have hsound : f.fault? = none := by
          simp [LoopFacets.fault?, LoopFacets.iteration?, htimes, heach, hcond]
        exact .done hsound rfl (.loop (.loopWhile htimes heach hcond) h)
      | none =>
        cases hstart : f.start with
        | some start =>
          cases hstop : f.stop with
          | some stop =>
            refine follows_loopVar (fun hvar => ?_) fun var hvar => ?_
            · simp [LoopFacets.fault?, LoopFacets.iteration?, htimes, heach, hcond, hstart, hstop,
                hvar]
            · have hsound : f.fault? = none := by
                simp [LoopFacets.fault?, LoopFacets.iteration?, htimes, heach, hcond, hstart,
                  hstop, hvar]
              exact .done hsound rfl (.loop (.range htimes heach hcond hstart hstop hvar) h)
          | none =>
            refine .throw ?_
            simp [Moment.fault?, Draft.fault?, LoopFacets.fault?, LoopFacets.iteration?, htimes,
              heach, hcond, hstart, hstop]
        | none =>
          cases hstop : f.stop with
          | some stop | none =>
            refine .throw ?_
            simp [Moment.fault?, Draft.fault?, LoopFacets.fault?, LoopFacets.iteration?, htimes,
              heach, hcond, hstart, hstop]

theorem forM_diagnose (keyword : String) (messages : List String) (ds : List Diagnostic) :
    messages.forM (diagnose keyword) ds = .ok () (ds ++ messages.map (⟨keyword, ·⟩)) := by
  induction messages generalizing ds with
  | nil => simp; rfl
  | cons message rest ih =>
    change rest.forM (diagnose keyword) (ds ++ [⟨keyword, message⟩]) = _
    rw [ih, List.append_assoc, List.map_cons, List.singleton_append]

theorem follows_edit (kind : EditKind) (f : EditFacets) :
    Follows [.finished (.edit kind f)] (Mirrors (.edit kind f)) (edit kind f) := by
  unfold edit
  rw [f.checkFacets_eq, f.typeWarnings_eq]
  cases hfacets : f.facetFault? kind with
  | some e =>
    refine .throw ?_
    simp [Moment.fault?, Draft.fault?, EditFacets.fault?, hfacets]
  | none =>
    dsimp only
    by_cases hfixed : (kind != .put && f.container.staticType.isFixedLength) = true
    · rw [if_pos hfixed]
      refine .throw ?_
      have hfixed' : kind ≠ .put ∧ f.container.staticType.isFixedLength = true := by
        simpa using hfixed
      simp [Moment.fault?, Draft.fault?, EditFacets.fault?, hfacets, hfixed']
    · rw [if_neg hfixed]
      have hsound : f.fault? kind = none := by
        have hfixed' : ¬(kind ≠ .put ∧ f.container.staticType.isFixedLength = true) := by
          simpa using hfixed
        rw [EditFacets.fault?, hfacets, if_neg hfixed']
        rfl
      have hremarks : Follows [.finished (.edit kind f)] (fun _ => True)
          ((f.remarks kind).forM (diagnose kind.keyword)) :=
        .remark hsound (forM_diagnose _ _)
      exact hremarks.bind fun _ _ => .pure (.edit kind f)

mutual

/-- Building a draft takes the walk through it. -/
theorem follows_statement (d : Draft) : Follows d.visit (Mirrors d) (statement bare d) := by
  match d with
  | .branch condition yes no =>
    rw [statement]
    exact .around rfl rfl rfl ((follows_sequence yes).bind fun _ hyes =>
      (follows_optionalSequence no).map fun _ hno => .branch condition hyes hno)
  | .attempt body rescue =>
    rw [statement]
    exact .around rfl rfl rfl ((follows_sequence body).bind fun _ hbody =>
      (follows_optionalSequence rescue).map fun _ hrescue => .attempt hbody hrescue)
  | .loop f body =>
    rw [statement]
    exact (follows_checkKinds f body).bind fun _ _ =>
      (follows_sequence body).bind fun _ hbody => follows_loop f hbody
  | .block body =>
    rw [statement]
    exact .around rfl rfl rfl ((follows_sequence body).map fun _ h => .block h)
  | .ask target parallel body =>
    rw [statement]
    exact .around rfl rfl rfl ((follows_sequence body).map fun _ h => .ask target parallel h)
  | .create f body =>
    rw [statement]
    exact .around rfl rfl rfl ((follows_sequence body).map fun _ h => .create f h)
  | .capture target species returns body =>
    rw [statement]
    exact .around rfl rfl rfl
      ((follows_sequence body).map fun _ h => .capture target species returns h)
  | .release target species host returns body =>
    rw [statement]
    exact .around rfl rfl rfl
      ((follows_sequence body).map fun _ h => .release target species host returns h)
  | .migrate source target returns body =>
    rw [statement]
    exact .around rfl rfl rfl
      ((follows_sequence body).map fun _ h => .migrate source target returns h)
  | .edit kind f =>
    rw [statement]
    have hbegin : Follows [.begun (.edit kind f)] (fun _ => True) (Pure.pure () : Build Unit) :=
      .done rfl rfl trivial
    exact hbegin.bind fun _ _ => follows_edit kind f
  | .invoke f =>
    rw [statement]
    have hbegin : Follows [.begun (.invoke f)] (fun _ => True) (Pure.pure () : Build Unit) :=
      .done rfl rfl trivial
    exact hbegin.bind fun _ _ => .throw rfl
  | .declare .. | .assign .. | .call _ | .leave | .skip | .yield _ | .die | .write _ | .warn _
  | .raise _ =>
    rw [statement]
    exact .around rfl rfl rfl (.pure (by constructor))

/-- Building drafts takes the walk through them. -/
theorem follows_sequence (drafts : List Draft) :
    Follows (Draft.walk drafts) (List.Forall₂ Mirrors drafts) (sequence bare drafts) := by
  match drafts with
  | [] =>
    rw [sequence]
    exact .pure .nil
  | d :: rest =>
    rw [sequence, Draft.walk_cons]
    exact (follows_statement d).bind fun _ hst => (follows_sequence rest).map fun _ => .cons hst

theorem follows_optionalSequence (drafts : Option (List Draft)) :
    Follows (Draft.walkOption drafts) (Option.Rel (List.Forall₂ Mirrors) drafts)
      (optionalSequence bare drafts) := by
  match drafts with
  | none =>
    rw [optionalSequence]
    exact .pure .none
  | some body =>
    rw [optionalSequence]
    exact (follows_sequence body).map fun _ => .some

end
end Build

/-- Outside of any species, drafts can be built exactly if none of them, at any depth, breaks its
rule. The statements then mirror the drafts, and all remarks were made. Otherwise the error is that
of the first draft that breaks its rule when it is finished, and the remarks are those made until
then. -/
theorem builds_sound_drafts (drafts : List Draft) :
    ((∃ body ds, Build.sequence Build.bare drafts [] = .ok body ds) ↔
      ∀ d : Draft, d.Within drafts → d.Sound) ∧
    match Build.sequence Build.bare drafts [] with
    | .ok body ds =>
      List.Forall₂ Mirrors drafts body ∧ ds = (Draft.walk drafts).flatMap Moment.remarks
    | .error e ds =>
      ∃ before d after, Draft.walk drafts = before ++ .finished d :: after ∧
        (∀ d', .finished d' ∈ before → d'.Sound) ∧ ¬ d.Sound ∧ d.fault? = some e ∧
        ds = before.flatMap Moment.remarks := by
  have h := Build.follows_sequence drafts []
  generalize Build.sequence Build.bare drafts [] = result at h
  cases h with
  | built hsound hbody =>
    refine ⟨iff_of_true ⟨_, _, rfl⟩ fun d hd => ?_, hbody, rfl⟩
    exact d.fault?_eq_none_iff.mp (hsound _ (Draft.finished_mem_walk_iff.mpr hd))
  | @stopped before after m e hwalk hsound he =>
    cases m with
    | begun d => cases he
    | finished d =>
      have hbroken : ¬ d.Sound := fun hd => by
        rw [Moment.fault?, d.fault?_eq_none_iff.mpr hd] at he
        cases he
      have hwithin : d.Within drafts := by
        rw [← Draft.finished_mem_walk_iff, hwalk]
        exact List.mem_append_right _ List.mem_cons_self
      refine ⟨iff_of_false ?_ fun hall => hbroken (hall d hwithin), ?_⟩
      · rintro ⟨_, _, h⟩
        cases h
      · refine ⟨before, d, after, hwalk, fun d' hd' => ?_, hbroken, he, rfl⟩
        exact d'.fault?_eq_none_iff.mp (hsound _ hd')

-- The remark on the loop comes before the error of its body, and the body before the loop itself,
-- which lacks its variable.
example : Build.sequence Build.bare
    [.loop ⟨none, none, some .nil, some .nil, none, none, none⟩ [.invoke ⟨"tick", [], none, none⟩]]
    [] = .error (.incomplete "invoke" "only available inside a species")
      [⟨"loop", "several iteration kinds given; only the first of times, over, while, " ++
        "from/to is used"⟩] :=
  rfl

end Habitat

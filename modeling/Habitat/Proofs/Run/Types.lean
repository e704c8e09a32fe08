import Habitat.Proofs.Run.Ranges

/-!
# Static types in a run

The static type of an expression is known when a program is built, and loops are built after it.
In a state whose variables hold what they declare, the value of an expression is of its static
type, or there is none.

* `Expr.parts`: an expression and all that it is made of.
* `static_types_sound`: values are of the static types.
-/
namespace Habitat

namespace Expr

mutual

/-- The expression and everything inside it. -/
def parts : Expr → List Expr
  | .attr target name => .attr target name :: target.parts
  | .unary op operand => .unary op operand :: operand.parts
  | .binary op left right => .binary op left right :: left.parts ++ right.parts
  | .list items content => .list items content :: partsOfAll items
  | .map entries => .map entries :: partsOfEntries entries
  | .pair key value => .pair key value :: key.parts ++ value.parts
  | .point x y => .point x y :: x.parts ++ y.parts
  | .matrix cols rows fill => .matrix cols rows fill :: cols.parts ++ rows.parts ++ fill.parts
  | .cast target operand => .cast target operand :: operand.parts
  | .call function args => .call function args :: partsOfAll args
  | .embedded inner literal type constant => .embedded inner literal type constant :: inner.parts
  | e => [e]

def partsOfAll : List Expr → List Expr
  | [] => []
  | e :: rest => e.parts ++ partsOfAll rest

def partsOfEntries : List (Expr × Expr) → List Expr
  | [] => []
  | (k, v) :: rest => k.parts ++ v.parts ++ partsOfEntries rest

end

/-- Whether the program around a model supplies the expression. -/
def isEmbedded : Expr → Bool
  | .embedded .. => true
  | _ => false

/-- What is said of all parts is said of those that decide the static type. -/
theorem typed_of_parts {vars : String → Option Value} (e : Expr)
    (hplain : ∀ x ∈ e.parts, x.isEmbedded = false)
    (hvars : ∀ name type, .var name type ∈ e.parts →
      type.base = .any ∨ ∀ v, vars name = some v → v.Suits type.base) : e.Typed vars := by
  cases e with
  | var name type =>
    intro htype v hv
    have hmem : Expr.var name type ∈ (Expr.var name type).parts := by simp [parts]
    exact ((hvars name type hmem).resolve_left htype) v hv
  | unary op operand =>
    refine typed_of_parts operand (fun x hx => hplain x ?_) fun name type hx => hvars name type ?_
    all_goals simp [parts, hx]
  | binary op left right =>
    refine ⟨typed_of_parts left (fun x hx => hplain x ?_) fun name type hx => hvars name type ?_,
      typed_of_parts right (fun x hx => hplain x ?_) fun name type hx => hvars name type ?_⟩
    all_goals simp [parts, hx]
  | embedded inner literal type constant =>
    have hmem : Expr.embedded inner literal type constant ∈
        (Expr.embedded inner literal type constant).parts := by simp [parts]
    exact absurd (hplain _ hmem) nofun
  | _ => trivial

end Expr

/-- In every state in which the variables of an expression hold `nil` or values of the types that
they declare, if any, its value is `nil` or of its static type, if there is one. -/
theorem static_types_sound {e : Expr} {s t : State} {v : Value}
    (hplain : ∀ x ∈ e.parts, x.isEmbedded = false)
    (hvars : ∀ name type, .var name type ∈ e.parts →
      type.base = .any ∨ ∀ w, s.vars name = some w → w = .nil ∨ w.type = type.base)
    (hv : Exec.eval e s = .ok v t) (htype : e.staticType.base ≠ .any) :
    v = .nil ∨ v.type = e.staticType.base := by
  obtain ⟨-, u, hu⟩ := Exec.eval_eq_ok hv
  have htyped : e.Typed s.vars := e.typed_of_parts hplain hvars
  rcases e.type_or_nil_of_eval _ htyped htype hu with h | h
  · exact .inr h
  · exact .inl h.1

/-- A scope with a number, and with a shepherd that nobody is yet. -/
def counting : State :=
  let vars := [("n", .int 3), ("shepherd", .nil)]
  ⟨(Scope.start ⟨0, "world"⟩ "main").declareAll vars,
    .start .standard (.start ⟨"world", none, [], false, [], []⟩) .empty⟩

/-- The list of the shepherd, and `n * -n` added to it. -/
theorem static_types_sound_counting :
    let product : Expr := .binary .mul (.var "n" (.of .int)) (.unary .neg (.var "n" (.of .int)))
    let e : Expr := .binary .add (.list [.var "shepherd" (.of .agent)] .agent) product
    (∃ v t, Exec.eval e counting = .ok v t) ∧
      ∀ v t, Exec.eval e counting = .ok v t → v = .nil ∨ v.type = e.staticType.base := by
  intro product e
  refine ⟨⟨_, _, rfl⟩, fun v t hv => static_types_sound ?_ ?_ hv nofun⟩
  · decide
  · intro name type hmem
    simp only [e, product, Expr.parts, Expr.partsOfAll, List.mem_cons, List.mem_append, reduceCtorEq,
      false_or, or_false, List.not_mem_nil, Expr.var.injEq] at hmem
    rcases hmem with ⟨rfl, rfl⟩ | ⟨rfl, rfl⟩ | ⟨rfl, rfl⟩
    · refine .inr fun w hw => ?_
      cases hw
      exact .inl rfl
    all_goals
      refine .inr fun w hw => ?_
      cases hw
      exact .inr rfl

end Habitat

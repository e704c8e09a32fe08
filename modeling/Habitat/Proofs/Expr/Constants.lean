import Habitat.Proofs.Expr.Folding
import Habitat.Proofs.Store.Reach

/-!
# Constants

A constant expression may stand for a list: a cast makes one, and so does a sum of lists. Such a
constant is computed again wherever the expression is, and each time it is a list of its own, with
the same contents (`Mirror`). Scalars are computed once, and their literals stand for them.

* `Store.Paired.exists_of_reaches`: what is reached from a twin has a partner.
* `folding_preserves_meaning`: a constant is what its expression computes in every state, and
  folding an expression does not change what it computes.
-/
namespace Habitat

variable {L : Nat → Nat → Prop} {c s : Store} {v w : Value} {r : Store.Ref}

theorem Value.Twin.exists_of_mem_refs (h : Value.Twin L v w) (hr : r ∈ w.refs) :
    ∃ i j, L i j ∧ r = (.list, j) := by
  induction h with
  | pair _ _ iha ihb =>
    rcases List.mem_append.mp hr with hr | hr
    · exact iha hr
    · exact ihb hr
  | list hl => exact ⟨_, _, hl, List.mem_singleton.mp hr⟩
  | _ => cases hr

theorem Store.MoreLists.extends {t : Store} (h : s.MoreLists t) : s.Extends t where
  extent_le k := by
    obtain ⟨more, rfl⟩ := h
    cases k <;> simp [Store.extent, Heap.size]
  cell_eq := by
    rintro ⟨k, i⟩ hi
    cases k with
    | list => exact congrArg Object.list (h.get_eq hi)
    | map | matrix | graph =>
      obtain ⟨more, rfl⟩ := h
      rfl

/-- Every container that is reached from a twin is a list with a partner. -/
theorem Store.Paired.exists_of_reaches (h : Store.Paired L c s) (hv : Value.Twin L v w)
    (hr : s.Reaches w r) : ∃ i j, L i j ∧ r = (.list, j) := by
  induction hr generalizing v with
  | here hr => exact hv.exists_of_mem_refs hr
  | inside hq hu _ ih =>
    obtain ⟨i, j, hl, rfl⟩ := hv.exists_of_mem_refs hq
    -- what stands in a paired list has a twin in its partner
    obtain ⟨n, hn, rfl⟩ := List.mem_iff_getElem.mp hu
    have hitems := h.items i j hl
    have hn' : n < (c.lists.get i).items.toList.length := hitems.length_eq ▸ hn
    exact ih ((hitems.get hn' hn).mono fun _ _ hbelow => hbelow.1)

/-- What an expression is computed to at once, from whatever containers, it gives in every state:
a value with the same contents, whose containers are all new. Nothing else of the state changes.
And what it is folded to gives the same value, or fails with the same error. -/
theorem folding_preserves_meaning (e : Expr) (s : State) :
    (∀ c v c', e.constValue c = some (v, c') →
      ∃ w t, Exec.eval e s = .ok w ⟨s.scope, { s.machine with store := t }⟩ ∧
        s.machine.store.Extends t ∧ t.tree w = c'.tree v ∧
        ∀ r, t.Reaches w r → s.machine.store.extent r.1 ≤ r.2) ∧
    Exec.eval e.folded s = Exec.eval e s := by
  refine ⟨fun c v c' hconst => ?_, Exec.eval_folded e s⟩
  obtain ⟨w, t, heval, hmirror, -⟩ := Exec.eval_of_constValue hconst s
  obtain ⟨L, hfresh, hpaired, htwin⟩ := hmirror.pairs
  refine ⟨w, t, heval, hmirror.right.extends, Store.tree_twin hpaired htwin, fun r hr => ?_⟩
  obtain ⟨i, j, hl, rfl⟩ := hpaired.exists_of_reaches htwin hr
  exact (hfresh.new i j hl).resolve_left id

end Habitat

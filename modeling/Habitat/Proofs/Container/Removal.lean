import Habitat.Container.Access
import Mathlib.Data.List.Dedup
import Mathlib.Data.List.Perm.Basic

/-!
# Removing at several indexes

All indexes are looked up in the list as it is before anything goes, and the items then go one
after another from a list that shrinks. That is sound because the positions come in strictly
descending order (`ListCell.descending`): what is in front of a removed item keeps its position.

* `mem_descending`, `pairwise_descending`: the positions without repetitions, largest first.
* `foldl_eraseIdx`: removing them one after another leaves the items at all other positions.
* `Store.removes_at_indexes`: the whole request, for every list and every list of integers.
-/
namespace Habitat

/-! ## Runs of equal positions -/

/-- What was collected stands in front. -/
theorem eraseRepsBy_loop (r : Nat → Nat → Bool) (a : Nat) (as acc : List Nat) :
    List.eraseRepsBy.loop r a as acc = acc.reverse ++ List.eraseRepsBy.loop r a as [] := by
  induction as generalizing a acc with
  | nil => simp [List.eraseRepsBy.loop]
  | cons b bs ih =>
    unfold List.eraseRepsBy.loop
    split
    · exact ih a acc
    · rw [ih b (a :: acc), ih b [a], List.reverse_cons, List.append_assoc]
      rfl

theorem eraseReps_cons_cons (a b : Nat) (bs : List Nat) :
    (a :: b :: bs).eraseReps = if a = b then (b :: bs).eraseReps else a :: (b :: bs).eraseReps := by
  simp only [List.eraseReps, List.eraseRepsBy]
  conv_lhs => unfold List.eraseRepsBy.loop
  by_cases h : a = b
  · subst h
    simp
  · rw [beq_eq_false_iff_ne.mpr h, if_neg h]
    exact eraseRepsBy_loop _ b bs [a]

theorem mem_eraseReps {x : Nat} : {as : List Nat} → x ∈ as.eraseReps ↔ x ∈ as
  | [] => Iff.rfl
  | [_] => Iff.rfl
  | a :: b :: bs => by
    rw [eraseReps_cons_cons]
    split
    case isTrue h => simp [mem_eraseReps, h]
    case isFalse => simp [mem_eraseReps]

/-- In a list that descends, equal positions stand together. -/
theorem pairwise_eraseReps : {as : List Nat} → as.Pairwise (fun a b => b ≤ a) →
    as.eraseReps.Pairwise (fun a b => b < a)
  | [], _ => List.Pairwise.nil
  | [_], _ => List.pairwise_singleton _ _
  | a :: b :: bs, h => by
    obtain ⟨ha, hrest⟩ := List.pairwise_cons.mp h
    rw [eraseReps_cons_cons]
    split
    case isTrue => exact pairwise_eraseReps hrest
    case isFalse hne =>
      refine List.pairwise_cons.mpr ⟨fun x hx => ?_, pairwise_eraseReps hrest⟩
      have hb : b < a := Nat.lt_of_le_of_ne (ha b List.mem_cons_self) (Ne.symm hne)
      rcases List.mem_cons.mp (mem_eraseReps.mp hx) with rfl | hx
      · exact hb
      · exact Nat.lt_of_le_of_lt ((List.pairwise_cons.mp hrest).1 x hx) hb

namespace ListCell

theorem mem_descending {p : Nat} {ps : List Nat} : p ∈ descending ps ↔ p ∈ ps := by
  rw [descending, mem_eraseReps, List.mem_mergeSort]

theorem pairwise_descending (ps : List Nat) : (descending ps).Pairwise (fun a b => b < a) := by
  refine pairwise_eraseReps ?_
  have hsorted : (ps.mergeSort fun a b => decide (b ≤ a)).Pairwise fun a b => decide (b ≤ a) :=
    List.pairwise_mergeSort
      (fun a b c hab hbc => by simp only [decide_eq_true_eq] at *; omega)
      (fun a b => by simp only [Bool.or_eq_true, decide_eq_true_eq]; omega) ps
  exact hsorted.imp of_decide_eq_true

end ListCell

/-! ## Removing from a shrinking list -/

section
variable {α : Type} {p : Nat} {ps : List Nat}

/-- The items at positions that are not among given ones. -/
def remaining (xs : List α) (ps : List Nat) : List α :=
  (xs.zipIdx.filter fun x => x.2 ∉ ps).map (·.1)

/-- From some position on nothing is removed. -/
theorem filter_zipIdx_of_lt (xs : List α) (h : ∀ q ∈ ps, q < p) :
    ((xs.zipIdx p).filter fun x => x.2 ∉ ps).map (·.1) = xs := by
  have hall : (xs.zipIdx p).filter (fun x => x.2 ∉ ps) = xs.zipIdx p := by
    refine List.filter_eq_self.mpr fun x hx => ?_
    have hle := List.le_snd_of_mem_zipIdx hx
    simpa using fun hmem => absurd (h x.2 hmem) (Nat.not_lt.mpr hle)
  rw [hall, List.zipIdx_map_fst]

/-- An item that goes before those in front of it shifts none of their positions. -/
theorem remaining_eraseIdx (xs : List α) (h : ∀ q ∈ ps, q < p) :
    remaining (xs.eraseIdx p) ps = remaining xs (p :: ps) := by
  have hcons (k : Nat) (hk : k ≠ p) : (k ∉ p :: ps) ↔ (k ∉ ps) := by
    rw [List.mem_cons, not_or, and_iff_right hk]
  rcases Nat.lt_or_ge p xs.length with hp | hp
  · obtain ⟨as, b, bs, rfl, rfl⟩ : ∃ as b bs, xs = as ++ b :: bs ∧ as.length = p :=
      ⟨xs.take p, xs[p], xs.drop (p + 1), by simp, by simp; omega⟩
    have hfront : as.zipIdx.filter (fun x => x.2 ∉ as.length :: ps) =
        as.zipIdx.filter (fun x => x.2 ∉ ps) := by
      refine List.filter_congr fun x hx => ?_
      have hlt := List.snd_lt_of_mem_zipIdx hx
      exact decide_eq_decide.mpr (hcons x.2 (by omega))
    have hback : ∀ q ∈ as.length :: ps, q < as.length + 1 := by
      intro q hq
      rcases List.mem_cons.mp hq with rfl | hq
      · exact Nat.lt_succ_self _
      · exact Nat.lt_succ_of_lt (h q hq)
    rw [List.eraseIdx_append_of_length_le (Nat.le_refl _), Nat.sub_self, List.eraseIdx_cons_zero]
    simp only [remaining, List.zipIdx_append, List.filter_append, List.map_append, Nat.zero_add,
      hfront, filter_zipIdx_of_lt bs h, List.zipIdx_cons, List.filter_cons, List.mem_cons_self,
      not_true_eq_false, decide_false, Bool.false_eq_true, if_false]
    rw [filter_zipIdx_of_lt bs hback]
  · rw [List.eraseIdx_of_length_le hp, remaining, remaining]
    refine congrArg _ (List.filter_congr fun x hx => ?_)
    have hlt := List.snd_lt_of_mem_zipIdx hx
    exact decide_eq_decide.mpr (hcons x.2 (by omega)).symm

/-- Removing the largest position first leaves the items at the other positions. -/
theorem foldl_eraseIdx (xs : List α) (h : ps.Pairwise (fun a b => b < a)) :
    ps.foldl List.eraseIdx xs = remaining xs ps := by
  induction ps generalizing xs with
  | nil => exact (filter_zipIdx_of_lt (p := 0) xs (fun q hq => absurd hq List.not_mem_nil)).symm
  | cons p ps ih =>
    obtain ⟨hp, hps⟩ := List.pairwise_cons.mp h
    rw [List.foldl_cons, ih _ hps, remaining_eraseIdx xs hp]

example : [2, 0].foldl List.eraseIdx [10, 11, 12, 13] = remaining [10, 11, 12, 13] [2, 0] := by
  decide

/-- In ascending order the second position would be one too far. -/
example : [0, 2].foldl List.eraseIdx [10, 11, 12, 13] ≠ remaining [10, 11, 12, 13] [0, 2] := by
  decide

/-- Each of the positions costs one item. -/
theorem length_foldl_eraseIdx (xs : List α) (h : ps.Pairwise (fun a b => b < a))
    (hlt : ∀ p ∈ ps, p < xs.length) :
    (ps.foldl List.eraseIdx xs).length + ps.length = xs.length := by
  induction ps generalizing xs with
  | nil => rfl
  | cons p ps ih =>
    obtain ⟨hp, hps⟩ := List.pairwise_cons.mp h
    have hpx := hlt p List.mem_cons_self
    have hlength := List.length_eraseIdx_of_lt hpx
    have hrest := ih (xs.eraseIdx p) hps fun q hq => by
      have hq := hp q hq
      omega
    rw [List.foldl_cons, List.length_cons]
    omega

end

/-! ## The request -/

namespace ListCell
variable {s : Store} {l : ListCell}

theorem toList_eraseAll (l : ListCell) (ps : List Nat) :
    (l.eraseAll ps).items.toList = ps.foldl List.eraseIdx l.items.toList :=
  (List.foldl_hom Array.toList fun _ _ => Array.toList_eraseIdxIfInBounds.symm).symm

/-- An integer is no index of the list. -/
def Misses (l : ListCell) (n : Int64) : Prop := n.toInt < 0 ∨ l.items.size ≤ n.toInt

instance (l : ListCell) (n : Int64) : Decidable (l.Misses n) := inferInstanceAs (Decidable (_ ∨ _))

theorem position_int (s : Store) (l : ListCell) (n : Int64) :
    l.position s (.int n) false =
      if l.Misses n then .error (.indexOutOfBounds n.toInt l.items.size)
      else .ok n.toInt.toNat := by
  have hiff : (0 ≤ n.toInt ∧ n.toInt < l.items.size) ↔ ¬l.Misses n := by
    unfold Misses
    omega
  by_cases h : l.Misses n
  · rw [if_pos h]
    exact if_neg (mt hiff.mp (not_not_intro h))
  · rw [if_neg h]
    exact if_pos (hiff.mpr h)

/-- All positions are found, or the first integer that misses is refused. -/
theorem mapM_position (s : Store) (l : ListCell) (ns : List Int64) :
    (ns.map Value.int).mapM (fun i => l.position s i false) =
      match ns.find? l.Misses with
      | some n => .error (.indexOutOfBounds n.toInt l.items.size)
      | none => .ok (ns.map fun n => n.toInt.toNat) := by
  induction ns with
  | nil => rfl
  | cons n ns ih =>
    rw [List.map_cons, List.mapM_cons, position_int, ih, List.find?_cons]
    by_cases h : l.Misses n
    · rw [if_pos h, decide_eq_true h]
      rfl
    · rw [if_neg h, decide_eq_false h]
      dsimp only
      cases ns.find? l.Misses <;> rfl

section
variable {ns : List Int64} (hns : ∀ n ∈ ns, ¬l.Misses n)
include hns

/-- The positions are those of the integers. -/
theorem mem_positions_iff (k : Nat) :
    k ∈ descending (ns.map fun n => n.toInt.toNat) ↔ (k : Int) ∈ ns.map (·.toInt) := by
  rw [mem_descending, List.mem_map, List.mem_map]
  refine exists_congr fun n => and_congr_right fun hn => ?_
  have hin := hns n hn
  unfold Misses at hin
  omega

/-- There are as many positions as different integers. -/
theorem length_positions :
    (descending (ns.map fun n => n.toInt.toNat)).length = ns.dedup.length := by
  have hnodup : (ns.dedup.map fun n => n.toInt.toNat).Nodup := by
    refine ns.nodup_dedup.map_on fun a ha b hb hab => Int64.toInt_inj.mp ?_
    have hina := hns a (List.mem_dedup.mp ha)
    have hinb := hns b (List.mem_dedup.mp hb)
    unfold Misses at hina hinb
    omega
  have hdesc : (descending (ns.map fun n => n.toInt.toNat)).Nodup :=
    (pairwise_descending _).imp Nat.ne_of_gt
  have hperm := (List.perm_ext_iff_of_nodup hdesc hnodup).mpr fun k => by
    rw [mem_descending, List.mem_map, List.mem_map]
    simp only [List.mem_dedup]
  rw [hperm.length_eq, List.length_map]

/-- What is left of the list. -/
theorem toList_eraseAll_positions :
    (l.eraseAll (descending (ns.map fun n => n.toInt.toNat))).items.toList =
      (l.items.toList.zipIdx.filter fun x => (x.2 : Int) ∉ ns.map (·.toInt)).map (·.1) := by
  rw [toList_eraseAll, foldl_eraseIdx _ (pairwise_descending _), remaining]
  refine congrArg _ (List.filter_congr fun x _ => decide_eq_decide.mpr ?_)
  exact not_congr (mem_positions_iff hns x.2)

theorem size_eraseAll_positions :
    (l.eraseAll (descending (ns.map fun n => n.toInt.toNat))).items.size + ns.dedup.length =
      l.items.size := by
  rw [← length_positions hns, ← Array.length_toList, toList_eraseAll]
  refine length_foldl_eraseIdx _ (pairwise_descending _) fun k hk => ?_
  obtain ⟨n, hn, hk⟩ := List.mem_map.mp ((mem_positions_iff hns k).mp hk)
  have hin := hns n hn
  unfold Misses at hin
  rw [Array.length_toList]
  omega

end
end ListCell

namespace Store

/-- The request on a list of the store. -/
theorem edit_removeAllAt (s : Store) (r : Nat) (ns : List Int64) :
    s.edit (.list r) (.removeAllAt (ns.map .int)) =
      match ns.find? (s.lists.get r).Misses with
      | some n => (.error (.indexOutOfBounds n.toInt (s.lists.get r).items.size), s)
      | none =>
        let ps := ListCell.descending (ns.map fun n => n.toInt.toNat)
        (.ok .done, { s with lists := s.lists.set r ((s.lists.get r).eraseAll ps) }) := by
  have hedit : (s.lists.get r).edit s (.removeAllAt (ns.map .int)) =
      ((ns.map Value.int).mapM fun i => (s.lists.get r).position s i false).map fun ps =>
        ⟨.done, (·.eraseAll (ListCell.descending ps))⟩ := rfl
  simp only [edit, hedit, ListCell.mapM_position]
  cases ns.find? (s.lists.get r).Misses with
  | some n => rfl
  | none =>
    simp only [Except.map, Heap.modify_eq_set]

/-- Removing at several integers: the request is refused exactly if one of them is no index of the
list, for the first such one and with nothing changed. Otherwise the items at all other positions
are left, in their order, and as many are gone as there are different integers. -/
theorem removes_at_indexes (s : Store) (r : Nat) (ns : List Int64) :
    let l := s.lists.get r
    let outcome := s.edit (.list r) (.removeAllAt (ns.map .int))
    ((∃ e, outcome.1 = .error e) ↔ ∃ n ∈ ns, n.toInt < 0 ∨ l.items.size ≤ n.toInt) ∧
    match ns.find? fun n : Int64 => n.toInt < 0 ∨ (l.items.size : Int) ≤ n.toInt with
    | some n => outcome = (.error (.indexOutOfBounds n.toInt l.items.size), s)
    | none => ∃ rest : Array Value,
        outcome = (.ok .done, { s with lists := s.lists.set r { l with items := rest } }) ∧
        rest.toList =
          (l.items.toList.zipIdx.filter fun x => (x.2 : Int) ∉ ns.map (·.toInt)).map (·.1) ∧
        rest.size + ns.dedup.length = l.items.size := by
  intro l outcome
  have houtcome : outcome = _ := edit_removeAllAt s r ns
  change _ ∧ match ns.find? l.Misses with | some n => _ | none => _
  cases hfind : ns.find? l.Misses with
  | some n =>
    have hmiss := List.find?_some hfind
    rw [hfind] at houtcome
    refine ⟨iff_of_true ⟨_, congrArg Prod.fst houtcome⟩ ?_, houtcome⟩
    exact ⟨n, List.mem_of_find?_eq_some hfind, of_decide_eq_true hmiss⟩
  | none =>
    have hall : ∀ n ∈ ns, ¬l.Misses n := fun n hn =>
      of_decide_eq_false (by simpa using List.find?_eq_none.mp hfind n hn)
    rw [hfind] at houtcome
    refine ⟨iff_of_false ?_ ?_, _, houtcome, ?_, ?_⟩
    · rintro ⟨e, he⟩
      rw [houtcome] at he
      cases he
    · rintro ⟨n, hn, hmiss⟩
      exact hall n hn hmiss
    · exact ListCell.toList_eraseAll_positions hall
    · exact ListCell.size_eraseAll_positions hall

end Store
end Habitat

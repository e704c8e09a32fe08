import Habitat.Proofs.Store.Equality

/-!
# Keys

The comparison of values is no equivalence: `NaN` differs from itself, an integer may equal two
floats that differ, and containers compare by what is in them at the time. None of this concerns
the values without floats and containers (`Value.isKey`). How such a value compares is the same in
every store (`Store.eq_of_isKey`), and equal keys cannot be told apart by comparing them
(`Store.eq_congr_of_isKey`). Keys need not be the same to be equal: references to one agent are
equal whatever name they carry.
-/
namespace Habitat

/-! ## Floats -/

open Float.Model (UnpackedFloat)

/-- Floats that are equal are the same, or both are zeros. -/
theorem eq_or_zeros_of_beq {x y : UnpackedFloat} (h : x.beq y = true) :
    x = y ∨ ∃ i j, x = .zero i ∧ y = .zero j := by
  have hcompare : x.compare y = some .eq := beq_iff_eq.mp h
  cases x with
  | notANumber => cases hcompare
  | zero i =>
    cases y with
    | zero j => exact .inr ⟨i, j, rfl, rfl⟩
    | notANumber => cases hcompare
    | infinity j => cases j <;> cases hcompare
    | finite j n f hn => cases j <;> cases hcompare
  | infinity i =>
    cases y with
    | notANumber => cases i <;> cases hcompare
    | zero j => cases i <;> cases hcompare
    | finite j n f hn => cases i <;> cases hcompare
    | infinity j => cases i <;> cases j <;> first | exact .inl rfl | cases hcompare
  | finite i m e hm =>
    cases y with
    | notANumber => cases i <;> cases hcompare
    | zero j => cases i <;> cases hcompare
    | infinity j => cases i <;> cases j <;> cases hcompare
    | finite j n f hn =>
      have hparts : i = j ∧ compare e f = .eq ∧ compare m n = .eq := by
        cases i with
        | negative =>
          cases j with
          | negative =>
            exact ⟨rfl, Ordering.then_eq_eq.mp (Ordering.swap_eq_eq.mp (Option.some.inj hcompare))⟩
          | positive => cases hcompare
        | positive =>
          cases j with
          | negative => cases hcompare
          | positive => exact ⟨rfl, Ordering.then_eq_eq.mp (Option.some.inj hcompare)⟩
      obtain ⟨rfl, hexponent, hmantissa⟩ := hparts
      obtain rfl := Std.LawfulEqCmp.eq_of_compare hexponent
      obtain rfl := Std.LawfulEqCmp.eq_of_compare hmantissa
      exact .inl rfl

theorem zero_beq (i j : UnpackedFloat.Sign) (z : UnpackedFloat) :
    UnpackedFloat.beq (.zero i) z = UnpackedFloat.beq (.zero j) z := by
  cases z with
  | notANumber => rfl
  | zero k => rfl
  | infinity k | finite k => cases k <;> rfl

/-- Equal floats compare alike with any other. -/
theorem float_beq_congr {x y : Float} (h : (x == y) = true) (z : Float) : (x == z) = (y == z) := by
  show x.toModel.unpack.beq z.toModel.unpack = y.toModel.unpack.beq z.toModel.unpack
  rcases eq_or_zeros_of_beq h with hxy | ⟨i, j, hx, hy⟩
  · rw [hxy]
  · rw [hx, hy, zero_beq i j]

/-! ## Values -/

namespace Value

/-- Whether a value is sure to be found again among keys. A float is not, for it may be `NaN`, or
equal to an integer that equals other floats; nor is a container, which may change. A point is,
unless a coordinate is `NaN`. -/
def isKey : Value → Bool
  | .pair a b => a.isKey && b.isKey
  | .point x y => x == x && y == y
  | .float _ => false
  | v => !v.isContainer

variable {c d : Store.Kind → Nat → Nat → Bool} {a b : Value}

/-- No container decides how a key compares. -/
theorem refs_of_isKey (h : a.isKey = true) : a.refs = [] := by
  induction a with
  | pair a b iha ihb =>
    obtain ⟨ha, hb⟩ := (Bool.and_eq_true _ _).mp h
    rw [refs, iha ha, ihb hb, List.append_nil]
  | list | map | matrix | graph => cases h
  | _ => rfl

theorem eqWith_self_of_isKey (h : a.isKey = true) :
    a.eqWith (c .list) (c .map) (c .matrix) (c .graph) a = true := by
  induction a with
  | pair a b iha ihb =>
    obtain ⟨ha, hb⟩ := (Bool.and_eq_true _ _).mp h
    rw [eqWith, iha ha, ihb hb, Bool.and_self]
  | point => exact h
  | float | list | map | matrix | graph => cases h
  | nil => rfl
  | _ => exact beq_self_eq_true _

theorem eqWith_congr_of_isKey (ha : a.isKey = true) (hb : b.isKey = true)
    (h : a.eqWith (c .list) (c .map) (c .matrix) (c .graph) b = true) (x : Value) :
    a.eqWith (c .list) (c .map) (c .matrix) (c .graph) x =
      b.eqWith (c .list) (c .map) (c .matrix) (c .graph) x := by
  induction a generalizing b x with
  | pair a a' iha iha' =>
    cases b with
    | pair b b' =>
      obtain ⟨ha, ha'⟩ := (Bool.and_eq_true _ _).mp ha
      obtain ⟨hb, hb'⟩ := (Bool.and_eq_true _ _).mp hb
      obtain ⟨h, h'⟩ := (Bool.and_eq_true _ _).mp h
      cases x with
      | pair x x' => rw [eqWith, eqWith, iha ha hb h, iha' ha' hb' h']
      | _ => rfl
    | _ => cases h
  | point x₁ y₁ =>
    cases b with
    | point x₂ y₂ =>
      obtain ⟨hx, hy⟩ := (Bool.and_eq_true _ _).mp h
      cases x with
      | point => rw [eqWith, eqWith, float_beq_congr hx, float_beq_congr hy]
      | _ => rfl
    | _ => cases h
  | agent r =>
    cases b with
    | agent q =>
      have hid : r.id = q.id := beq_iff_eq.mp h
      cases x with
      | agent => rw [eqWith, eqWith, hid]
      | _ => rfl
    | _ => cases h
  | float | list | map | matrix | graph => cases ha
  | nil =>
    cases b with
    | nil => rfl
    | _ => cases h
  | int m =>
    cases b with
    | int n =>
      obtain rfl := beq_iff_eq.mp h
      rfl
    | float => cases hb
    | _ => cases h
  | bool m | str m | species m =>
    cases b <;> first
      | cases h
      | obtain rfl := beq_iff_eq.mp h; rfl

end Value

/-- The values are pairwise different. -/
def Distinct (eq : Value → Value → Bool) (vs : List Value) : Prop :=
  vs.Pairwise fun a b => eq a b = false

theorem Distinct.concat {eq : Value → Value → Bool} {vs : List Value} {v : Value}
    (h : Distinct eq vs) (hv : vs.any (eq · v) = false) : Distinct eq (vs ++ [v]) := by
  refine List.pairwise_append.mpr ⟨h, List.pairwise_singleton _ _, fun x hx y hy => ?_⟩
  cases List.mem_singleton.mp hy
  simpa using List.any_eq_false.mp hv x hx

namespace Store

variable {s t : Store} {a b : Value}

/-- To compare a key, no container is opened. -/
theorem eq_eq_eqAt_zero (s : Store) (ha : a.isKey = true) (b : Value) :
    s.eq a b = s.eqAt 0 a b := by
  unfold eq
  cases s.size with
  | zero => rfl
  | succ n =>
    rw [eqAt_succ, eqAt_zero]
    refine Value.eqWith_congr (d := fun _ i j => i == j) fun k i j hi _ => ?_
    rw [Value.refs_of_isKey ha] at hi
    cases hi

/-- How a key compares does not depend on the store. -/
theorem eq_of_isKey (s t : Store) (ha : a.isKey = true) (b : Value) : s.eq a b = t.eq a b := by
  rw [eq_eq_eqAt_zero s ha, eq_eq_eqAt_zero t ha, eqAt_zero, eqAt_zero]

theorem eq_self_of_isKey (s : Store) (ha : a.isKey = true) : s.eq a a = true := by
  unfold eq
  rw [eqAt_self, eqAt_zero]
  exact Value.eqWith_self_of_isKey (c := fun _ i j => i == j) ha

/-- Equal keys compare alike with any other value. -/
theorem eq_congr_of_isKey (ha : a.isKey = true) (hb : b.isKey = true) (h : s.eq a b = true)
    (x : Value) : s.eq a x = s.eq b x := by
  rw [eq_eq_eqAt_zero s ha] at h ⊢
  rw [eq_eq_eqAt_zero s hb]
  exact Value.eqWith_congr_of_isKey (c := fun _ i j => i == j) ha hb h x

theorem eq_comm_of_isKey (ha : a.isKey = true) (hb : b.isKey = true) : s.eq a b = s.eq b a := by
  rw [Bool.eq_iff_iff]
  constructor
  · intro h
    rw [← eq_congr_of_isKey ha hb h, eq_self_of_isKey s ha]
  · intro h
    rw [← eq_congr_of_isKey hb ha h, eq_self_of_isKey s hb]

end Store
end Habitat

import Habitat.Proofs.Store.Separation
import Habitat.Store.OfJson

/-!
# Values that are made

The values of documents and the copies of values are made of containers that are there, and their
chains of containers end, so such a value is a finite tree and stays the same when the store grows.

* `Store.yields_ofJson`: the values of documents.
* `Store.Ends.copy`: copies of values whose chains end.
-/
namespace Habitat.Store

variable {s t : Store} {v : Value}

theorem ends_of_refs (h : v.refs = []) : s.Ends v :=
  ⟨Value.within_iff.mpr fun _ hr => absurd (h ▸ hr) List.not_mem_nil,
    fun _ hr => absurd (h ▸ hr) List.not_mem_nil⟩

/-- A container ends if its contents do. -/
theorem ends_of_container {r : Ref} (hv : v.container? = some r) (hr : r.2 < s.extent r.1)
    (h : ∀ u ∈ (s.cell r).values, s.Ends u) : s.Ends v := by
  have hrefs := Value.refs_of_container? hv
  refine ⟨Value.within_iff.mpr fun q hq => ?_, fun q hq => ?_⟩
  · rw [hrefs, List.mem_singleton] at hq
    exact hq ▸ hr
  · rw [hrefs, List.mem_singleton] at hq
    exact hq ▸ h

theorem Ends.mono (h : s.Ends v) (hst : s.Extends t) : t.Ends v := by
  induction h with
  | intro within _ ih =>
    have hold := Value.within_iff.mp within
    refine ⟨Value.within_iff.mpr fun r hr => ?_, fun r hr u hu => ?_⟩
    · exact Nat.lt_of_lt_of_le (hold r hr) (hst.extent_le r.1)
    · rw [hst.cell_eq r (hold r hr)] at hu
      exact ih r hr u hu

/-- Chains inside a copy end as they do inside the original. -/
theorem Ends.copy (h : s.Ends v) : (s.copy v).2.Ends (s.copy v).1 := by
  have hst := s.extends_copy v
  have hcopied := s.copied_copy v
  have hparts (u : Value) (hu : u ∈ (s.copy v).2.parts (s.copy v).1) : (s.copy v).2.Ends u := by
    rw [hcopied.parts] at hu
    exact (h.parts hu).mono hst
  unfold Store.parts at hparts
  cases hc : (s.copy v).1.container? with
  | none =>
    rw [hc] at hparts
    exact hparts _ List.mem_cons_self
  | some r =>
    rw [hc] at hparts
    exact ends_of_container hc (hcopied.fresh r hc).2 hparts

/-! ## Documents -/

/-- A value is made of old and new containers, and its chains end. -/
structure Yields (s : Store) (made : Value × Store) : Prop where
  grows : s.Extends made.2
  ends : made.2.Ends made.1

theorem yields_of_refs (h : v.refs = []) : s.Yields (v, s) := ⟨.refl s, ends_of_refs h⟩

theorem yields_newList {c : BaseType} {vs : List Value} (h : ∀ v ∈ vs, s.Ends v) :
    s.Yields (s.newList c vs) := by
  have hst : s.Extends (s.newList c vs).2 := s.extends_addList _
  refine ⟨hst, ends_of_container rfl (by simp [newList, addList, extent]) fun u hu => ?_⟩
  have hitems : ((s.newList c vs).2.lists.get s.lists.size).items.toList = vs :=
    congrArg (·.items.toList) (Heap.get_push_size s.lists _)
  have hu : u ∈ ((s.newList c vs).2.lists.get s.lists.size).items.toList := hu
  rw [hitems] at hu
  exact (h u hu).mono hst

theorem yields_newMapOf {entries : List (Value × Value)}
    (h : ∀ e ∈ entries, s.Ends e.1 ∧ s.Ends e.2) : s.Yields (s.newMapOf entries) := by
  have hst : s.Extends (s.newMapOf entries).2 := s.extends_newMap _
  refine ⟨hst, ends_of_container rfl (by simp [newMapOf, newMap, extent]) ?_⟩
  have hmap : (MapCell.ofEntries s.eq .any .any entries).Forall s.Ends := MapCell.forall_ofEntries h
  have hcell : (s.newMapOf entries).2.cell (.map, s.maps.size) =
      .map (MapCell.ofEntries s.eq .any .any entries) :=
    congrArg Object.map (Heap.get_push_size s.maps _)
  intro u hu
  exact (forall_map_iff.mpr hmap u (hcell ▸ hu)).mono hst

mutual

/-- The value of a document ends. -/
theorem yields_ofJson (s : Store) : (j : Json) → s.Yields (s.ofJson j)
  | .null | .unreadable => yields_of_refs rfl
  | .bool b => yields_of_refs rfl
  | .int n => by
    rw [ofJson, numberOf]
    cases Decimal.toInt64? n <;> exact yields_of_refs rfl
  | .float x => yields_of_refs rfl
  | .str t => yields_of_refs rfl
  | .arr items => by
    obtain ⟨hgrows, hends⟩ := ends_ofItems s items
    have hmade := yields_newList (c := .any) hends
    exact ⟨hgrows.trans hmade.grows, hmade.ends⟩
  | .obj fields => by
    obtain ⟨hgrows, hends⟩ := ends_ofFields s fields
    have hmade := yields_newMapOf hends
    exact ⟨hgrows.trans hmade.grows, hmade.ends⟩

theorem ends_ofItems (s : Store) : (items : List Json) →
    s.Extends (s.ofItems items).2 ∧ ∀ v ∈ (s.ofItems items).1, (s.ofItems items).2.Ends v
  | [] => ⟨.refl s, fun _ hv => absurd hv List.not_mem_nil⟩
  | j :: rest => by
    have hmade := yields_ofJson s j
    obtain ⟨hgrows, hends⟩ := ends_ofItems (s.ofJson j).2 rest
    exact ⟨hmade.grows.trans hgrows, List.forall_mem_cons.mpr ⟨hmade.ends.mono hgrows, hends⟩⟩

theorem ends_ofFields (s : Store) : (fields : List (String × Json)) →
    s.Extends (s.ofFields fields).2 ∧ ∀ e ∈ (s.ofFields fields).1,
      (s.ofFields fields).2.Ends e.1 ∧ (s.ofFields fields).2.Ends e.2
  | [] => ⟨.refl s, fun _ he => absurd he List.not_mem_nil⟩
  | (k, j) :: rest => by
    have hmade := yields_ofJson s j
    obtain ⟨hgrows, hends⟩ := ends_ofFields (s.ofJson j).2 rest
    exact ⟨hmade.grows.trans hgrows,
      List.forall_mem_cons.mpr ⟨⟨ends_of_refs rfl, hmade.ends.mono hgrows⟩, hends⟩⟩

end

end Habitat.Store

import Mathlib.Data.List.Find
import Habitat.Proofs.Container.ReadBack
import Habitat.Proofs.Store.Keys

/-!
# Maps in the order of insertion

Whatever is asked of a map that was empty, its keys stay pairwise different, and they stand in the
order in which they came (`MapCell.insertion_ordered`). A key comes when it is put and is not
there (`newly`). One that is put again stays where it is, and one that was removed comes again at
the end; so of everything that came, only the last of equal keys count (`lasts`).

The requests of a run may find any containers in the store, for that makes no difference to the
keys.
-/
namespace Habitat

/-- The key and the value that a value stands for when it is added to a map. -/
def Value.entry : Value → Value × Value
  | .pair k v => (k, v)
  | v => (v, v)

/-- The entries that a request puts into a map one after another. -/
def Edit.entries : Edit → List (Value × Value)
  | .add v => [v.entry]
  | .insert k v | .put k v => [(k, v)]
  | .addAll none vs => vs.map Value.entry
  | .addAll (some k) vs => vs.map (k, ·)
  | _ => []

/-- The keys that a request puts into a map one after another. -/
def Edit.puts (request : Edit) : List Value := request.entries.map (·.1)

namespace MapCell

/-! ## The order of a history -/

/-- The keys, of those put one after another, that are not there when they are put. -/
def newly (eq : Value → Value → Bool) : List Value → List Value → List Value
  | _, [] => []
  | present, k :: ks =>
    if present.any (eq · k) then newly eq present ks else k :: newly eq (present ++ [k]) ks

/-- The last ones of equal keys. -/
def lasts (eq : Value → Value → Bool) : List Value → List Value
  | [] => []
  | k :: ks => if ks.any (eq k) then lasts eq ks else k :: lasts eq ks

section
variable {eq : Value → Value → Bool} {present ks new : List Value} {k : Value}

theorem newly_subset : newly eq present ks ⊆ ks := by
  induction ks generalizing present with
  | nil => exact List.Subset.refl []
  | cons k ks ih =>
    unfold newly
    split
    · exact List.subset_cons_of_subset k ih
    · exact List.cons_subset_cons k ih

theorem eq_newly {a : Value} (ha : a ∈ present) {b : Value} (hb : b ∈ newly eq present ks) :
    eq a b = false := by
  induction ks generalizing present with
  | nil => cases hb
  | cons k ks ih =>
    unfold newly at hb
    split at hb
    case isTrue => exact ih ha hb
    case isFalse habsent =>
      rcases List.mem_cons.mp hb with rfl | hb
      · rw [Bool.not_eq_true, List.any_eq_false] at habsent
        exact Bool.not_eq_true _ ▸ habsent a ha
      · exact ih (List.mem_append_left _ ha) hb

theorem distinct_newly : Distinct eq (newly eq present ks) := by
  induction ks generalizing present with
  | nil => exact .nil
  | cons k ks ih =>
    unfold newly
    split
    · exact ih
    · exact .cons (fun b hb => eq_newly (List.mem_append_right _ List.mem_cons_self) hb) ih

theorem lasts_subset : lasts eq ks ⊆ ks := by
  induction ks with
  | nil => exact List.Subset.refl []
  | cons k ks ih =>
    unfold lasts
    split
    · exact List.subset_cons_of_subset k ih
    · exact List.cons_subset_cons k ih

theorem distinct_lasts : Distinct eq (lasts eq ks) := by
  induction ks with
  | nil => exact .nil
  | cons k ks ih =>
    unfold lasts
    split
    case isTrue => exact ih
    case isFalse hlast =>
      rw [Bool.not_eq_true, List.any_eq_false] at hlast
      exact .cons (fun b hb => Bool.not_eq_true _ ▸ hlast b (lasts_subset hb)) ih

theorem lasts_of_distinct (h : Distinct eq ks) : lasts eq ks = ks := by
  induction h with
  | nil => rfl
  | @cons k ks hk _ ih =>
    have hlast : ks.any (eq k) = false := List.any_eq_false.mpr fun b hb => by simp [hk b hb]
    rw [lasts, hlast, if_neg Bool.false_ne_true, ih]

/-- What comes later takes the place of what is equal to it. -/
theorem lasts_append :
    lasts eq (ks ++ new) = (lasts eq ks).filter (fun k => !new.any (eq k)) ++ lasts eq new := by
  induction ks with
  | nil => rfl
  | cons k ks ih =>
    rw [List.cons_append, lasts, lasts, List.any_append, ih]
    cases ks.any (eq k) with
    | true => rfl
    | false => cases hnew : new.any (eq k) <;> simp [hnew]

end

/-! ## One request -/

section
variable {eq : Value → Value → Bool} {k v : Value} {es : List (Value × Value)} {m : MapCell}

theorem add_eq_put (eq : Value → Value → Bool) (m : MapCell) (v : Value) :
    m.add eq v = m.put eq v.entry.1 v.entry.2 := by
  cases v <;> rfl

theorem keys_putEntry :
    (putEntry eq k v es).map (·.1) =
      if es.any fun e => eq e.1 k then es.map (·.1) else es.map (·.1) ++ [k] := by
  induction es with
  | nil => rfl
  | cons e rest ih =>
    rw [putEntry, List.any_cons]
    cases eq e.1 k with
    | true => rfl
    | false =>
      rw [if_neg Bool.false_ne_true, List.map_cons, ih, Bool.false_or]
      split <;> rfl

/-- A new key goes to the end, and no other key moves. -/
theorem keys_put : (m.put eq k v).keys = if m.keys.any (eq · k) then m.keys else m.keys ++ [k] := by
  rw [keys, put, keys_putEntry, keys, List.any_map]
  rfl

theorem keys_putAll (eq : Value → Value → Bool) (es : List (Value × Value)) (m : MapCell) :
    (es.foldl (fun m e => m.put eq e.1 e.2) m).keys =
      m.keys ++ newly eq m.keys (es.map (·.1)) := by
  induction es generalizing m with
  | nil => exact (List.append_nil _).symm
  | cons e rest ih =>
    rw [List.foldl_cons, ih, keys_put, List.map_cons, newly]
    split
    · rfl
    · rw [List.append_assoc, List.singleton_append]

theorem sublist_foldl {f : MapCell → Value → MapCell}
    (h : ∀ m v, (f m v).entries.Sublist m.entries) (vs : List Value) (m : MapCell) :
    (vs.foldl f m).entries.Sublist m.entries := by
  induction vs generalizing m with
  | nil => exact .refl _
  | cons v vs ih => exact (ih (f m v)).trans (h m v)

/-- A request puts its entries, or it removes some of the entries. -/
theorem after_eq_putAll_or_sublist (s : Store) (request : Edit) (m : MapCell) :
    (edit s request).after m = request.entries.foldl (fun m e => m.put s.eq e.1 e.2) m ∨
      request.entries = [] ∧ ((edit s request).after m).keys.Sublist m.keys := by
  have hkeys {m' : MapCell} (h : m'.entries.Sublist m.entries) : m'.keys.Sublist m.keys :=
    List.Sublist.map Prod.fst h
  cases request with
  | add v => exact .inl (add_eq_put s.eq m v)
  | insert k v | put k v => exact .inl rfl
  | addAll index vs =>
    cases index with
    | none =>
      left
      rw [Edit.entries, List.foldl_map]
      show vs.foldl (fun m v => m.add s.eq v) m = _
      simp only [add_eq_put]
    | some k =>
      left
      rw [Edit.entries, List.foldl_map]
      rfl
  | fill v =>
    refine .inr ⟨rfl, ?_⟩
    have hfill : ((edit s (.fill v)).after m).keys = m.keys := by
      show (m.entries.map fun e => (e.1, v)).map (·.1) = m.entries.map (·.1)
      rw [List.map_map]
      rfl
    rw [hfill]
  | remove v =>
    refine .inr ⟨rfl, ?_⟩
    cases hfirst : removeFirst s.eq v m.entries with
    | none =>
      have hafter : (edit s (.remove v)).after m = m := by
        simp only [Editing.after, Editing.on, edit, Editing.get_bind_apply, hfirst]
        rfl
      rw [hafter]
    | some rest =>
      have hafter : (edit s (.remove v)).after m = { m with entries := rest } := by
        simp only [Editing.after, Editing.on, edit, Editing.get_bind_apply, hfirst]
        rfl
      rw [hafter]
      exact hkeys (sublist_removeFirst hfirst)
  | removeEvery v => exact .inr ⟨rfl, hkeys List.filter_sublist⟩
  | removeAll vs =>
    exact .inr ⟨rfl, hkeys (sublist_foldl (fun m v => List.filter_sublist) vs m)⟩
  | removeAt k => exact .inr ⟨rfl, hkeys List.filter_sublist⟩
  | removeAllAt ks =>
    exact .inr ⟨rfl, hkeys (sublist_foldl (fun m k => List.filter_sublist) ks m)⟩
  | clear => exact .inr ⟨rfl, List.nil_sublist _⟩

/-- After a request there are some of the keys from before, and then those that came. -/
theorem keys_after (s : Store) (request : Edit) (m : MapCell) :
    ∃ kept, kept.Sublist m.keys ∧
      ((edit s request).after m).keys = kept ++ newly s.eq m.keys request.puts := by
  rcases after_eq_putAll_or_sublist s request m with hput | ⟨hnone, hsub⟩
  · exact ⟨m.keys, .refl _, by rw [hput, keys_putAll, Edit.puts]⟩
  · refine ⟨_, hsub, ?_⟩
    rw [Edit.puts, hnone, List.map_nil, newly, List.append_nil]

end

/-! ## Lookup -/

section
variable {eq eq' : Value → Value → Bool} {k k' v : Value} {es : List (Value × Value)} {m : MapCell}

theorem isSome_get? : (m.get? eq k).isSome = m.keys.any (eq · k) := by
  rw [get?, Option.isSome_map, List.isSome_find?, keys, List.any_map]
  rfl

/-- Another key is found as before. -/
theorem find?_putEntry_of_ne (hk : eq' k k' = false)
    (hes : ∀ e ∈ es, eq e.1 k = true → eq' e.1 k' = false) :
    ((putEntry eq k v es).find? fun e => eq' e.1 k').map (·.2) =
      (es.find? fun e => eq' e.1 k').map (·.2) := by
  induction es with
  | nil => simp [putEntry, hk]
  | cons e rest ih =>
    have hrest := ih fun f hf => hes f (List.mem_cons_of_mem e hf)
    by_cases hek : eq e.1 k = true
    · simp [putEntry, hek, hes e List.mem_cons_self hek]
    · cases hek' : eq' e.1 k' <;> simp [putEntry, hek, hek', hrest]

end

section
variable {s t u : Store} {k k' v : Value} {m : MapCell} {log : List Value}

/-- What is found under a key does not depend on the store. -/
theorem get?_congr (hkeys : ∀ k ∈ m.keys, k.isKey = true) (k : Value) :
    m.get? t.eq k = m.get? u.eq k := by
  unfold get?
  rw [List.find?_congr fun e he => Store.eq_of_isKey t u (hkeys e.1 (List.mem_map_of_mem he)) k]

/-- A key that is put is found, and all other keys as before. -/
theorem get?_put (hkeys : ∀ k ∈ m.keys, k.isKey = true) (hk : k.isKey = true) :
    (m.put s.eq k v).get? t.eq k = some v ∧
      ∀ k', t.eq k k' = false → (m.put s.eq k v).get? t.eq k' = m.get? t.eq k' := by
  have hentry {e : Value × Value} (he : e ∈ m.entries) : e.1.isKey = true :=
    hkeys e.1 (List.mem_map_of_mem he)
  constructor
  · exact find?_putEntry (fun e he => Store.eq_of_isKey t s (hentry he) k)
      (Store.eq_self_of_isKey t hk)
  · intro k' hne
    refine find?_putEntry_of_ne hne fun e he hek => ?_
    rw [Store.eq_of_isKey s t (hentry he)] at hek
    rw [Store.eq_congr_of_isKey (hentry he) hk hek, hne]

/-- A key that is removed is not found, and all other keys as before. -/
theorem get?_withoutKey (hkeys : ∀ k ∈ m.keys, k.isKey = true) (hk : k.isKey = true) :
    (m.withoutKey s k).get? t.eq k = none ∧
      ∀ k', t.eq k k' = false → (m.withoutKey s k).get? t.eq k' = m.get? t.eq k' := by
  have hentry {e : Value × Value} (he : e ∈ m.entries) : e.1.isKey = true :=
    hkeys e.1 (List.mem_map_of_mem he)
  constructor
  · rw [get?, Option.map_eq_none_iff, List.find?_eq_none]
    intro e he
    obtain ⟨hmem, hne⟩ := List.mem_filter.mp he
    rw [Store.eq_of_isKey t s (hentry hmem)]
    simpa using hne
  · intro k' hne
    rw [get?, withoutKey, List.find?_filter, get?]
    congr 1
    refine List.find?_congr fun e he => ?_
    cases hek' : t.eq e.1 k' with
    | false => simp
    | true =>
      have hek : s.eq e.1 k = false := by
        rw [Bool.eq_false_iff]
        intro hek
        rw [Store.eq_of_isKey s t (hentry he)] at hek
        rw [Store.eq_congr_of_isKey (hentry he) hk hek, hne] at hek'
        cases hek'
      simp [hek]

/-! ## A run of requests -/

theorem newly_congr {present ks : List Value} (hpresent : ∀ k ∈ present, k.isKey = true)
    (hks : ∀ k ∈ ks, k.isKey = true) : newly s.eq present ks = newly t.eq present ks := by
  induction ks generalizing present with
  | nil => rfl
  | cons k ks ih =>
    obtain ⟨hk, hks⟩ := List.forall_mem_cons.mp hks
    have hany : present.any (s.eq · k) = present.any (t.eq · k) := by
      rw [← List.isSome_find?, ← List.isSome_find?,
        List.find?_congr fun x hx => Store.eq_of_isKey s t (hpresent x hx) k]
    have happend : ∀ x ∈ present ++ [k], x.isKey = true := fun x hx =>
      (List.mem_append.mp hx).elim (hpresent x) fun hx => List.mem_singleton.mp hx ▸ hk
    rw [newly, newly, hany, ih hpresent hks, ih happend hks]

/-- Of pairwise different keys, those that are among some of them are these. -/
theorem filter_any_of_sublist {ks all : List Value} (hsub : ks.Sublist all)
    (hkeys : ∀ k ∈ all, k.isKey = true) (hdistinct : Distinct t.eq all) :
    all.filter (fun k => ks.any (t.eq · k)) = ks := by
  induction hsub with
  | slnil => rfl
  | @cons ks all k hsub ih =>
    obtain ⟨hk, hkeys⟩ := List.forall_mem_cons.mp hkeys
    obtain ⟨hne, hdistinct⟩ := List.pairwise_cons.mp hdistinct
    have habsent : ks.any (t.eq · k) = false := List.any_eq_false.mpr fun x hx => by
      rw [Store.eq_comm_of_isKey (hkeys x (hsub.subset hx)) hk, hne x (hsub.subset hx)]
      exact Bool.false_ne_true
    rw [List.filter_cons_of_neg (by simp [habsent]), ih hkeys hdistinct]
  | @cons_cons ks all k hsub ih =>
    obtain ⟨hk, hkeys⟩ := List.forall_mem_cons.mp hkeys
    obtain ⟨hne, hdistinct⟩ := List.pairwise_cons.mp hdistinct
    rw [List.filter_cons_of_pos (by simp [Store.eq_self_of_isKey t hk])]
    congr 1
    refine (List.filter_congr fun x hx => ?_).trans (ih hkeys hdistinct)
    rw [List.any_cons, hne x hx, Bool.false_or]

/-- The keys of a map are some of those that came, in the order in which they came last. -/
structure Follows (t : Store) (m : MapCell) (log : List Value) : Prop where
  isKey : ∀ k ∈ log, k.isKey = true
  order : m.keys.Sublist (lasts t.eq log)

namespace Follows

theorem isKey_of_mem (h : Follows t m log) : ∀ k ∈ m.keys, k.isKey = true :=
  fun k hk => h.isKey k (lasts_subset (h.order.subset hk))

theorem distinct (h : Follows t m log) : Distinct t.eq m.keys := distinct_lasts.sublist h.order

/-- The keys of a map are those that came and are there, in the order in which they came last. -/
theorem keys_eq (h : Follows t m log) :
    m.keys = (lasts t.eq log).filter fun k => (m.get? t.eq k).isSome := by
  simp only [isSome_get?]
  exact (filter_any_of_sublist h.order (fun k hk => h.isKey k (lasts_subset hk))
    distinct_lasts).symm

/-- One request brings the keys that were not there. -/
theorem after (h : Follows t m log) (s : Store) {request : Edit}
    (hputs : ∀ k ∈ request.puts, k.isKey = true) :
    Follows t ((edit s request).after m) (log ++ newly s.eq m.keys request.puts) := by
  obtain ⟨kept, hkept, hkeys⟩ := keys_after s request m
  rw [newly_congr (t := t) h.isKey_of_mem hputs] at hkeys ⊢
  refine ⟨fun k hk => ?_, ?_⟩
  · exact (List.mem_append.mp hk).elim (h.isKey k) fun hk => hputs k (newly_subset hk)
  · have hother : kept.filter (fun k => !(newly t.eq m.keys request.puts).any (t.eq k)) = kept := by
      refine List.filter_eq_self.mpr fun k hk => ?_
      rw [Bool.not_eq_true', List.any_eq_false]
      intro b hb
      rw [eq_newly (hkept.subset hk) hb]
      exact Bool.false_ne_true
    rw [hkeys, lasts_append, lasts_of_distinct distinct_newly]
    nth_rewrite 1 [← hother]
    exact ((hkept.trans h.order).filter _).append (.refl _)

end Follows

/-- What is left of a map after a run of requests, each with the store that it finds. -/
def run (m : MapCell) (steps : List (Store × Edit)) : MapCell :=
  steps.foldl (fun m step => (edit step.1 step.2).after m) m

/-- The keys that come during a run of requests, in this order. -/
def arrivals (m : MapCell) : List (Store × Edit) → List Value
  | [] => []
  | (s, request) :: rest =>
    newly s.eq m.keys request.puts ++ arrivals ((edit s request).after m) rest

theorem Follows.run (h : Follows t m log) {steps : List (Store × Edit)}
    (hputs : ∀ step ∈ steps, ∀ k ∈ step.2.puts, k.isKey = true) :
    Follows t (m.run steps) (log ++ m.arrivals steps) := by
  induction steps generalizing m log with
  | nil => rwa [arrivals, List.append_nil]
  | cons step rest ih =>
    obtain ⟨hstep, hrest⟩ := List.forall_mem_cons.mp hputs
    rw [arrivals, ← List.append_assoc]
    exact ih (h.after step.1 hstep) hrest

/-- A map stays in order whatever is asked of it. -/
theorem insertion_ordered {steps : List (Store × Edit)}
    (hputs : ∀ step ∈ steps, ∀ k ∈ step.2.puts, k.isKey = true) (key content : BaseType)
    (s t u : Store) :
    let m := run ⟨key, content, []⟩ steps
    Distinct t.eq m.keys ∧
    m.keys = (lasts t.eq (arrivals ⟨key, content, []⟩ steps)).filter
      (fun k => (m.get? t.eq k).isSome) ∧
    ∀ k, k.isKey = true →
      (∀ v, ∃ m', edit s (.put k v) m = .ok .done m' ∧ m'.get? t.eq k = some v ∧
        (∀ k', t.eq k k' = false → m'.get? t.eq k' = m.get? u.eq k') ∧
        ((m.get? u.eq k).isSome → m'.keys = m.keys)) ∧
      ∃ m', edit s (.removeAt k) m = .ok .done m' ∧ m'.get? t.eq k = none ∧
        ∀ k', t.eq k k' = false → m'.get? t.eq k' = m.get? u.eq k' := by
  intro m
  have hempty : Follows t (⟨key, content, []⟩ : MapCell) [] := ⟨nofun, List.nil_sublist _⟩
  have hfollows : Follows t m (arrivals ⟨key, content, []⟩ steps) := hempty.run hputs
  have hkeys := hfollows.isKey_of_mem
  refine ⟨hfollows.distinct, hfollows.keys_eq, fun k hk => ⟨fun v => ?_, ?_⟩⟩
  · obtain ⟨hown, hother⟩ := get?_put (s := s) (t := t) (v := v) hkeys hk
    refine ⟨m.put s.eq k v, rfl, hown, fun k' hne => ?_, fun hsome => ?_⟩
    · rw [hother k' hne, get?_congr hkeys]
    · rw [get?_congr (t := u) (u := s) hkeys, isSome_get?] at hsome
      rw [keys_put, if_pos hsome]
  · obtain ⟨hown, hother⟩ := get?_withoutKey (s := s) (t := t) hkeys hk
    refine ⟨m.withoutKey s k, rfl, hown, fun k' hne => ?_⟩
    rw [hother k' hne, get?_congr hkeys]

end

/-- Two entries, the first of which is removed and put again after a third. -/
def comings : List (Store × Edit) :=
  [(.empty, .addAll none [.pair (.int 1) (.bool true), .pair (.int 2) .nil]),
    (.empty, .put (.int 2) (.bool true)), (.empty, .removeAt (.int 1)),
    (.empty, .add (.int 3)), (.empty, .insert (.int 1) .nil)]

theorem insertion_ordered_comings :
    (∀ step ∈ comings, ∀ k ∈ step.2.puts, k.isKey = true) ∧
    Distinct Store.empty.eq (run ⟨.any, .any, []⟩ comings).keys ∧
    (run ⟨.any, .any, []⟩ comings).keys = [.int 2, .int 3, .int 1] := by
  have hputs : ∀ step ∈ comings, ∀ k ∈ step.2.puts, k.isKey = true := by decide
  obtain ⟨hdistinct, hkeys, _⟩ := insertion_ordered hputs .any .any .empty .empty .empty
  exact ⟨hputs, hdistinct, hkeys.trans rfl⟩

end MapCell
end Habitat

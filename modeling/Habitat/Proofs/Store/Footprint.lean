import Habitat.Container.Access
import Habitat.Proofs.Store.Equality
import Habitat.Store.Cast

/-!
# What looking at values reads

Whoever compares values or writes them down looks into containers. The functions here list what is
looked into, in the order in which it is, and as far as it decides the answer: `Store.eqReads` for a
comparison, `Store.textReads` for a text, and so on. What goes round in circles is `endless`.

A store may differ from another one in the numbers of its containers and in containers that nobody
looks into (`Store.Mirrors`). Then the answers are the same, which is what makes the lists complete.

* `Store.Mirrors.eq`, `Store.Mirrors.text`, `Store.Mirrors.elements`: answers about values.
* `Store.Mirrors.at?`, `Store.Mirrors.cast`: elements at an index, and casts.
-/
namespace Habitat

/-- What can be read or written by itself: an attribute of an agent, whether an agent is dead, or a
container. -/
inductive Cell where
  | attr (id : Nat) (name : String)
  | life (id : Nat)
  | container (k : Store.Kind) (i : Nat)
  deriving DecidableEq

/-- What a run does outside of its own frames. New containers can be made at any time. -/
inductive Access where
  | read (c : Cell)
  | write (c : Cell)
  /-- Something is used that all runs have in common: who lives where, what is still held, or the
  request to stop. -/
  | shared
  /-- A container that is inside itself, or a host above itself, is followed without end. -/
  | endless
  deriving DecidableEq

namespace Value

section
variable (ρ : Renumbering) (v : Value)

@[simp] theorem type_renumber : (v.renumber ρ).type = v.type := by cases v <;> rfl

@[simp] theorem isNil_renumber : (v.renumber ρ).isNil = v.isNil := by cases v <;> rfl

@[simp] theorem truthy_renumber : (v.renumber ρ).truthy = v.truthy := by cases v <;> rfl

@[simp] theorem asInt_renumber : (v.renumber ρ).asInt = v.asInt := by cases v <;> rfl

@[simp] theorem asFloat_renumber : (v.renumber ρ).asFloat = v.asFloat := by cases v <;> rfl

@[simp] theorem asAgent_renumber : (v.renumber ρ).asAgent = v.asAgent := by cases v <;> rfl

@[simp] theorem isContainer_renumber : (v.renumber ρ).isContainer = v.isContainer := by
  rw [isContainer, isContainer, type_renumber]

@[simp] theorem isFlat_renumber : (v.renumber ρ).isFlat = v.isFlat := by
  induction v with
  | pair a b iha ihb => rw [renumber, isFlat, isFlat, iha, ihb]
  | _ => rfl

end

theorem renumber_of_isFlat {v : Value} (h : v.isFlat = true) (ρ : Renumbering) :
    v.renumber ρ = v := by
  induction v with
  | pair a b iha ihb =>
    rw [isFlat, Bool.and_eq_true] at h
    rw [renumber, iha h.1, ihb h.2]
  | list | map | matrix | graph => cases h
  | _ => rfl

theorem within_of_isFlat {v : Value} (h : v.isFlat = true) (n : Store.Kind → Nat) :
    v.Within n := by
  induction v with
  | pair a b iha ihb =>
    rw [isFlat, Bool.and_eq_true] at h
    exact ⟨iha h.1, ihb h.2⟩
  | list | map | matrix | graph => cases h
  | _ => trivial

/-- Looking into a container; other values are looked at as they are. -/
def look (v : Value) : List Access :=
  v.container?.toList.map fun r => .read (.container r.1 r.2)

/-- Comparing values, given how containers are compared. -/
def meets (eq : Value → Value → Bool) (container : Store.Kind → Nat → Nat → List Access) :
    Value → Value → List Access
  | .pair a b, .pair a' b' =>
    a.meets eq container a' ++ if eq a a' then b.meets eq container b' else []
  | .list i, .list j => container .list i j
  | .map i, .map j => container .map i j
  | .matrix i, .matrix j => container .matrix i j
  | .graph i, .graph j => container .graph i j
  | _, _ => []

end Value

def ListCell.renumber (ρ : Renumbering) (l : ListCell) : ListCell :=
  { l with items := l.items.map (·.renumber ρ) }

def MapCell.renumber (ρ : Renumbering) (m : MapCell) : MapCell :=
  { m with entries := m.entries.map fun e => (e.1.renumber ρ, e.2.renumber ρ) }

def MatrixCell.renumber (ρ : Renumbering) (m : MatrixCell) : MatrixCell :=
  { m with cells := m.cells.map (·.renumber ρ) }

def Edge.renumber (ρ : Renumbering) (e : Edge) : Edge :=
  ⟨e.source.renumber ρ, e.target.renumber ρ, e.weight⟩

def GraphCell.renumber (ρ : Renumbering) (g : GraphCell) : GraphCell :=
  ⟨g.vertices.map (·.renumber ρ), g.edges.map (·.renumber ρ)⟩

/-- Comparing the values of two lists in pairs, up to the first difference. -/
def pairReads {α : Type} (eq : α → α → Bool) (reads : α → α → List Access) :
    List α → List α → List Access
  | a :: as, b :: bs => reads a b ++ if eq a b then pairReads eq reads as bs else []
  | _, _ => []

/-- Searching a list for the first element that is found. -/
def searchReads {α : Type} (found : α → Bool) (reads : α → List Access) : List α → List Access
  | [] => []
  | a :: rest => reads a ++ if found a then [] else searchReads found reads rest

/-- Whether two containers have the same shape, so that their values can be compared in pairs. -/
def Object.matches : Object → Object → Bool
  | .list x, .list y => x.items.size == y.items.size
  | .map x, .map y => x.entries.length == y.entries.length
  | .matrix x, .matrix y =>
    x.cols == y.cols && x.rows == y.rows && x.content == y.content && x.cells.size == y.cells.size
  | .graph x, .graph y =>
    x.vertices.length == y.vertices.length &&
      eqLists (fun e f => e.weight == f.weight) x.edges y.edges
  | _, _ => false

/-- What a text shows of a container. Of a graph it shows the numbers of vertices and edges. -/
def Object.shown : Object → List Value
  | .graph _ => []
  | o => o.values

namespace Store

/-- Comparing values, down to `n` nested containers. -/
def eqReadsAt (s : Store) : Nat → Value → Value → List Access
  | 0 => Value.meets (s.eqAt 0) fun _ i j => if i = j then [] else [.endless]
  | n + 1 => Value.meets (s.eqAt (n + 1)) fun k i j =>
    if i = j then [] else
    .read (.container k i) :: .read (.container k j) ::
      if (s.cell (k, i)).matches (s.cell (k, j)) then
        pairReads (s.eqAt n) (s.eqReadsAt n) (s.cell (k, i)).values (s.cell (k, j)).values
      else []

/-- Comparing values. -/
def eqReads (s : Store) (a b : Value) : List Access := s.eqReadsAt s.size a b

/-- Writing a value down, with `n` nested containers. -/
def textReadsAt (s : Store) : Nat → Value → List Access
  | 0, v => v.refs.map fun _ => .endless
  | n + 1, v => v.refs.flatMap fun r =>
    .read (.container r.1 r.2) :: (s.cell r).shown.flatMap (s.textReadsAt n)

/-- Writing a value down. -/
def textReads (s : Store) (v : Value) : List Access := s.textReadsAt s.size v

/-- Asking whether an edge joins two values. -/
def joinReads (s : Store) (a b : Value) (e : Edge) : List Access :=
  s.eqReads e.source a ++ if s.eq e.source a then s.eqReads e.target b else []

/-- Reading an element at an index. -/
def atReads (s : Store) (target index : Value) : List Access :=
  match target, index with
  | .list _, _ => target.look
  | .map r, k =>
    target.look ++
      searchReads (fun e => s.eq e.1 k) (fun e => s.eqReads e.1 k) (s.maps.get r).entries
  | .matrix _, i => target.look ++ i.look
  | .graph r, .pair a b =>
    target.look ++ searchReads (GraphCell.joins s.eq a b) (s.joinReads a b) (s.graphs.get r).edges
  | _, _ => []

/-- Casting a value. -/
def castReads (s : Store) (target : BaseType) (v : Value) : List Access :=
  if target = .any ∨ v.type = target then [] else
  match target with
  | .string => s.textReads v
  | .point | .pair | .list => v.look
  | _ => []

end Store

/-! ## Comparing lists -/

section
variable {α β : Type} {eq : α → α → Bool}

theorem eqLists_eq_and_length (eq : α → α → Bool) (as bs : List α) :
    eqLists eq as bs = (as.length == bs.length && eqLists eq as bs) := by
  induction as generalizing bs with
  | nil => cases bs <;> rfl
  | cons a as ih =>
    cases bs with
    | nil => rfl
    | cons b bs =>
      rw [eqLists, ih bs, List.length_cons, List.length_cons]
      cases eq a b <;> cases h : as.length == bs.length <;> simp_all

theorem eqLists_append {as bs : List α} (h : as.length = bs.length) (as' bs' : List α) :
    eqLists eq (as ++ as') (bs ++ bs') = (eqLists eq as bs && eqLists eq as' bs') := by
  induction as generalizing bs with
  | nil =>
    obtain rfl := List.eq_nil_of_length_eq_zero h.symm
    rfl
  | cons a as ih =>
    cases bs with
    | nil => cases h
    | cons b bs =>
      rw [List.cons_append, List.cons_append, eqLists, eqLists, ih (Nat.succ.inj h),
        Bool.and_assoc]

/-- Lists that hold pairs are compared side by side. -/
theorem eqLists_pairs {p : Value → Value → Bool} {q : β → β → Bool} (fst snd : β → Value)
    (as bs : List β) :
    eqLists (fun a b => p (fst a) (fst b) && p (snd a) (snd b) && q a b) as bs =
      (eqLists q as bs &&
        eqLists p (as.flatMap fun a => [fst a, snd a]) (bs.flatMap fun b => [fst b, snd b])) := by
  induction as generalizing bs with
  | nil => cases bs <;> rfl
  | cons a as ih =>
    cases bs with
    | nil => rfl
    | cons b bs =>
      rw [eqLists, ih, eqLists, List.flatMap_cons, List.flatMap_cons, List.cons_append,
        List.cons_append, List.cons_append, List.cons_append, List.nil_append, List.nil_append,
        eqLists, eqLists]
      ac_rfl

end

namespace Store

/-- Two containers are equal if they are the same one, or if they have the same shape and equal
values. -/
theorem alike_eq (s : Store) (n : Nat) (k : Kind) (i j : Nat) :
    s.alike n k i j = (i == j || (s.cell (k, i)).matches (s.cell (k, j)) &&
      eqLists (s.eqAt n) (s.cell (k, i)).values (s.cell (k, j)).values) := by
  cases k with
  | list =>
    rw [alike, eqLists_eq_and_length]
    rfl
  | map =>
    have hlength {β : Type} (as bs : List β) :
        eqLists (fun _ _ => true) as bs = (as.length == bs.length) := by
      induction as generalizing bs with
      | nil => cases bs <;> rfl
      | cons a as ih => cases bs <;> simp [eqLists, ih]
    have hpairs := eqLists_pairs (p := s.eqAt n) (q := fun _ _ => true) Prod.fst Prod.snd
      (s.maps.get i).entries (s.maps.get j).entries
    simp only [Bool.and_true, hlength] at hpairs
    rw [alike, hpairs]
    rfl
  | matrix =>
    have hlength := eqLists_eq_and_length (s.eqAt n) (s.matrices.get i).cells.toList
      (s.matrices.get j).cells.toList
    simp only [alike, cell, Object.matches, Object.values, Array.length_toList] at hlength ⊢
    cases hsize : (s.matrices.get i).cells.size == (s.matrices.get j).cells.size with
    | true => rw [Bool.and_true]
    | false =>
      rw [hsize, Bool.false_and] at hlength
      rw [hlength, Bool.and_false, Bool.and_false]
  | graph =>
    have hpairs := eqLists_pairs (p := s.eqAt n) (q := fun e f => e.weight == f.weight)
      Edge.source Edge.target (s.graphs.get i).edges (s.graphs.get j).edges
    simp only [alike, cell, Object.matches, Object.values]
    rw [hpairs]
    by_cases hlength : (s.graphs.get i).vertices.length = (s.graphs.get j).vertices.length
    · rw [eqLists_append hlength, hlength, beq_self_eq_true, Bool.true_and]
      ac_rfl
    · rw [eqLists_eq_and_length (s.eqAt n) (s.graphs.get i).vertices, beq_false_of_ne hlength]
      rfl

/-! ## Stores that mirror each other -/

/-- To those who look into nothing but what they may, `d` is like `c`, with other numbers. -/
structure Mirrors (P : Access → Prop) (ρ : Renumbering) (c d : Store) : Prop where
  cell : ∀ k i, P (.read (.container k i)) → d.cell (k, ρ k i) = (c.cell (k, i)).renumber ρ
  size_le : c.size ≤ d.size
  injective : ∀ k i j, ρ k i = ρ k j → i = j
  ends : ¬P .endless

end Store

section
variable {P : Access → Prop} {ρ : Renumbering}

/-- Values compare alike if their containers do. -/
theorem Value.eqWith_renumber {p q : Store.Kind → Nat → Nat → Bool}
    {container : Store.Kind → Nat → Nat → List Access}
    (h : ∀ k i j, (∀ x ∈ container k i j, P x) → q k (ρ k i) (ρ k j) = p k i j)
    {a b : Value}
    (hP : ∀ x ∈ a.meets (Value.eqWith (p .list) (p .map) (p .matrix) (p .graph))
      container b, P x) :
    (a.renumber ρ).eqWith (q .list) (q .map) (q .matrix) (q .graph)
        (b.renumber ρ) =
      a.eqWith (p .list) (p .map) (p .matrix) (p .graph) b := by
  induction a generalizing b with
  | pair a a' iha iha' =>
    cases b with
    | pair b b' =>
      rw [meets, List.forall_mem_append] at hP
      rw [renumber, renumber, eqWith, eqWith, iha hP.1]
      cases heq : a.eqWith (p .list) (p .map) (p .matrix) (p .graph) b with
      | false => rfl
      | true =>
        rw [heq, if_pos rfl] at hP
        rw [iha' hP.2]
    | _ => rfl
  | list i =>
    cases b with
    | list j => exact h .list i j hP
    | _ => rfl
  | map i =>
    cases b with
    | map j => exact h .map i j hP
    | _ => rfl
  | matrix i =>
    cases b with
    | matrix j => exact h .matrix i j hP
    | _ => rfl
  | graph i =>
    cases b with
    | graph j => exact h .graph i j hP
    | _ => rfl
  | _ => cases b <;> rfl

theorem eqLists_renumber {α β : Type} {f : α → β} {p : α → α → Bool} {q : β → β → Bool}
    {reads : α → α → List Access}
    (h : ∀ a b, (∀ x ∈ reads a b, P x) → q (f a) (f b) = p a b) {as bs : List α}
    (hP : ∀ x ∈ pairReads p reads as bs, P x) :
    eqLists q (as.map f) (bs.map f) = eqLists p as bs := by
  induction as generalizing bs with
  | nil => cases bs <;> rfl
  | cons a as ih =>
    cases bs with
    | nil => rfl
    | cons b bs =>
      rw [pairReads, List.forall_mem_append] at hP
      rw [List.map_cons, List.map_cons, eqLists, eqLists, h a b hP.1]
      cases heq : p a b with
      | false => rfl
      | true =>
        rw [heq, if_pos rfl] at hP
        rw [ih hP.2]

section
variable {α β : Type} {f : α → β} {p : α → Bool} {q : β → Bool} {reads : α → List Access}
  (h : ∀ a, (∀ x ∈ reads a, P x) → q (f a) = p a) {as : List α}
  (hP : ∀ x ∈ searchReads p reads as, P x)
include h hP

theorem find?_renumber : (as.map f).find? q = (as.find? p).map f := by
  induction as with
  | nil => rfl
  | cons a rest ih =>
    rw [searchReads, List.forall_mem_append] at hP
    rw [List.map_cons, List.find?_cons, List.find?_cons, h a hP.1]
    cases hp : p a with
    | true => rfl
    | false =>
      rw [hp, if_neg Bool.false_ne_true] at hP
      exact ih hP.2

theorem any_renumber : (as.map f).any q = as.any p := by
  rw [← List.isSome_find?, ← List.isSome_find?, find?_renumber h hP, Option.isSome_map]

end

namespace Object

@[simp] theorem values_renumber (o : Object) :
    (o.renumber ρ).values = o.values.map (·.renumber ρ) := by
  cases o <;> simp [renumber, mapValues, values, List.map_flatMap, List.flatMap_map,
    Function.comp_def]

/-- The shape does not depend on numbers. -/
theorem matches_renumber (o o' : Object) :
    (o.renumber ρ).matches (o'.renumber ρ) = o.matches o' := by
  have hweights (es fs : List Edge) :
      eqLists (fun e f : Edge => e.weight == f.weight)
          (es.map fun e => ⟨e.source.renumber ρ, e.target.renumber ρ, e.weight⟩)
          (fs.map fun e => ⟨e.source.renumber ρ, e.target.renumber ρ, e.weight⟩) =
        eqLists (fun e f => e.weight == f.weight) es fs := by
    induction es generalizing fs with
    | nil => cases fs <;> rfl
    | cons e es ih => cases fs <;> simp [eqLists, ih]
  cases o with
  | agent x => rfl
  | list x => cases o' with
    | list y =>
      simp only [renumber, mapValues, «matches», Array.size_map]
    | _ => rfl
  | map x => cases o' with
    | map y =>
      simp only [renumber, mapValues, «matches», List.length_map]
    | _ => rfl
  | matrix x => cases o' with
    | matrix y =>
      simp only [renumber, mapValues, «matches», Array.size_map]
    | _ => rfl
  | graph x => cases o' with
    | graph y =>
      simp only [renumber, mapValues, «matches», List.length_map, hweights]
    | _ => rfl

end Object

namespace Store
variable {c d : Store} (h : Mirrors P ρ c d)
include h

theorem Mirrors.beq_renumber (k : Kind) (i j : Nat) : (ρ k i == ρ k j) = (i == j) := by
  rw [Bool.eq_iff_iff, beq_iff_eq, beq_iff_eq]
  exact ⟨h.injective k i j, congrArg (ρ k)⟩

theorem Mirrors.eqAt {n m : Nat} (hnm : n ≤ m) {a b : Value}
    (hP : ∀ x ∈ c.eqReadsAt n a b, P x) :
    d.eqAt m (a.renumber ρ) (b.renumber ρ) = c.eqAt n a b := by
  induction n generalizing m a b with
  | zero =>
    -- No container is opened, so all of them are compared with themselves.
    have hself (i j : Nat) (hij : ∀ x ∈ if i = j then [] else [Access.endless], P x) : i = j :=
      Classical.byContradiction fun hne => by
        rw [if_neg hne] at hij
        exact h.ends (hij _ List.mem_cons_self)
    cases m with
    | zero =>
      exact Value.eqWith_renumber (p := fun _ i j => i == j) (q := fun _ i j => i == j)
        (fun k i j _ => h.beq_renumber k i j) hP
    | succ m =>
      refine Value.eqWith_renumber (p := fun _ i j => i == j) (q := d.alike m)
        (fun k i j hij => ?_) hP
      rw [hself i j hij, alike_self, beq_self_eq_true]
  | succ n ih =>
    obtain ⟨m, rfl⟩ := Nat.exists_eq_add_of_le' (Nat.le_trans (Nat.le_add_left 1 n) hnm)
    refine Value.eqWith_renumber (p := c.alike n) (q := d.alike m) (fun k i j hij => ?_) hP
    rw [alike_eq, alike_eq, h.beq_renumber]
    by_cases hsame : i = j
    · rw [hsame, beq_self_eq_true, Bool.true_or, Bool.true_or]
    · rw [if_neg hsame, List.forall_mem_cons, List.forall_mem_cons] at hij
      obtain ⟨hi, hj, hinside⟩ := hij
      rw [h.cell k i hi, h.cell k j hj, Object.matches_renumber]
      split at hinside
      case isTrue =>
        have hvalues := eqLists_renumber (f := Value.renumber ρ) (q := d.eqAt m)
          (fun _ _ => ih (Nat.le_of_succ_le_succ hnm)) hinside
        rw [Object.values_renumber, Object.values_renumber, hvalues]
      case isFalse hno =>
        rw [Bool.eq_false_iff.mpr hno]
        rfl

/-- Values are equal if they are. -/
theorem Mirrors.eq {a b : Value} (hP : ∀ x ∈ c.eqReads a b, P x) :
    d.eq (a.renumber ρ) (b.renumber ρ) = c.eq a b := h.eqAt h.size_le hP

theorem Mirrors.joins {a b : Value} {e : Edge} (hP : ∀ x ∈ c.joinReads a b e, P x) :
    GraphCell.joins d.eq (a.renumber ρ) (b.renumber ρ) (e.renumber ρ) =
      GraphCell.joins c.eq a b e := by
  rw [joinReads, List.forall_mem_append] at hP
  rw [GraphCell.joins, GraphCell.joins, Edge.renumber, h.eq hP.1]
  cases hsource : c.eq e.source a with
  | false => rfl
  | true =>
    rw [hsource, if_pos rfl] at hP
    rw [h.eq hP.2]

omit h in
theorem texts_eq_map (trees : List Tree) : Tree.texts trees = trees.map Tree.text := by
  induction trees with
  | nil => rfl
  | cons t rest ih => rw [Tree.texts, ih, List.map_cons]

omit h in
theorem entryTexts_eq_map (trees : List (Tree × Tree)) :
    Tree.entryTexts trees = trees.map fun e => e.1.text ++ "::" ++ e.2.text := by
  induction trees with
  | nil => rfl
  | cons e rest ih => rw [Tree.entryTexts, ih, List.map_cons]

omit h in
theorem lineTexts_eq_map (lines : List (List Tree)) :
    Tree.lineTexts lines = lines.map fun line => ",".intercalate (line.map Tree.text) := by
  induction lines with
  | nil => rfl
  | cons line rest ih => rw [Tree.lineTexts, ih, List.map_cons, texts_eq_map]

omit h in
/-- A value that refers to no container looks the same everywhere. -/
theorem treeAt_of_refs {v : Value} (hv : v.refs = []) (s t : Store) (ρ : Renumbering) (n : Nat) :
    s.treeAt n (v.renumber ρ) = t.treeAt 0 v := by
  induction v with
  | pair a b iha ihb =>
    obtain ⟨ha, hb⟩ := List.append_eq_nil_iff.mp hv
    have hpair (s : Store) (n : Nat) (a b : Value) :
        s.treeAt n (.pair a b) = .pair (s.treeAt n a) (s.treeAt n b) := by cases n <;> rfl
    rw [Value.renumber, hpair, hpair, iha ha, ihb hb]
  | list | map | matrix | graph => cases hv
  | _ => cases n <;> rfl

/-- A value reads alike. -/
theorem Mirrors.textAt {n m : Nat} (hnm : n ≤ m) {v : Value}
    (hP : ∀ x ∈ c.textReadsAt n v, P x) :
    (d.treeAt m (v.renumber ρ)).text = (c.treeAt n v).text := by
  induction n generalizing m v with
  | zero =>
    -- There is nothing to unfold.
    have hrefs : v.refs = [] := List.eq_nil_iff_forall_not_mem.mpr fun r hr =>
      h.ends (hP _ (List.mem_map_of_mem hr))
    rw [treeAt_of_refs hrefs]
  | succ n ih =>
    obtain ⟨m, rfl⟩ := Nat.exists_eq_add_of_le' (Nat.le_trans (Nat.le_add_left 1 n) hnm)
    have hinside (r : Ref) (hr : r ∈ v.refs) : P (.read (.container r.1 r.2)) ∧
        ∀ u ∈ (c.cell r).shown, (d.treeAt m (u.renumber ρ)).text = (c.treeAt n u).text := by
      have hr := fun x hx => hP x (List.mem_flatMap.mpr ⟨r, hr, hx⟩)
      refine ⟨hr _ List.mem_cons_self, fun u hu => ih (Nat.le_of_succ_le_succ hnm) fun x hx => ?_⟩
      exact hr x (List.mem_cons_of_mem _ (List.mem_flatMap.mpr ⟨u, hu, hx⟩))
    clear hP
    induction v with
    | pair a b iha ihb =>
      have ha := iha fun r hr => hinside r (List.mem_append_left _ hr)
      have hb := ihb fun r hr => hinside r (List.mem_append_right _ hr)
      simp only [treeAt, Value.renumber, Value.treeWith, Tree.text] at ha hb ⊢
      rw [ha, hb]
    | list i =>
      obtain ⟨hread, hitems⟩ := hinside (.list, i) List.mem_cons_self
      have hlist := Object.list.inj (h.cell .list i hread)
      simp only [treeAt, Value.renumber, Value.treeWith, Tree.text, hlist, Array.toList_map,
        texts_eq_map, List.map_map]
      congr 3
      exact List.map_congr_left hitems
    | map i =>
      obtain ⟨hread, hentries⟩ := hinside (.map, i) List.mem_cons_self
      have hmap := Object.map.inj (h.cell .map i hread)
      have hvalue {e : Value × Value} (he : e ∈ (c.maps.get i).entries) {u : Value}
          (hu : u ∈ [e.1, e.2]) : (d.treeAt m (u.renumber ρ)).text = (c.treeAt n u).text :=
        hentries u (List.mem_flatMap.mpr ⟨e, he, hu⟩)
      simp only [treeAt, Value.renumber, Value.treeWith, Tree.text, hmap, entryTexts_eq_map,
        List.map_map]
      congr 3
      refine List.map_congr_left fun e he => ?_
      simp only [Function.comp_apply]
      rw [hvalue he (u := e.1) (by simp), hvalue he (u := e.2) (by simp)]
    | matrix i =>
      obtain ⟨hread, hcells⟩ := hinside (.matrix, i) List.mem_cons_self
      have hmatrix := Object.matrix.inj (h.cell .matrix i hread)
      have hrow (j : Nat) : (d.matrices.get (ρ .matrix i)).row j =
          ((c.matrices.get i).row j).map (·.renumber ρ) := by
        simp [hmatrix, MatrixCell.row, List.map_drop, List.map_take]
      have hrows : (d.matrices.get (ρ .matrix i)).rows = (c.matrices.get i).rows := by rw [hmatrix]
      simp only [treeAt, Value.renumber, Value.treeWith, Tree.text, lineTexts_eq_map, List.map_map,
        hrows]
      congr 3
      refine List.map_congr_left fun j _ => ?_
      simp only [Function.comp_apply, hrow, List.map_map]
      congr 1
      exact List.map_congr_left fun u hu => hcells u (mem_cells_of_mem_row hu)
    | graph i =>
      obtain ⟨hread, -⟩ := hinside (.graph, i) List.mem_cons_self
      have hgraph := Object.graph.inj (h.cell .graph i hread)
      simp only [treeAt, Value.renumber, Value.treeWith, Tree.text, hgraph, List.length_map]
    | _ => rfl

/-- A value has the same text. -/
theorem Mirrors.text {v : Value} (hP : ∀ x ∈ c.textReads v, P x) :
    d.text (v.renumber ρ) = c.text v := h.textAt h.size_le hP

/-! ### Looking into containers -/

/-- Whoever may look into the container of a value finds what is there. -/
theorem Mirrors.cell_of_look {v : Value} {r : Ref} (hP : ∀ x ∈ v.look, P x)
    (hv : v.container? = some r) : d.cell (r.1, ρ r.1 r.2) = (c.cell r).renumber ρ := by
  refine h.cell r.1 r.2 (hP _ ?_)
  rw [Value.look, hv]
  exact List.mem_cons_self

theorem Mirrors.list {i : Nat} (hP : ∀ x ∈ (Value.list i).look, P x) :
    d.lists.get (ρ .list i) = (c.lists.get i).renumber ρ :=
  Object.list.inj (h.cell_of_look hP rfl)

theorem Mirrors.map {i : Nat} (hP : ∀ x ∈ (Value.map i).look, P x) :
    d.maps.get (ρ .map i) = (c.maps.get i).renumber ρ :=
  Object.map.inj (h.cell_of_look hP rfl)

theorem Mirrors.matrix {i : Nat} (hP : ∀ x ∈ (Value.matrix i).look, P x) :
    d.matrices.get (ρ .matrix i) = (c.matrices.get i).renumber ρ :=
  Object.matrix.inj (h.cell_of_look hP rfl)

theorem Mirrors.graph {i : Nat} (hP : ∀ x ∈ (Value.graph i).look, P x) :
    d.graphs.get (ρ .graph i) = (c.graphs.get i).renumber ρ :=
  Object.graph.inj (h.cell_of_look hP rfl)

theorem Mirrors.elements {v : Value} (hP : ∀ x ∈ v.look, P x) :
    d.elements (v.renumber ρ) = (c.elements v).map (·.renumber ρ) := by
  cases v with
  | list i =>
    simp only [Value.renumber, Store.elements, h.list hP, ListCell.renumber, Array.toList_map]
  | map i =>
    simp only [Value.renumber, Store.elements, h.map hP, MapCell.renumber, List.map_map]
    rfl
  | matrix i =>
    simp only [Value.renumber, Store.elements, h.matrix hP, MatrixCell.renumber, Array.toList_map]
  | graph i =>
    simp only [Value.renumber, Store.elements, h.graph hP, GraphCell.renumber, List.map_map]
    rfl
  | _ => rfl

theorem Mirrors.agents {v : Value} (hP : ∀ x ∈ v.look, P x) :
    d.agents (v.renumber ρ) = c.agents v := by
  rw [Store.agents, Store.agents, h.elements hP, List.filterMap_map]
  exact List.filterMap_congr fun v _ => v.asAgent_renumber ρ

theorem Mirrors.length {v : Value} (hP : ∀ x ∈ v.look, P x) :
    d.length (v.renumber ρ) = c.length v := by
  cases v with
  | list i => simp only [Value.renumber, Store.length, h.list hP, ListCell.renumber, Array.size_map]
  | matrix i =>
    simp only [Value.renumber, Store.length, h.matrix hP, MatrixCell.renumber, Array.size_map]
  | _ =>
    have helements := congrArg List.length (h.elements hP)
    rwa [List.length_map] at helements

theorem Mirrors.cellIndex? {index : Value} (hP : ∀ x ∈ index.look, P x) :
    d.cellIndex? (index.renumber ρ) = c.cellIndex? index := by
  have helements := h.elements hP
  have hnatural (v : Value) : naturalIndex? (v.renumber ρ) = naturalIndex? v := by
    simp only [naturalIndex?, Value.asInt_renumber]
  have htwo {s : Store} {v x y : Value} (hv : ∀ x y, v ≠ .point x y) (h : s.elements v = [x, y]) :
      s.cellIndex? v = do return (← naturalIndex? x, ← naturalIndex? y) := by
    unfold Store.cellIndex?
    split
    · exact absurd rfl (hv _ _)
    · rw [h]
  have hother {s : Store} {v : Value} (hv : ∀ x y, v ≠ .point x y)
      (h : ∀ x y, s.elements v ≠ [x, y]) : s.cellIndex? v = none := by
    unfold Store.cellIndex?
    split
    · exact absurd rfl (hv _ _)
    · split
      · exact absurd ‹_› (h _ _)
      · rfl
  by_cases hindex : ∃ x y, index = .point x y
  · obtain ⟨x, y, rfl⟩ := hindex
    rfl
  have hc : ∀ x y, index ≠ .point x y := fun x y hxy => hindex ⟨x, y, hxy⟩
  have hd : ∀ x y, index.renumber ρ ≠ .point x y := by
    intro x y hxy
    cases index with
    | point x y => exact hindex ⟨x, y, rfl⟩
    | _ => cases hxy
  by_cases hpair : ∃ x y, c.elements index = [x, y]
  · obtain ⟨x, y, hxy⟩ := hpair
    rw [hxy] at helements
    rw [htwo hc hxy, htwo hd helements, hnatural, hnatural]
  · have hitems : ∀ x y, c.elements index ≠ [x, y] := fun x y hxy => hpair ⟨x, y, hxy⟩
    rw [hother hc hitems, hother hd]
    intro x y hxy
    obtain ⟨x', rest, hrest, -, hy⟩ := List.map_eq_cons_iff.mp (helements.symm.trans hxy)
    obtain ⟨y', rest', rfl, -, hnil⟩ := List.map_eq_cons_iff.mp hy
    rw [List.map_eq_nil_iff.mp hnil] at hrest
    exact hitems x' y' hrest

/-- The same element is found at an index. -/
theorem Mirrors.at? {target index : Value} (hP : ∀ x ∈ c.atReads target index, P x) :
    d.at? (target.renumber ρ) (index.renumber ρ) = (c.at? target index).map (·.renumber ρ) := by
  cases target with
  | list i =>
    have hnatural : naturalIndex? (index.renumber ρ) = naturalIndex? index := by
      simp only [naturalIndex?, Value.asInt_renumber]
    simp only [Value.renumber, Store.at?, h.list hP, ListCell.renumber, hnatural]
    cases naturalIndex? index <;> simp
  | map i =>
    rw [atReads, List.forall_mem_append] at hP
    have hfind := find?_renumber (f := fun e : Value × Value => (e.1.renumber ρ, e.2.renumber ρ))
      (q := fun e => d.eq e.1 (index.renumber ρ)) (fun _ => h.eq) hP.2
    simp only [Value.renumber, Store.at?, MapCell.get?, h.map hP.1, MapCell.renumber, hfind,
      Option.map_map]
    rfl
  | matrix i =>
    rw [atReads, List.forall_mem_append] at hP
    simp only [Value.renumber, Store.at?, h.matrix hP.1, MatrixCell.renumber, h.cellIndex? hP.2]
    cases c.cellIndex? index with
    | none => rfl
    | some at? =>
      simp only [Option.bind_eq_bind, Option.bind_some, MatrixCell.get?, Array.getElem?_map]
      split <;> rfl
  | graph i =>
    cases index with
    | pair a b =>
      rw [atReads, List.forall_mem_append] at hP
      have hfind := find?_renumber (f := Edge.renumber ρ)
        (q := GraphCell.joins d.eq (a.renumber ρ) (b.renumber ρ)) (fun _ => h.joins) hP.2
      simp only [Value.renumber, Store.at?, GraphCell.weight?, h.graph hP.1, GraphCell.renumber,
        hfind, Option.map_map]
      rfl
    | _ => rfl
  | _ => rfl

omit h in
theorem castInt_renumber (v : Value) : castInt (v.renumber ρ) = (castInt v).map (·.renumber ρ) := by
  cases v with
  | str s =>
    simp only [Value.renumber, castInt, Option.map_map]
    rfl
  | _ => rfl

omit h in
theorem castFloat_renumber (v : Value) :
    castFloat (v.renumber ρ) = (castFloat v).map (·.renumber ρ) := by
  cases v with
  | str s =>
    simp only [Value.renumber, castFloat, Option.map_map]
    rfl
  | _ => rfl

theorem Mirrors.castPoint {v : Value} (hP : ∀ x ∈ v.look, P x) :
    d.castPoint (v.renumber ρ) = (c.castPoint v).map (·.renumber ρ) := by
  rw [Store.castPoint, Store.castPoint, Value.asFloat_renumber, Value.isContainer_renumber,
    h.elements hP]
  cases v.asFloat with
  | some x => rfl
  | none =>
    cases v.isContainer with
    | false => rfl
    | true =>
      rcases c.elements v with _ | ⟨x, _ | ⟨y, _ | ⟨z, rest⟩⟩⟩ <;> try rfl
      simp only [List.map_cons, List.map_nil, if_true, Value.asFloat_renumber]
      cases x.asFloat <;> cases y.asFloat <;> rfl

theorem Mirrors.castPair {v : Value} (hP : ∀ x ∈ v.look, P x) :
    d.castPair (v.renumber ρ) = (c.castPair v).map (·.renumber ρ) := by
  rw [Store.castPair, Store.castPair, Value.isContainer_renumber, h.elements hP]
  cases v.isContainer with
  | false => rfl
  | true => rcases c.elements v with _ | ⟨x, _ | ⟨y, _ | ⟨z, rest⟩⟩⟩ <;> rfl

omit h in
theorem castSpecies_renumber (speciesOf : AgentRef → String) (v : Value) :
    castSpecies speciesOf (v.renumber ρ) = (castSpecies speciesOf v).map (·.renumber ρ) := by
  cases v <;> rfl

/-- A cast fails in both, makes a new list of the same elements in both, or comes to the same
value. -/
theorem Mirrors.cast (speciesOf : AgentRef → String) {target : BaseType} {v : Value}
    (hP : ∀ x ∈ c.castReads target v, P x) :
    (∃ w : Option Value, c.cast speciesOf target v = w.map (·, c) ∧
      d.cast speciesOf target (v.renumber ρ) = w.map (·.renumber ρ, d)) ∨
    c.cast speciesOf target v = some (c.newList .any (c.elements v)) ∧
      d.cast speciesOf target (v.renumber ρ) =
        some (d.newList .any ((c.elements v).map (·.renumber ρ))) := by
  unfold Store.cast castReads at *
  rw [Value.type_renumber]
  split at hP
  case isTrue hsame =>
    rw [if_pos hsame, if_pos hsame]
    exact .inl ⟨some v, rfl, rfl⟩
  case isFalse hother =>
    rw [if_neg hother, if_neg hother]
    have hmap {o o' : Option Value} (ho : o' = o.map (·.renumber ρ)) :
        ∃ w : Option Value, o.map (·, c) = w.map (·, c) ∧
          o'.map (·, d) = w.map (·.renumber ρ, d) :=
      ⟨o, rfl, by rw [ho, Option.map_map]; rfl⟩
    cases target with
    | int => exact .inl (hmap (castInt_renumber v))
    | float => exact .inl (hmap (castFloat_renumber v))
    | bool => exact .inl ⟨some (.bool v.truthy), rfl, by rw [Value.truthy_renumber]; rfl⟩
    | string => exact .inl ⟨some (.str (c.text v)), rfl, by rw [h.text hP]; rfl⟩
    | point => exact .inl (hmap (h.castPoint hP))
    | pair => exact .inl (hmap (h.castPair hP))
    | list => exact .inr ⟨rfl, by rw [h.elements hP]⟩
    | species => exact .inl (hmap (castSpecies_renumber speciesOf v))
    | _ => exact .inl ⟨none, rfl, rfl⟩

theorem Mirrors.keyType {v : Value} (hP : ∀ x ∈ v.look, P x) :
    d.keyType (v.renumber ρ) = c.keyType v := by
  cases v with
  | map i => simp only [Value.renumber, Store.keyType, h.map hP, MapCell.renumber]
  | _ => rfl

theorem Mirrors.contentType {v : Value} (hP : ∀ x ∈ v.look, P x) :
    d.contentType (v.renumber ρ) = c.contentType v := by
  cases v with
  | list i => simp only [Value.renumber, Store.contentType, h.list hP, ListCell.renumber]
  | map i => simp only [Value.renumber, Store.contentType, h.map hP, MapCell.renumber]
  | matrix i => simp only [Value.renumber, Store.contentType, h.matrix hP, MatrixCell.renumber]
  | _ => rfl

end Store
end
end Habitat

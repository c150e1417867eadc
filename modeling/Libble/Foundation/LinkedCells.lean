import Libble.Foundation.LabelledMachine

/-!
# Linked cells in a memory

Singly linked lists as a memory has them: every item lies in a cell of its own, which holds the
item and the address of the next cell. A list is given with the addresses of its cells, so that
the cells of two equal items are told apart. What a program does to a list changes a few cells;
the results say which lists the memory holds afterwards, and that it holds all other lists as
before.

The lists of a memory are named by *places*. A memory is laid out in a family of lists when it
holds each of them, no cell belongs to two of them, and there are no other cells: nothing is lost
that was not released.

## Main definitions

* `Cell`, `Cells`: cells and memories; `Cells.alloc`, `Cells.setNext`, `Cells.release`.
* `Cells.Linked`: the memory holds a list up to an address.
* `Cells.Layout`: the memory is laid out in a family of lists.

## Main results

* `Cells.linked_append`: a list that is put together of two.
* `Cells.Linked.relink`: the end of a list is exchanged behind one of its items.
* `Cells.Linked.insert`, `Cells.Linked.concat`, `Cells.Linked.unlink`: items are put into a list
  and taken out.
* `Cells.Layout.update`: one of the lists is changed.
* `Cells.Layout.move`: a list is taken over by another place.
-/

namespace Libble

universe u v

/-- A cell of a linked list. -/
structure Cell (α : Type u) where
  data : α
  next : Option Nat

/-- A memory: the cells that are allocated, by their addresses. -/
abbrev Cells (α : Type u) := Nat → Option (Cell α)

namespace Cells

variable {α : Type u} {ι : Type v}

/-- The addresses of the cells of a list. -/
abbrev addrs (l : List (Nat × α)) : List Nat := l.map Prod.fst

theorem addrs_cons (i : Nat × α) (l : List (Nat × α)) : addrs (i :: l) = i.1 :: addrs l := rfl

theorem addrs_append (l r : List (Nat × α)) : addrs (l ++ r) = addrs l ++ addrs r :=
  List.map_append

/-- The address of the first cell. -/
def first (l : List (Nat × α)) : Option Nat := l.head?.map Prod.fst

/-- The address of the last cell. -/
def final (l : List (Nat × α)) : Option Nat := l.getLast?.map Prod.fst

@[simp] theorem first_nil : first ([] : List (Nat × α)) = none := rfl

@[simp] theorem first_cons (i : Nat × α) (l : List (Nat × α)) : first (i :: l) = some i.1 := rfl

@[simp] theorem final_nil : final ([] : List (Nat × α)) = none := rfl

@[simp] theorem final_concat (l : List (Nat × α)) (i : Nat × α) :
    final (l ++ [i]) = some i.1 := by
  simp [final]

theorem first_append (l r : List (Nat × α)) : first (l ++ r) = (first l).or (first r) := by
  cases l <;> simp [first]

theorem final_append_cons (l : List (Nat × α)) (i : Nat × α) (r : List (Nat × α)) :
    final (l ++ i :: r) = final (i :: r) := by
  simp [final, List.getLast?_append, List.getLast?_cons]

theorem final_cons (i : Nat × α) (r : List (Nat × α)) :
    final (i :: r) = (final r).or (some i.1) := by
  cases h : r.getLast? <;> simp [final, List.getLast?_cons, h]

theorem first_eq_none {l : List (Nat × α)} : first l = none ↔ l = [] := by
  cases l <;> simp [first]

theorem final_eq_none {l : List (Nat × α)} : final l = none ↔ l = [] := by
  simp [final]

/-! ### Changing a memory -/

/-- A cell is allocated. -/
def alloc (m : Cells α) (a : Nat) (c : Cell α) : Cells α := Function.update m a (some c)

/-- A cell is released. -/
def release (m : Cells α) (a : Nat) : Cells α := Function.update m a none

/-- The address of the next cell is written into a cell, which must be there. -/
def setNext (m : Cells α) (a : Nat) (next : Option Nat) : Option (Cells α) :=
  (m a).map fun c => m.alloc a { c with next := next }

@[simp] theorem alloc_self (m : Cells α) (a : Nat) (c : Cell α) : m.alloc a c a = some c :=
  Function.update_self ..

theorem alloc_of_ne (m : Cells α) {a b : Nat} (h : b ≠ a) (c : Cell α) : m.alloc a c b = m b :=
  Function.update_of_ne h ..

@[simp] theorem release_self (m : Cells α) (a : Nat) : m.release a a = none :=
  Function.update_self ..

theorem release_of_ne (m : Cells α) {a b : Nat} (h : b ≠ a) : m.release a b = m b :=
  Function.update_of_ne h ..

theorem setNext_eq {m : Cells α} {a : Nat} {c : Cell α} (h : m a = some c) (next : Option Nat) :
    m.setNext a next = some (m.alloc a { c with next := next }) := by
  rw [setNext, h]
  rfl

/-! ### Lists -/

/-- The memory holds the list; the last cell refers to the address at the end. -/
def Linked (m : Cells α) (stop : Option Nat) : List (Nat × α) → Prop
  | [] => True
  | i :: l => m i.1 = some ⟨i.2, (first l).or stop⟩ ∧ Linked m stop l

variable {m m' : Cells α} {stop : Option Nat} {l r r' : List (Nat × α)} {i : Nat × α}

@[simp] theorem linked_nil : Linked m stop ([] : List (Nat × α)) := trivial

theorem linked_cons : Linked m stop (i :: l) ↔
    m i.1 = some ⟨i.2, (first l).or stop⟩ ∧ Linked m stop l :=
  Iff.rfl

theorem linked_append : Linked m stop (l ++ r) ↔
    Linked m ((first r).or stop) l ∧ Linked m stop r := by
  induction l with
  | nil => simp
  | cons i l ih =>
    rw [List.cons_append, linked_cons, linked_cons, ih, first_append, Option.or_assoc, and_assoc]

/-- A list depends on its own cells only. -/
theorem Linked.congr (h : Linked m stop l) (same : ∀ a ∈ addrs l, m' a = m a) :
    Linked m' stop l := by
  induction l with
  | nil => trivial
  | cons i l ih =>
    refine ⟨(same i.1 (by simp)).trans h.1, ih h.2 fun a ha => same a ?_⟩
    exact List.mem_cons_of_mem _ ha

/-- The cells of a list are allocated. -/
theorem Linked.exists_cell (h : Linked m stop l) {a : Nat} (ha : a ∈ addrs l) :
    ∃ c, m a = some c := by
  induction l with
  | nil => cases ha
  | cons i l ih =>
    rcases List.mem_cons.mp ha with rfl | ha
    · exact ⟨_, h.1⟩
    · exact ih h.2 ha

/-- Behind an item another list follows: all that has to be written is the cell of the item. -/
theorem Linked.relink (h : Linked m stop (l ++ i :: r)) (same : ∀ a ∈ addrs l, m' a = m a)
    (cell : m' i.1 = some ⟨i.2, (first r').or stop⟩) (new : Linked m' stop r') :
    Linked m' stop (l ++ i :: r') := by
  have front : Linked m (some i.1) l := (linked_append.mp h).1
  exact linked_append.mpr ⟨front.congr same, cell, new⟩

/-- An item is put behind another one. -/
theorem Linked.insert (h : Linked m stop (l ++ i :: r)) (nodup : (addrs (l ++ i :: r)).Nodup)
    {a : Nat} (ha : a ∉ addrs (l ++ i :: r)) (x : α) :
    ∃ m', (m.alloc a ⟨x, (first r).or stop⟩).setNext i.1 (some a) = some m' ∧
      Linked m' stop (l ++ i :: (a, x) :: r) ∧
        ∀ b, b ∉ addrs (l ++ i :: r) → b ≠ a → m' b = m b := by
  simp only [List.map_append, List.map_cons, List.mem_append, List.mem_cons, not_or] at ha
  obtain ⟨hal, hai, har⟩ := ha
  have hcell := (linked_append.mp h).2.1
  have hnodup : i.1 ∉ addrs l ∧ i.1 ∉ addrs r := by
    simp only [List.map_append, List.map_cons, List.nodup_append, List.nodup_cons] at nodup
    exact ⟨fun hmem => nodup.2.2 _ hmem _ List.mem_cons_self rfl, nodup.2.1.1⟩
  refine ⟨_, setNext_eq ((alloc_of_ne m (Ne.symm hai) _).trans hcell) _, ?_, fun b hb hne => ?_⟩
  · refine h.relink (fun b hb => ?_) (alloc_self ..) ⟨?_, ?_⟩
    · rw [alloc_of_ne _ (ne_of_mem_of_not_mem hb hnodup.1),
        alloc_of_ne _ (ne_of_mem_of_not_mem hb hal)]
    · rw [alloc_of_ne _ hai, alloc_self]
    · refine (linked_append.mp h).2.2.congr fun b hb => ?_
      rw [alloc_of_ne _ (ne_of_mem_of_not_mem hb hnodup.2),
        alloc_of_ne _ (ne_of_mem_of_not_mem hb har)]
  · have hbi : b ≠ i.1 := by
      rintro rfl
      exact hb (by simp)
    rw [alloc_of_ne _ hbi, alloc_of_ne _ hne]

/-- An item is put at the end. -/
theorem Linked.concat (h : Linked m none l) (nodup : (addrs l).Nodup) {a : Nat}
    (ha : a ∉ addrs l) (x : α) :
    ∃ m', (match final l with
        | some last => (m.alloc a ⟨x, none⟩).setNext last (some a)
        | none => some (m.alloc a ⟨x, none⟩)) = some m' ∧
      Linked m' none (l ++ [(a, x)]) ∧ ∀ b, b ∉ addrs l → b ≠ a → m' b = m b := by
  rcases List.eq_nil_or_concat' l with rfl | ⟨l, i, rfl⟩
  · exact ⟨_, rfl, ⟨alloc_self .., trivial⟩, fun b _ hne => alloc_of_ne m hne _⟩
  · rw [final_concat]
    obtain ⟨m', hm', linked, same⟩ := h.insert nodup ha x
    refine ⟨m', hm', ?_, same⟩
    rwa [List.append_assoc]

/-- An item is taken out: the cell before it, if there is one, is written. -/
theorem Linked.unlink (h : Linked m stop (l ++ i :: r)) (nodup : (addrs (l ++ i :: r)).Nodup) :
    ∃ m', (match final l with
        | some b => m.setNext b ((first r).or stop)
        | none => some m) = some m' ∧
      Linked (m'.release i.1) stop (l ++ r) ∧ ∀ b, b ∉ addrs l → m' b = m b := by
  have hnodup : i.1 ∉ addrs l ∧ i.1 ∉ addrs r := by
    simp only [List.map_append, List.map_cons, List.nodup_append, List.nodup_cons] at nodup
    exact ⟨fun hmem => nodup.2.2 _ hmem _ List.mem_cons_self rfl, nodup.2.1.1⟩
  have rest : Linked (m.release i.1) stop r :=
    (linked_append.mp h).2.2.congr fun b hb => release_of_ne m (ne_of_mem_of_not_mem hb hnodup.2)
  rcases List.eq_nil_or_concat' l with rfl | ⟨l, j, rfl⟩
  · exact ⟨m, rfl, rest, fun _ _ => rfl⟩
  · rw [final_concat]
    rw [List.append_assoc] at h nodup
    have hcell := (linked_append.mp h).2.1
    have hj : j.1 ≠ i.1 ∧ j.1 ∉ addrs l ∧ j.1 ∉ addrs r := by
      simp only [List.map_append, List.map_cons, List.nodup_append, List.nodup_cons,
        List.cons_append, List.nil_append, List.mem_cons, not_or] at nodup
      exact ⟨nodup.2.1.1.1, fun hmem => nodup.2.2 _ hmem _ (.inl rfl) rfl, nodup.2.1.1.2⟩
    refine ⟨_, setNext_eq hcell _, ?_, fun b hb => alloc_of_ne m ?_ _⟩
    · rw [List.append_assoc]
      refine h.relink (fun b hb => ?_) ?_ ?_
      · have hbi : b ≠ i.1 := by
          rintro rfl
          exact hnodup.1 (by simp [hb])
        rw [release_of_ne _ hbi, alloc_of_ne _ (ne_of_mem_of_not_mem hb hj.2.1)]
      · rw [release_of_ne _ hj.1, alloc_self]
        rfl
      · refine rest.congr fun b hb => ?_
        have hbi : b ≠ i.1 := ne_of_mem_of_not_mem hb hnodup.2
        rw [release_of_ne _ hbi, release_of_ne _ hbi,
          alloc_of_ne _ (ne_of_mem_of_not_mem hb hj.2.2)]
    · rintro rfl
      exact hb (by simp)

/-! ### Layouts -/

/-- The memory consists of the lists of a family. -/
structure Layout (m : Cells α) (lists : ι → List (Nat × α)) : Prop where
  /-- Every list is held. -/
  linked : ∀ p, Linked m none (lists p)
  /-- The items of a list have cells of their own. -/
  nodup : ∀ p, (addrs (lists p)).Nodup
  /-- So have the lists. -/
  disjoint : ∀ p q, p ≠ q → (addrs (lists p)).Disjoint (addrs (lists q))
  /-- There are no other cells. -/
  covered : ∀ a c, m a = some c → ∃ p, a ∈ addrs (lists p)

/-- A memory without cells. -/
theorem Layout.empty : Layout (fun _ => none : Cells α) (fun _ : ι => []) :=
  ⟨fun _ => trivial, fun _ => List.nodup_nil, fun _ _ _ => List.disjoint_nil_left _,
    fun _ _ h => nomatch h⟩

namespace Layout

variable {lists : ι → List (Nat × α)} {p q : ι}

/-- A cell that is not allocated belongs to no list. -/
theorem notMem (h : Layout m lists) {a : Nat} (ha : m a = none) (p : ι) :
    a ∉ addrs (lists p) := fun hmem => by
  obtain ⟨c, hc⟩ := (h.linked p).exists_cell hmem
  exact absurd (ha.symm.trans hc) (by simp)

/-- The places are named anew. -/
theorem comp {κ : Type v} (h : Layout m lists) (e : κ ≃ ι) : Layout m (lists ∘ e) := by
  refine ⟨fun s => h.linked (e s), fun s => h.nodup (e s), fun s t hst => ?_, fun a c hc => ?_⟩
  · exact h.disjoint _ _ fun heq => hst (e.injective heq)
  · obtain ⟨s, hs⟩ := h.covered a c hc
    refine ⟨e.symm s, ?_⟩
    rwa [Function.comp_apply, e.apply_symm_apply]

variable [DecidableEq ι]

/-- **One list is changed.** The cells that it gets are its own or were free, the cells that it
loses are released, and no other cell changes. -/
theorem update (h : Layout m lists) (linked : Linked m' none r) (nodup : (addrs r).Nodup)
    (same : ∀ a, a ∉ addrs (lists p) → a ∉ addrs r → m' a = m a)
    (fresh : ∀ a ∈ addrs r, a ∈ addrs (lists p) ∨ m a = none)
    (released : ∀ a ∈ addrs (lists p), a ∉ addrs r → m' a = none) :
    Layout m' (Function.update lists p r) := by
  -- what the list has now belongs to no other list
  have apart : ∀ q, q ≠ p → ∀ a ∈ addrs (lists q), a ∉ addrs (lists p) ∧ a ∉ addrs r := by
    intro q hq a ha
    have hp : a ∉ addrs (lists p) := h.disjoint q p hq ha
    refine ⟨hp, fun hr => ?_⟩
    rcases fresh a hr with own | free
    · exact hp own
    · exact h.notMem free q ha
  have other : ∀ {q}, q ≠ p → Function.update lists p r q = lists q :=
    fun hq => Function.update_of_ne hq ..
  have own : Function.update lists p r p = r := Function.update_self ..
  refine ⟨fun q => ?_, fun q => ?_, fun q s hqs => ?_, fun a c hc => ?_⟩
  · by_cases hq : q = p
    · subst hq
      rwa [own]
    · rw [other hq]
      exact (h.linked q).congr fun a ha => same a (apart q hq a ha).1 (apart q hq a ha).2
  · by_cases hq : q = p
    · subst hq
      rwa [own]
    · rw [other hq]
      exact h.nodup q
  · by_cases hq : q = p
    · subst hq
      rw [own, other hqs.symm]
      exact fun a ha hs => (apart s hqs.symm a hs).2 ha
    · rw [other hq]
      by_cases hs : s = p
      · subst hs
        rw [own]
        exact fun a ha hr => (apart q hq a ha).2 hr
      · rw [other hs]
        exact h.disjoint q s hqs
  · by_cases hr : a ∈ addrs r
    · exact ⟨p, by rwa [own]⟩
    · by_cases hp : a ∈ addrs (lists p)
      · exact absurd ((released a hp hr).symm.trans hc) (by simp)
      · obtain ⟨q, hq⟩ := h.covered a c ((same a hp hr).symm.trans hc)
        have hne : q ≠ p := by
          rintro rfl
          exact hp hq
        exact ⟨q, by rwa [other hne]⟩

/-- **A list is taken over** by a place that had none. -/
theorem move (h : Layout m lists) (hpq : p ≠ q) (none : lists q = []) :
    Layout m (Function.update (Function.update lists p []) q (lists p)) := by
  have swapped : Function.update (Function.update lists p []) q (lists p) =
      lists ∘ Equiv.swap p q := by
    funext s
    by_cases hq : s = q
    · subst hq
      rw [Function.update_self, Function.comp_apply, Equiv.swap_apply_right]
    · rw [Function.update_of_ne hq, Function.comp_apply]
      by_cases hp : s = p
      · subst hp
        rw [Function.update_self, Equiv.swap_apply_left, none]
      · rw [Function.update_of_ne hp, Equiv.swap_apply_of_ne_of_ne hp hq]
  rw [swapped]
  exact h.comp (Equiv.swap p q)

end Layout

end Cells

end Libble

import Mathlib

/-!
# Tables that are searched by first match

A small table is often kept as a list that is searched from its beginning, and changed in place
where the search ends. This file says what such an update does when at most one row matches, and
what it leaves alone.

## Main definitions

* `updateFirst`: change the first row that matches.

## Main results

* `updateFirst_eq_map`: if at most one row matches, the update is a map.
* `map_updateFirst`, `mem_updateFirst`: what the update does not change.
* `find?_eq_some_of_unique`: the only row that matches is found.
-/

namespace Libble

universe u v

variable {α : Type u} {β : Type v}

/-- Change the first row that matches. -/
def updateFirst (p : α → Bool) (f : α → α) (l : List α) : List α :=
  l.replaceF fun a => if p a then some (f a) else none

section Update

variable {p : α → Bool} {f : α → α} {a : α} {l : List α}

@[simp] theorem updateFirst_nil : updateFirst p f [] = [] := rfl

theorem updateFirst_cons_pos (h : p a = true) : updateFirst p f (a :: l) = f a :: l :=
  List.replaceF_cons_of_some _ (if_pos h)

theorem updateFirst_cons_neg (h : p a = false) :
    updateFirst p f (a :: l) = a :: updateFirst p f l :=
  List.replaceF_cons_of_none _ (by rw [h]; rfl)

/-- If at most one row matches, every row that matches is changed. -/
theorem updateFirst_eq_map (h : l.Pairwise fun a b => ¬ (p a = true ∧ p b = true)) :
    updateFirst p f l = l.map fun a => if p a then f a else a := by
  induction l with
  | nil => rfl
  | cons a l ih =>
    obtain ⟨ha, hl⟩ := List.pairwise_cons.mp h
    cases hp : p a with
    | true =>
      have hrest : l.map (fun b => if p b then f b else b) = l := by
        refine (List.map_congr_left fun b hb => ?_).trans (List.map_id l)
        exact if_neg fun hpb => ha b hb ⟨hp, hpb⟩
      rw [updateFirst_cons_pos hp, List.map_cons, hrest, hp]
      rfl
    | false =>
      rw [updateFirst_cons_neg hp, ih hl, List.map_cons, hp]
      rfl

/-- What the change of a row that matches does not change. -/
theorem map_updateFirst {g : α → β} (h : ∀ a, p a = true → g (f a) = g a) :
    (updateFirst p f l).map g = l.map g := by
  induction l with
  | nil => rfl
  | cons a l ih =>
    cases hp : p a with
    | true => rw [updateFirst_cons_pos hp, List.map_cons, List.map_cons, h a hp]
    | false => rw [updateFirst_cons_neg hp, List.map_cons, List.map_cons, ih]

/-- A row of the changed table was there before, or is the one that was changed. -/
theorem mem_updateFirst {b : α} (h : b ∈ updateFirst p f l) :
    b ∈ l ∨ ∃ a ∈ l, p a = true ∧ b = f a := by
  induction l with
  | nil => exact .inl h
  | cons a l ih =>
    cases hp : p a with
    | true =>
      rw [updateFirst_cons_pos hp, List.mem_cons] at h
      rcases h with rfl | h
      · exact .inr ⟨a, List.mem_cons_self, hp, rfl⟩
      · exact .inl (List.mem_cons_of_mem _ h)
    | false =>
      rw [updateFirst_cons_neg hp, List.mem_cons] at h
      rcases h with rfl | h
      · exact .inl List.mem_cons_self
      · rcases ih h with h | ⟨a', ha', hp', rfl⟩
        · exact .inl (List.mem_cons_of_mem _ h)
        · exact .inr ⟨a', List.mem_cons_of_mem _ ha', hp', rfl⟩

/-- A change that changes no row that matches. -/
theorem updateFirst_eq_self (h : ∀ a ∈ l, p a = true → f a = a) : updateFirst p f l = l := by
  induction l with
  | nil => rfl
  | cons a l ih =>
    rw [List.forall_mem_cons] at h
    cases hp : p a with
    | true => rw [updateFirst_cons_pos hp, h.1 hp]
    | false => rw [updateFirst_cons_neg hp, ih h.2]

end Update

/-- The only row that matches is found. -/
theorem find?_eq_some_of_unique {p : α → Bool} {a : α} {l : List α} (ha : a ∈ l) (hp : p a = true)
    (unique : ∀ b ∈ l, p b = true → b = a) : l.find? p = some a := by
  cases hfind : l.find? p with
  | none => exact absurd hp (List.find?_eq_none.mp hfind a ha)
  | some b => rw [unique b (List.mem_of_find?_eq_some hfind) (List.find?_some hfind)]

end Libble

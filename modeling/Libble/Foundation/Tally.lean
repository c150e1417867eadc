import Mathlib

/-!
# Tallies

A tally adds up what the elements of a list count for. Invariants about references, tokens and
other things that are moved between several lists are equations between tallies; a step that moves
something changes two summands, and linear arithmetic does the rest.

## Main definitions

* `tally`: the sum of a weight over a list; `isOne`: the weight of one value.

## Main results

* `tally_cons`, `tally_append`, `tally_map`, `tally_flatMap`, `tally_erase`: tallies under list
  operations.
* `tally_pos_of_mem`, `mem_of_tally_pos`, `tally_eq_zero`: tallies and membership.
-/

namespace Libble

universe u v

variable {α : Type u} {β : Type v} (f g : α → Nat)

/-- The sum of the weights of the elements of a list. -/
def tally (l : List α) : Nat := (l.map f).sum

/-- The weight that counts the occurrences of one value. -/
def isOne [DecidableEq α] (a b : α) : Nat := if b = a then 1 else 0

@[simp] theorem isOne_self [DecidableEq α] (a : α) : isOne a a = 1 := if_pos rfl

@[simp] theorem tally_nil : tally f [] = 0 := rfl

@[simp] theorem tally_cons (a : α) (l : List α) : tally f (a :: l) = f a + tally f l := rfl

@[simp] theorem tally_append (l m : List α) : tally f (l ++ m) = tally f l + tally f m := by
  simp only [tally, List.map_append, List.sum_append]

theorem tally_map (h : β → α) (l : List β) : tally f (l.map h) = tally (f ∘ h) l := by
  simp only [tally, List.map_map]

theorem tally_flatMap (h : β → List α) (l : List β) :
    tally f (l.flatMap h) = tally (fun b => tally f (h b)) l := by
  induction l with
  | nil => rfl
  | cons b l ih => rw [List.flatMap_cons, tally_append, tally_cons, ih]

variable {f g} {l : List α} {a : α}

theorem tally_erase [DecidableEq α] (h : a ∈ l) : f a + tally f (l.erase a) = tally f l :=
  List.sum_map_erase f h

theorem tally_congr (h : ∀ b ∈ l, f b = g b) : tally f l = tally g l := by
  rw [tally, tally, List.map_congr_left h]

theorem tally_eq_zero (h : ∀ b ∈ l, f b = 0) : tally f l = 0 := by
  induction l with
  | nil => rfl
  | cons b l ih =>
    rw [List.forall_mem_cons] at h
    rw [tally_cons, h.1, ih h.2]

theorem le_tally_of_mem (h : a ∈ l) : f a ≤ tally f l := by
  induction l with
  | nil => cases h
  | cons b l ih =>
    rw [tally_cons]
    rcases List.mem_cons.mp h with rfl | h
    · omega
    · have := ih h
      omega

theorem exists_mem_of_tally_pos (h : 0 < tally f l) : ∃ b ∈ l, 0 < f b := by
  by_contra hne
  have : tally f l = 0 := tally_eq_zero fun b hb =>
    Nat.eq_zero_of_not_pos fun hpos => hne ⟨b, hb, hpos⟩
  omega

theorem mem_of_tally_isOne_pos [DecidableEq α] (h : 0 < tally (isOne a) l) : a ∈ l := by
  obtain ⟨b, hb, hpos⟩ := exists_mem_of_tally_pos h
  by_cases heq : b = a
  · exact heq ▸ hb
  · simp [isOne, heq] at hpos

/-- A weight that is no larger everywhere has a tally that is no larger. -/
theorem tally_mono (h : ∀ b ∈ l, f b ≤ g b) : tally f l ≤ tally g l := by
  induction l with
  | nil => exact Nat.le_refl 0
  | cons b l ih =>
    rw [List.forall_mem_cons] at h
    rw [tally_cons, tally_cons]
    exact Nat.add_le_add h.1 (ih h.2)

end Libble

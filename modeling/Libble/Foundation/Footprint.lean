import Mathlib

/-!
# Reading with a footprint

A parser over a buffer of bytes is correct only if it reads nothing outside the buffer, which its
result does not show. A `Reading` is a computation on a buffer that comes with its footprint: the
indices that it has read, in order. Readings compose as a monad, and a bound on a composed
footprint splits into bounds on the footprints of the parts.

## Main definitions

* `Reading`, `Reading.at`, `Reading.forEach`, `Reading.slice`: readings and how they are built.
* `Reading.Within`: the footprint lies below a bound.

## Main results

* `Reading.within_bind`, `Reading.within_forEach`: the footprints of composed readings.
-/

namespace Libble

universe u v w

/-- A computation on a buffer, with the indices that it reads. -/
def Reading (β : Type u) (α : Type v) : Type (max u v) := List β → α × List Nat

namespace Reading

variable {β : Type u} {α γ : Type v} {ι : Type w}

/-- What the computation returns. -/
def result (r : Reading β α) (buf : List β) : α := (r buf).1

/-- What it reads. -/
def footprint (r : Reading β α) (buf : List β) : List Nat := (r buf).2

instance : Monad (Reading β) where
  pure a := fun _ => (a, [])
  bind r f := fun buf => ((f (r.result buf)).result buf,
    r.footprint buf ++ (f (r.result buf)).footprint buf)

/-- The entry at an index, `d` behind the end of the buffer. -/
def «at» (d : β) (i : Nat) : Reading β β := fun buf => (buf.getD i d, [i])

/-- One reading after the other. -/
def forEach (indices : List ι) (f : ι → Reading β α) : Reading β (List α) :=
  fun buf => (indices.map fun i => (f i).result buf, indices.flatMap fun i => (f i).footprint buf)

/-- The `n` entries from an offset on. -/
def slice (d : β) (offset n : Nat) : Reading β (List β) :=
  forEach (List.range n) fun i => «at» d (offset + i)

variable (buf : List β)

@[simp] theorem result_pure (a : α) : (pure a : Reading β α).result buf = a := rfl

@[simp] theorem result_bind (r : Reading β α) (f : α → Reading β γ) :
    (r >>= f).result buf = (f (r.result buf)).result buf := rfl

@[simp] theorem result_at (d : β) (i : Nat) : («at» d i).result buf = buf.getD i d := rfl

@[simp] theorem result_forEach (indices : List ι) (f : ι → Reading β α) :
    (forEach indices f).result buf = indices.map fun i => (f i).result buf := rfl

@[simp] theorem result_slice (d : β) (offset n : Nat) :
    (slice d offset n).result buf = (List.range n).map fun i => buf.getD (offset + i) d := rfl

@[simp] theorem result_ite (p : Prop) [Decidable p] (r r' : Reading β α) :
    (if p then r else r').result buf = if p then r.result buf else r'.result buf :=
  apply_ite (fun r => r.result buf) p r r'

/-- Nothing from the bound `n` on is read. -/
def Within (n : Nat) (r : Reading β α) : Prop := ∀ i ∈ r.footprint buf, i < n

instance (n : Nat) (r : Reading β α) : Decidable (Within buf n r) :=
  inferInstanceAs (Decidable (∀ _ ∈ _, _))

variable {buf} {n : Nat}

@[simp] theorem within_pure (a : α) : Within buf n (pure a : Reading β α) := nofun

@[simp] theorem within_bind (r : Reading β α) (f : α → Reading β γ) :
    Within buf n (r >>= f) ↔ Within buf n r ∧ Within buf n (f (r.result buf)) :=
  List.forall_mem_append

@[simp] theorem within_ite (p : Prop) [Decidable p] (r r' : Reading β α) :
    Within buf n (if p then r else r') ↔ if p then Within buf n r else Within buf n r' :=
  iff_of_eq (apply_ite (Within buf n) p r r')

@[simp] theorem within_at (d : β) (i : Nat) : Within buf n («at» d i) ↔ i < n :=
  List.forall_mem_singleton

@[simp] theorem within_forEach (indices : List ι) (f : ι → Reading β α) :
    Within buf n (forEach indices f) ↔ ∀ i ∈ indices, Within buf n (f i) := by
  simp only [Within, footprint, forEach, List.mem_flatMap]
  exact ⟨fun h i hi j hj => h j ⟨i, hi, hj⟩, fun h j ⟨i, hi, hj⟩ => h i hi j hj⟩

/-- A slice that is not empty has to end before the bound. -/
theorem within_slice (d : β) {offset m : Nat} (hm : 0 < m) :
    Within buf n (slice d offset m) ↔ offset + m ≤ n := by
  simp only [slice, within_forEach, List.mem_range, within_at]
  refine ⟨fun h => ?_, fun h i hi => by omega⟩
  have := h (m - 1) (by omega)
  omega

end Reading

end Libble

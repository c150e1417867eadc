import Mathlib

/-!
# Events in blocks

Suspended code is a stack, and some of it delivers an event when it is run. If the code that makes
events is run only when no event waits below it, then the events that wait at a time are all about
one thing, and what is delivered about a thing stands together.

## Main definitions

* `Stacked`: under code that may make events no event waits, and under one that waits only events
  about the same thing.
* `Together`: the events about a thing stand together.

## Main results

* `Stacked.push_mute`, `Stacked.push`: what can be put on the stack.
* `Together.concat_self`, `Together.concat_other`: one event more.
-/

namespace Libble

/-! ### Stacks -/

section Stack

variable {κ σ : Type*} {source : κ → Option σ} {mute : κ → Prop} {code : κ} {codes rest : List κ}

/-- The code `lower` may wait under `code`: it delivers no event, or none can come up before it is
run, or the code delivers one about the same thing. -/
def Allows (source : κ → Option σ) (mute : κ → Prop) (code lower : κ) : Prop :=
  source lower = none ∨ mute code ∨ source lower = source code

/-- Every piece of code allows those that wait under it. -/
def Stacked (source : κ → Option σ) (mute : κ → Prop) (codes : List κ) : Prop :=
  codes.Pairwise (Allows source mute)

theorem stacked_of_sourceless (h : ∀ c ∈ codes, source c = none) : Stacked source mute codes :=
  List.pairwise_of_forall_mem_list fun _ _ lower hlower => .inl (h lower hlower)

namespace Stacked

theorem tail (h : Stacked source mute (code :: rest)) : Stacked source mute rest :=
  (List.pairwise_cons.mp h).2

/-- Code that has no event delivered can be put on every stack. -/
theorem push_mute (h : Stacked source mute rest) (hmute : ∀ c ∈ codes, mute c) :
    Stacked source mute (codes ++ rest) := by
  refine List.pairwise_append.mpr ⟨?_, h, fun c hc _ _ => .inr (.inl (hmute c hc))⟩
  exact List.pairwise_of_forall_mem_list fun c hc _ _ => .inr (.inl (hmute c hc))

/-- Code that makes events can be put where none wait. -/
theorem push (h : Stacked source mute codes) (none : ∀ c ∈ rest, source c = none) :
    Stacked source mute (codes ++ rest) :=
  List.pairwise_append.mpr
    ⟨h, stacked_of_sourceless none, fun _ _ lower hlower => .inl (none lower hlower)⟩

/-- Under code that may make events no event waits. -/
theorem none_below (h : Stacked source mute (code :: rest)) (hsource : source code = none)
    (hmute : ¬ mute code) : ∀ c ∈ rest, source c = none := by
  intro c hc
  rcases (List.pairwise_cons.mp h).1 c hc with heq | heq | heq
  · exact heq
  · exact absurd heq hmute
  · exact heq.trans hsource

/-- Under an event wait only events about the same thing. -/
theorem same_below {x : σ} (h : Stacked source mute (code :: rest)) (hsource : source code = some x)
    (hmute : ¬ mute code) {y : σ} (hne : y ≠ x) : ∀ c ∈ rest, source c ≠ some y := by
  rintro c hc heq
  rcases (List.pairwise_cons.mp h).1 c hc with hnone | hmute' | hsame
  · rw [heq] at hnone
    cases hnone
  · exact hmute hmute'
  · exact hne (Option.some.inj (heq.symm.trans (hsame.trans hsource)))

end Stacked

end Stack

/-! ### Blocks -/

section Block

variable {σ ε : Type*} [DecidableEq σ] {x y : σ} {e : ε} {l : List (σ × ε)} {closed closed' : Prop}

/-- The events of a list about a thing. -/
def eventsAbout (x : σ) (l : List (σ × ε)) : List ε :=
  l.filterMap fun d => if d.1 = x then some d.2 else none

/-- The events about `x` stand together, and nothing comes after them before the block is
closed. -/
def Together (x : σ) (closed : Prop) (l : List (σ × ε)) : Prop :=
  ∃ before after, l = before ++ (eventsAbout x l).map (x, ·) ++ after ∧
    (∀ d ∈ before ++ after, d.1 ≠ x) ∧ (closed ∨ after = [])

theorem eventsAbout_concat_self (l : List (σ × ε)) (x : σ) (e : ε) :
    eventsAbout x (l ++ [(x, e)]) = eventsAbout x l ++ [e] := by
  simp [eventsAbout]

theorem eventsAbout_concat_other (l : List (σ × ε)) (e : ε) (h : y ≠ x) :
    eventsAbout x (l ++ [(y, e)]) = eventsAbout x l := by
  simp [eventsAbout, h]

namespace Together

theorem mono (h : Together x closed l) (imp : closed → closed') : Together x closed' l := by
  obtain ⟨before, after, heq, hother, hclosed⟩ := h
  exact ⟨before, after, heq, hother, hclosed.imp_left imp⟩

/-- No event is about the thing. -/
theorem of_none (closed : Prop) (h : eventsAbout x l = []) : Together x closed l := by
  refine ⟨l, [], by simp [h], fun d hd => ?_, .inr rfl⟩
  rw [List.append_nil] at hd
  have hnone := List.filterMap_eq_nil_iff.mp h d hd
  intro heq
  rw [if_pos heq] at hnone
  cases hnone

/-- One event more about the thing, before the block is closed. -/
theorem concat_self (h : Together x closed l) (isOpen : ¬ closed) (e : ε) (closed' : Prop) :
    Together x closed' (l ++ [(x, e)]) := by
  obtain ⟨before, after, heq, hother, hclosed⟩ := h
  obtain rfl := hclosed.resolve_left isOpen
  refine ⟨before, [], ?_, hother, .inr rfl⟩
  rw [List.append_nil] at heq
  rw [eventsAbout_concat_self, List.map_append, List.append_nil, ← List.append_assoc, ← heq]
  rfl

/-- One event about something else, after the block is closed. -/
theorem concat_other (h : Together x closed l) (hclosed : closed) (e : ε) (hne : y ≠ x) :
    Together x closed (l ++ [(y, e)]) := by
  obtain ⟨before, after, heq, hother, -⟩ := h
  refine ⟨before, after ++ [(y, e)], ?_, ?_, .inl hclosed⟩
  · rw [eventsAbout_concat_other l e hne, ← List.append_assoc, ← heq]
  · rw [← List.append_assoc]
    exact List.forall_mem_append.mpr ⟨hother, List.forall_mem_singleton.mpr hne⟩

end Together

end Block

end Libble

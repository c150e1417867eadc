import Mathlib

/-!
# Labelled machines and guarded runs

A labelled machine is a partial step function: in a state `s` the label `l` is either refused or
leads to exactly one next state. All nondeterminism of a modelled system (what a caller asks for,
what a peer sends, which callback a main loop dispatches) is in the labels, so the machine itself
stays executable.

A *guarded run* is a run all of whose steps meet a guard on the state before the step and its
label. Guards state the assumptions on an environment or on a caller; the run with the guard
`fun _ _ => True` is the unrestricted one.

## Main definitions

* `LabelledMachine`, `LabelledMachine.Run`, `LabelledMachine.execGuarded`.
* `LabelledMachine.Simulation`: a relation under which every guarded step of one machine is
  matched by a guarded run of another one.

## Main results

* `LabelledMachine.Run.invariant`: the induction rule for invariants of guarded runs.
* `LabelledMachine.Run.trans`, `LabelledMachine.Run.mono`, `LabelledMachine.run_of_execGuarded`.
* `LabelledMachine.Run.concat_iff`, `LabelledMachine.Run.unique`.
* `LabelledMachine.Simulation.run`: simulations transport whole runs.
-/

namespace Libble

universe u v w x

/-- A machine with states `σ` and labels `ℓ`: `step s l` is the state after the step `l`, or
`none` when `l` is not possible in `s`. -/
structure LabelledMachine (σ : Type u) (ℓ : Type v) where
  /-- The state after a step, if the step is possible. -/
  step : σ → ℓ → Option σ

namespace LabelledMachine

variable {σ : Type u} {ℓ : Type v} (M : LabelledMachine σ ℓ)

/-- `M.Run ok s ls t`: the labels `ls` lead from `s` to `t`, and every one of them meets the guard
`ok` in the state in which it is taken. -/
inductive Run (ok : σ → ℓ → Prop) (s : σ) : List ℓ → σ → Prop
  | nil : Run ok s [] s
  | snoc {ls : List ℓ} {t u : σ} {l : ℓ} (run : Run ok s ls t) (guard : ok t l)
      (step : M.step t l = some u) : Run ok s (ls ++ [l]) u

namespace Run

variable {M} {ok ok' : σ → ℓ → Prop} {s t u : σ} {ls ls' : List ℓ}

/-- **Invariants of guarded runs.** A property of the first state that every guarded step
preserves holds in every state of every guarded run. -/
theorem invariant {P : σ → Prop} (run : M.Run ok s ls t) (start : P s)
    (preserved : ∀ {a l b}, P a → ok a l → M.step a l = some b → P b) : P t := by
  induction run with
  | nil => exact start
  | snoc _ guard step ih => exact preserved ih guard step

/-- A run of one step. -/
theorem single {l : ℓ} (guard : ok s l) (step : M.step s l = some t) : M.Run ok s [l] t :=
  show M.Run ok s ([] ++ [l]) t from .snoc .nil guard step

/-- Runs compose. -/
theorem trans (first : M.Run ok s ls t) (second : M.Run ok t ls' u) :
    M.Run ok s (ls ++ ls') u := by
  induction second with
  | nil => simpa using first
  | snoc _ guard step ih =>
    rw [← List.append_assoc]
    exact .snoc ih guard step

/-- A run under a guard is a run under every weaker guard. -/
theorem mono (run : M.Run ok s ls t) (weaker : ∀ {a l}, ok a l → ok' a l) : M.Run ok' s ls t := by
  induction run with
  | nil => exact .nil
  | snoc _ guard step ih => exact .snoc ih (weaker guard) step

/-- A guard that holds in every state satisfying an invariant may be assumed along the run. -/
theorem strengthen {P : σ → Prop} (run : M.Run ok s ls t) (start : P s)
    (preserved : ∀ {a l b}, P a → ok a l → M.step a l = some b → P b) :
    M.Run (fun a l => P a ∧ ok a l) s ls t := by
  induction run with
  | nil => exact .nil
  | snoc run guard step ih => exact .snoc ih ⟨run.invariant start preserved, guard⟩ step

/-- The last step of a run. -/
theorem concat_iff {l : ℓ} : M.Run ok s (ls ++ [l]) u ↔
    ∃ t, M.Run ok s ls t ∧ ok t l ∧ M.step t l = some u := by
  refine ⟨fun run => ?_, fun ⟨t, run, guard, step⟩ => .snoc run guard step⟩
  generalize hconcat : ls ++ [l] = labels at run
  cases run with
  | nil => exact absurd hconcat (List.append_ne_nil_of_right_ne_nil _ (List.cons_ne_nil _ _))
  | snoc run guard step =>
    obtain ⟨rfl, hl⟩ := List.append_inj' hconcat rfl
    obtain rfl := List.singleton_inj.mp hl
    exact ⟨_, run, guard, step⟩

/-- Where a run leads to is determined by its labels. -/
theorem unique (run : M.Run ok s ls t) (run' : M.Run ok' s ls u) : t = u := by
  induction run generalizing u with
  | nil =>
    generalize hnil : ([] : List ℓ) = labels at run'
    cases run' with
    | nil => rfl
    | snoc => exact absurd hnil.symm (List.append_ne_nil_of_right_ne_nil _ (List.cons_ne_nil _ _))
  | snoc _ _ step ih =>
    obtain ⟨t', run', -, step'⟩ := concat_iff.mp run'
    obtain rfl := ih run'
    exact Option.some.inj (step.symm.trans step')

end Run

/-- Take the labels of a list one after another as long as they meet the guard. -/
def execGuarded (ok : σ → ℓ → Prop) [∀ s l, Decidable (ok s l)] : σ → List ℓ → Option σ
  | s, [] => some s
  | s, l :: ls => if ok s l then (M.step s l).bind fun t => execGuarded ok t ls else none

/-- What a guarded execution reaches is reached by a guarded run. -/
theorem run_of_execGuarded {ok : σ → ℓ → Prop} [∀ s l, Decidable (ok s l)] {s t : σ} :
    ∀ {ls : List ℓ}, M.execGuarded ok s ls = some t → M.Run ok s ls t
  | [], h => by
    obtain rfl : s = t := Option.some.inj h
    exact .nil
  | l :: ls, h => by
    simp only [execGuarded] at h
    split_ifs at h with guard
    obtain ⟨a, step, rest⟩ := Option.bind_eq_some_iff.mp h
    exact (Run.single guard step).trans (run_of_execGuarded rest)

section Simulation

variable {τ : Type w} {κ : Type x} (N : LabelledMachine τ κ)

/-- A simulation of `M` by `N`: from related states every guarded step of `M` is matched by a
(possibly empty) guarded run of `N` to related states. -/
structure Simulation (ok : σ → ℓ → Prop) (ok' : τ → κ → Prop) where
  /-- The relation between the states of the two machines. -/
  rel : σ → τ → Prop
  /-- Every guarded step is matched. -/
  matched : ∀ {a l b a'}, rel a a' → ok a l → M.step a l = some b →
    ∃ ls' b', N.Run ok' a' ls' b' ∧ rel b b'

/-- **Simulations transport runs.** -/
theorem Simulation.run {M} {N : LabelledMachine τ κ} {ok : σ → ℓ → Prop} {ok' : τ → κ → Prop}
    (sim : Simulation M N ok ok') {s t : σ} {s' : τ} {ls : List ℓ} (run : M.Run ok s ls t)
    (start : sim.rel s s') : ∃ ls' t', N.Run ok' s' ls' t' ∧ sim.rel t t' := by
  induction run with
  | nil => exact ⟨[], s', .nil, start⟩
  | snoc _ guard step ih =>
    obtain ⟨ls', t', run', related⟩ := ih
    obtain ⟨ls'', u', more, related'⟩ := sim.matched related guard step
    exact ⟨ls' ++ ls'', u', run'.trans more, related'⟩

end Simulation

end LabelledMachine

end Libble

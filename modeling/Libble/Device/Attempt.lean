import Libble.Device.Handle

/-!
# One attempt at a time

A device handle has one field for the channel, while nothing in `lble_connect` and
`lble_disconnect` keeps several attempts from being in flight. This file finds the invariant of
the runs in which an application does not start an attempt while the outcome of another one is
still to be acted upon (`Device.OneAttempt`). It describes the pieces of `lble_connect` and
`connect_cb` that are still to be run, and the fields of the handle, by a phase
(`Device.Phase`); the phases also cover the states in which the event handler runs in the middle
of a function and calls the library again.

## Main definitions

* `Device.work`, `Device.returning`: the suspended pieces of `lble_connect` and `connect_cb`.
* `Device.OneAttempt`: the guard.
* `Device.Phase`, `Device.InPhase`: the invariant.

## Main results

* `Device.InPhase.step`: every guarded step preserves the invariant.
-/

namespace Libble

namespace DevTodo

/-- The pieces of `lble_connect` and `connect_cb` that decide what becomes of an attempt. -/
def isWork : DevTodo → Bool
  | .gattConnect .. | .connectFailed _ | .connectError _ | .connectEstablish .. => true
  | _ => false

/-- The attempt on whose channel a piece of `connect_cb` is about to act. -/
def actsOn : DevTodo → Option Chan
  | .connectError k | .connectEstablish k .. => some k
  | _ => none

/-- The attempt whose `connect_cb` is about to return. -/
def returningOf : DevTodo → Option Chan
  | .connectDone k _ => some k
  | _ => none

end DevTodo

namespace Device

/-- The suspended pieces of `lble_connect` and `connect_cb` that decide what becomes of an
attempt, innermost first. -/
def work (d : Device) : List DevTodo := d.todo.filter DevTodo.isWork

/-- The attempts whose `connect_cb` is still to return, innermost first. -/
def returning (d : Device) : List Chan := d.todo.filterMap DevTodo.returningOf

/-- `lble_connect` is called only when nothing is left to be done about earlier attempts: no
other call of it is still without a channel, every attempt in flight is one whose `connect_cb` is
about to return, and no `connect_cb` is still to act on the handle. -/
def OneAttempt (d : Device) : DevLabel → Prop
  | .call (.connect _) => d.work = [] ∧ d.attempts = d.returning
  | _ => True

instance (d : Device) (l : DevLabel) : Decidable (d.OneAttempt l) := by
  cases l with
  | call call => cases call <;> unfold OneAttempt <;> infer_instance
  | _ => exact .isTrue trivial

/-- The handle holds the channel of the attempt `k`, the newest one. -/
structure Owns (d : Device) (k : Chan) : Prop where
  /-- The handle holds the channel. -/
  iochannel : d.iochannel = some k
  /-- There is no connection. -/
  not_connected : d.connState ≠ .connected
  /-- The channel was not shut down. -/
  open_ : k ∉ d.shut
  /-- No later attempt was started. -/
  newest : d.nextAttempt = k + 1

/-- What the suspended pieces of `lble_connect` and `connect_cb` say about the handle. The index
lists the attempt whose outcome the main loop has still to dispatch. -/
inductive Phase (d : Device) : List Chan → Prop
  /-- Nothing is going on. -/
  | idle (work : d.work = []) (state : d.connState ≠ .connecting) : Phase d []
  /-- `lble_connect` is about to call `gatt_connect`. -/
  | opening (k : Chan) (failure : Option String) (work : d.work = [.gattConnect k failure])
      (state : d.connState ≠ .connected) (unused : k ∉ d.shut) (newest : d.nextAttempt = k + 1) :
      Phase d []
  /-- `gatt_connect` failed and `lble_connect` is about to say so. -/
  | failed (k : Chan) (work : d.work = [.connectFailed k]) (state : d.connState ≠ .connected) :
      Phase d []
  /-- The outcome of the attempt is awaited. -/
  | waiting (k : Chan) (work : d.work = []) (owns : d.Owns k) : Phase d [k]
  /-- `connect_cb` is about to act on the failure of the attempt. -/
  | error (k : Chan) (work : d.work = [.connectError k]) (owns : d.Owns k) : Phase d []
  /-- `connect_cb` is about to make the connection. -/
  | establish (k : Chan) (getFailed : Bool) (imtu cid : UInt16) (attribFails : Bool)
      (work : d.work = [.connectEstablish k getFailed imtu cid attribFails]) (owns : d.Owns k) :
      Phase d []

/-- The invariant: a phase, whose awaited attempt is the only one in flight besides those whose
`connect_cb` is about to return, and channels that were shut down belong to earlier attempts. -/
structure InPhase (d : Device) (awaited : List Chan) : Prop where
  /-- The phase. -/
  phase : d.Phase awaited
  /-- The attempts in flight. -/
  attempts : d.attempts = d.returning ++ awaited
  /-- Only channels of started attempts were shut down. -/
  shut_lt : ∀ k ∈ d.shut, k < d.nextAttempt

/-! ### The fields under `push`, `record` and `emit` -/

section Fields

variable (d : Device) (codes : List DevTodo) (acts : List Act) (event : Event)

@[simp] theorem push_work : (d.push codes).work = codes.filter DevTodo.isWork ++ d.work := by
  simp [push, work]

@[simp] theorem push_returning :
    (d.push codes).returning = codes.filterMap DevTodo.returningOf ++ d.returning := by
  simp [push, returning]

@[simp] theorem record_work : (d.record acts).work = d.work := rfl

@[simp] theorem record_returning : (d.record acts).returning = d.returning := rfl

/-- `emit` changes nothing but the stack and the record. -/
theorem emit_cases : d.emit event = d ∨
    d.emit event = (d.record [.event event]).push [.handler] := by
  unfold emit
  split
  · exact .inr rfl
  · exact .inl rfl

end Fields

variable {d e : Device} {awaited : List Chan}

/-- A phase only depends on the suspended work and on the fields of the handle. -/
theorem Phase.congr (h : d.Phase awaited) (work : e.work = d.work)
    (connState : e.connState = d.connState) (iochannel : e.iochannel = d.iochannel)
    (shut : e.shut = d.shut) (next : e.nextAttempt = d.nextAttempt) : e.Phase awaited := by
  have owns : ∀ {k}, d.Owns k → e.Owns k := fun h =>
    ⟨iochannel ▸ h.iochannel, connState ▸ h.not_connected, shut ▸ h.open_, next ▸ h.newest⟩
  cases h with
  | idle w s => exact .idle (work.trans w) (connState ▸ s)
  | opening k f w s u n => exact .opening k f (work.trans w) (connState ▸ s) (shut ▸ u) (next ▸ n)
  | failed k w s => exact .failed k (work.trans w) (connState ▸ s)
  | waiting k w o => exact .waiting k (work.trans w) (owns o)
  | error k w o => exact .error k (work.trans w) (owns o)
  | establish k g m c a w o => exact .establish k g m c a (work.trans w) (owns o)

/-- The invariant only depends on the suspended pieces and on the fields of the handle. -/
theorem InPhase.congr (h : d.InPhase awaited) (work : e.work = d.work)
    (returning : e.returning = d.returning) (connState : e.connState = d.connState)
    (iochannel : e.iochannel = d.iochannel) (attempts : e.attempts = d.attempts)
    (shut : e.shut = d.shut) (next : e.nextAttempt = d.nextAttempt) : e.InPhase awaited :=
  ⟨h.phase.congr work connState iochannel shut next,
    by rw [attempts, returning, h.attempts], by rw [shut, next]; exact h.shut_lt⟩

/-- `emit` preserves the invariant. -/
theorem InPhase.emit (h : d.InPhase awaited) (event : Event) :
    (d.emit event).InPhase awaited := by
  rcases d.emit_cases event with he | he <;> rw [he]
  · exact h
  · exact h.congr rfl rfl rfl rfl rfl rfl rfl

/-- Code that decides nothing about an attempt preserves the invariant when it is suspended. -/
theorem InPhase.push (h : d.InPhase awaited) {codes : List DevTodo}
    (work : codes.filter DevTodo.isWork = [])
    (returning : codes.filterMap DevTodo.returningOf = []) : (d.push codes).InPhase awaited :=
  h.congr (by simp [work]) (by simp [returning]) rfl rfl rfl rfl rfl

/-! ### The calls -/

theorem inPhase_newdev (evh : Bool) : (newdev evh).InPhase [] :=
  ⟨.idle rfl nofun, rfl, nofun⟩

/-- `lble_connect` preserves the invariant when nothing is left to be done about earlier
attempts. -/
theorem InPhase.lbleConnect (h : d.InPhase awaited) (failure : Option String)
    (hwork : d.work = []) (hattempts : d.attempts = d.returning) :
    (d.lbleConnect failure).InPhase awaited := by
  obtain rfl : awaited = [] := by
    have := h.attempts
    rw [hattempts] at this
    simpa using this
  unfold Device.lbleConnect
  split
  · refine ⟨.opening d.nextAttempt failure ?_ nofun ?_ rfl, ?_, ?_⟩
    · exact congrArg (List.cons _) hwork
    · exact fun hk => absurd (h.shut_lt _ hk) (Nat.lt_irrefl _)
    · exact hattempts.trans (List.append_nil _).symm
    · exact fun k hk => Nat.lt_succ_of_lt (h.shut_lt k hk)
  · exact h

/-- `lble_disconnect` preserves the invariant. -/
theorem InPhase.lbleDisconnect (h : d.InPhase awaited) : d.lbleDisconnect.InPhase awaited := by
  unfold Device.lbleDisconnect
  cases hstate : d.connState with
  | disconnected => exact h
  | connecting =>
    refine ⟨?_, h.attempts, h.shut_lt⟩
    cases h.phase with
    | idle w s => exact .idle w nofun
    | opening k f w s u n => exact .opening k f w nofun u n
    | failed k w s => exact .failed k w nofun
    | waiting k w o => exact .waiting k w ⟨o.iochannel, nofun, o.open_, o.newest⟩
    | error k w o => exact .error k w ⟨o.iochannel, nofun, o.open_, o.newest⟩
    | establish k g m c a w o =>
      exact .establish k g m c a w ⟨o.iochannel, nofun, o.open_, o.newest⟩
  | connected =>
    refine ⟨?_, ?_, h.shut_lt⟩
    · cases h.phase with
      | idle w s =>
        exact .idle w nofun
      | opening k f w s u n => exact absurd hstate s
      | failed k w s => exact absurd hstate s
      | waiting k w o => exact absurd hstate o.not_connected
      | error k w o => exact absurd hstate o.not_connected
      | establish k g m c a w o => exact absurd hstate o.not_connected
    · exact h.attempts

/-! ### The dispatches -/

/-- An attempt whose outcome is dispatched is awaited and owns the channel of the handle. -/
theorem InPhase.owns_of_dispatch (h : d.InPhase awaited) (htodo : d.todo = []) {k : Chan}
    (hk : k ∈ d.attempts) : awaited = [k] ∧ d.Owns k := by
  have hreturning : d.returning = [] := by simp [Device.returning, htodo]
  have hawaited : d.attempts = awaited := by simpa [hreturning] using h.attempts
  cases h.phase with
  | waiting j w o =>
    obtain rfl : k = j := by simpa [hawaited] using hk
    exact ⟨rfl, o⟩
  | idle | opening | failed | error | establish => simp [hawaited] at hk

/-- `connect_cb` preserves the invariant: the attempt is not awaited any more. -/
theorem InPhase.connectCb (h : d.InPhase awaited) (htodo : d.todo = []) {k : Chan}
    (hk : k ∈ d.attempts) (outcome : Outcome) : (d.connectCb k outcome).InPhase [] := by
  obtain ⟨rfl, owns⟩ := h.owns_of_dispatch htodo hk
  have hreturning : d.returning = [] := by rw [Device.returning, htodo]; rfl
  have hwork : d.work = [] := by rw [Device.work, htodo]; rfl
  have hattempts : d.attempts = [k] := by rw [h.attempts, hreturning]; rfl
  -- the outcome of `k` is handled now: its `connect_cb` is about to return
  have handled : d.attempts = k :: d.returning ++ [] := by rw [hattempts, hreturning]; rfl
  simp only [Device.connectCb, owns.open_, if_false]
  cases outcome with
  | error message =>
    exact ⟨.error k (congrArg (List.cons _) hwork)
      ⟨owns.iochannel, owns.not_connected, owns.open_, owns.newest⟩, handled, h.shut_lt⟩
  | success getError imtu cid shutdownError attribFails =>
    dsimp only
    split
    · rename_i hstate
      refine ⟨.idle hwork ?_, handled, ?_⟩
      · simp [Device.push, record, hstate]
      · intro j hj
        have : j ∈ d.shut ∨ j = k := by
          simpa [Device.push, record, owns.iochannel, eq_comm] using hj
        show j < d.nextAttempt
        rcases this with hj | rfl
        · exact h.shut_lt j hj
        · rw [owns.newest]
          exact Nat.lt_succ_self j
    · cases getError with
      | none =>
        exact ⟨.establish k false imtu cid attribFails (congrArg (List.cons _) hwork)
          ⟨owns.iochannel, owns.not_connected, owns.open_, owns.newest⟩, handled, h.shut_lt⟩
      | some message =>
        exact ⟨.establish k true imtu cid attribFails (congrArg (List.cons _) hwork)
          ⟨owns.iochannel, owns.not_connected, owns.open_, owns.newest⟩, handled, h.shut_lt⟩

/-- `channel_watcher` preserves the invariant. -/
theorem InPhase.channelWatcher (h : d.InPhase awaited) (chan : Chan) (cond : GIOCondition) :
    (d.channelWatcher chan cond).InPhase awaited := by
  unfold Device.channelWatcher
  split_ifs
  · exact (h.push rfl rfl).lbleDisconnect
  · exact h.push rfl rfl
  · exact h.push rfl rfl
  · exact h.push rfl rfl

/-! ### The rest of the functions -/

/-- The suspended work when the top of the stack is work. -/
theorem work_cons {code : DevTodo} {todo : List DevTodo} (htodo : d.todo = code :: todo)
    (isWork : code.isWork = true) : d.work = code :: { d with todo := todo }.work := by
  rw [work, htodo, List.filter_cons_of_pos isWork]
  rfl

/-- The attempts in flight when the top of the stack is work. -/
theorem InPhase.attempts_eq {code : DevTodo} {todo : List DevTodo} (h : d.InPhase awaited)
    (htodo : d.todo = code :: todo) (noReturn : code.returningOf = none) :
    d.attempts = { d with todo := todo }.returning ++ awaited := by
  rw [h.attempts, returning, htodo, List.filterMap_cons_none noReturn]
  rfl

/-- At most one piece of work is suspended. -/
theorem InPhase.work_alone {code : DevTodo} {todo : List DevTodo} (h : d.InPhase awaited)
    (htodo : d.todo = code :: todo) (isWork : code.isWork = true) :
    { d with todo := todo }.work = [] := by
  have hwork := work_cons htodo isWork
  cases h.phase with
  | idle w | waiting _ w => simp [hwork] at w
  | opening _ _ w | failed _ w | error _ w | establish _ _ _ _ _ w =>
    exact (List.cons.inj (hwork.symm.trans w)).2

/-- While work is about to be run the handle is not connected. -/
theorem InPhase.not_connected {code : DevTodo} {todo : List DevTodo} (h : d.InPhase awaited)
    (htodo : d.todo = code :: todo) (isWork : code.isWork = true) : d.connState ≠ .connected := by
  cases h.phase with
  | idle w | waiting _ w => simp [work_cons htodo isWork] at w
  | opening _ _ _ s | failed _ _ s => exact s
  | error _ _ o | establish _ _ _ _ _ _ o => exact o.not_connected

/-- When `connect_cb` is about to act on the channel of an attempt the handle holds it. -/
theorem InPhase.owns_of_actsOn {code : DevTodo} {todo : List DevTodo} {k : Chan}
    (h : d.InPhase awaited) (htodo : d.todo = code :: todo) (acts : code.actsOn = some k) :
    d.Owns k := by
  have isWork : code.isWork = true := by cases code <;> first | rfl | cases acts
  cases h.phase with
  | idle w | waiting _ w => simp [work_cons htodo isWork] at w
  | opening j f w | failed j w =>
    rw [work_cons htodo isWork] at w
    rw [(List.cons.inj w).1] at acts
    cases acts
  | error j w o | establish j _ _ _ _ w o =>
    rw [work_cons htodo isWork] at w
    rw [(List.cons.inj w).1] at acts
    exact Option.some.inj acts ▸ o

/-- The invariant without the code at the top of the stack, which is no work. -/
theorem InPhase.pop {code : DevTodo} {todo : List DevTodo} (h : d.InPhase awaited)
    (htodo : d.todo = code :: todo) (work : [code].filter DevTodo.isWork = [])
    (returning : [code].filterMap DevTodo.returningOf = []) :
    { d with todo := todo }.InPhase awaited := by
  refine h.congr ?_ ?_ rfl rfl rfl rfl rfl
  · rw [Device.work, Device.work, htodo, ← List.singleton_append, List.filter_append, work]
    rfl
  · rw [Device.returning, Device.returning, htodo, ← List.singleton_append,
      List.filterMap_append, returning]
    rfl

/-- Running a suspended piece of code preserves the invariant. -/
theorem InPhase.resume {code : DevTodo} {todo : List DevTodo} (h : d.InPhase awaited)
    (htodo : d.todo = code :: todo) :
    ∃ awaited', ({ d with todo := todo }.resume code).InPhase awaited' := by
  cases code with
  | emit event => exact ⟨awaited, (h.pop htodo rfl rfl).emit event⟩
  | emitState => exact ⟨awaited, (h.pop htodo rfl rfl).emit _⟩
  | handler => exact ⟨awaited, h.pop htodo rfl rfl⟩
  | connectReturn => exact ⟨awaited, h.pop htodo rfl rfl⟩
  | watcherDone c => exact ⟨awaited, (h.pop htodo rfl rfl).congr rfl rfl rfl rfl rfl rfl rfl⟩
  | connectDone k failed =>
    refine ⟨awaited, h.phase.congr ?_ rfl rfl rfl rfl, ?_, h.shut_lt⟩
    · simp only [Device.work, htodo]
      rfl
    · have hattempts : d.attempts = k :: (todo.filterMap DevTodo.returningOf ++ awaited) := by
        rw [h.attempts, Device.returning, htodo]
        rfl
      show d.attempts.erase k = _
      rw [hattempts, List.erase_cons_head]
      rfl
  | gattConnect k failure =>
    cases h.phase with
    | opening j f w s u n =>
      obtain ⟨hc, hw⟩ := List.cons.inj ((work_cons htodo rfl).symm.trans w)
      obtain ⟨rfl, rfl⟩ := DevTodo.gattConnect.inj hc
      have hattempts := h.attempts_eq htodo rfl
      cases failure with
      | none =>
        refine ⟨[k], .waiting k hw ⟨rfl, s, u, n⟩, ?_, h.shut_lt⟩
        show d.attempts ++ [k] = _
        rw [hattempts, List.append_nil]
        rfl
      | some message => exact ⟨[], .failed k (congrArg (List.cons _) hw) s, hattempts, h.shut_lt⟩
    | idle w | failed _ w | waiting _ w | error _ w | establish _ _ _ _ _ w =>
      simp [work_cons htodo rfl] at w
  | connectFailed k =>
    cases h.phase with
    | failed j w s =>
      have hw := (List.cons.inj ((work_cons htodo rfl).symm.trans w)).2
      exact ⟨[], .idle hw nofun, h.attempts_eq htodo rfl, h.shut_lt⟩
    | idle w | opening _ _ w | waiting _ w | error _ w | establish _ _ _ _ _ w =>
      simp [work_cons htodo rfl] at w
  | connectError k =>
    cases h.phase with
    | error j w o =>
      have hw := (List.cons.inj ((work_cons htodo rfl).symm.trans w)).2
      exact ⟨[], .idle hw nofun, h.attempts_eq htodo rfl, h.shut_lt⟩
    | idle w | opening _ _ w | failed _ w | waiting _ w | establish _ _ _ _ _ w =>
      simp [work_cons htodo rfl] at w
  | connectEstablish k getFailed imtu cid attribFails =>
    cases h.phase with
    | establish _ _ _ _ _ w o =>
      have hw := (List.cons.inj ((work_cons htodo rfl).symm.trans w)).2
      exact ⟨[], .idle hw nofun, h.attempts_eq htodo rfl, h.shut_lt⟩
    | idle w | opening _ _ w | failed _ w | waiting _ w | error _ w =>
      simp [work_cons htodo rfl] at w

/-- **The phases are invariant.** Every step of a run with one attempt at a time preserves the
invariant. -/
theorem InPhase.step {l : DevLabel} (h : ∃ awaited, d.InPhase awaited) (guard : d.OneAttempt l)
    (hstep : d.step l = some e) : ∃ awaited, e.InPhase awaited := by
  obtain ⟨awaited, h⟩ := h
  cases l with
  | call call =>
    obtain ⟨-, rfl⟩ := step_call hstep
    cases call with
    | connect failure => exact ⟨awaited, h.lbleConnect failure guard.1 guard.2⟩
    | disconnect => exact ⟨awaited, h.lbleDisconnect⟩
    | setEventHandler evh => exact ⟨awaited, h.congr rfl rfl rfl rfl rfl rfl rfl⟩
  | ret =>
    obtain ⟨todo, htodo, rfl⟩ := step_ret hstep
    exact ⟨awaited, h.pop htodo rfl rfl⟩
  | resume =>
    obtain ⟨code, todo, htodo, -, rfl⟩ := step_resume hstep
    exact h.resume htodo
  | outcome k outcome =>
    obtain ⟨htodo, hk, rfl⟩ := step_outcome hstep
    exact ⟨[], h.connectCb htodo hk outcome⟩
  | condition chan cond =>
    obtain ⟨-, -, rfl⟩ := step_condition hstep
    exact ⟨awaited, h.channelWatcher chan cond⟩

end Device

end Libble

import Libble.Device.Attempt

/-!
# The stream of reported states

`dev->conn_state` is written at seven places, and a `STATE_CHANGED` event reports it after some of
them only: `lble_disconnect` calls an attempt off without a report, and leaves the report to the
`connect_cb` of the attempt. This file says when the reported states are a path of the connection
automaton nevertheless, with an event handler that calls nothing back.

Between two dispatches of the main loop no library code is running, so what a dispatch or a call of
the application does is settled when it begins. The invariant follows the code that is still to be
run: every report in it is a step of the automaton, and at its end the state has been reported or
an attempt is in flight whose `connect_cb` will report it (`Device.Ends`).

## Main definitions

* `DevState.Next`: the connection automaton.
* `Device.reported`, `Device.lastReported`, `Device.lbleState`.
* `Device.CallsNothing`, `Device.NoneInFlight`: the guards.
* `Device.Standing`, `Device.Ends`: the invariant.

## Main results

* `Device.reported_isChain`: the reported states are a path of the automaton.
* `Device.not_isChain_calledOffRun`: they are not when an attempt that was called off is still in
  flight.
-/

namespace Libble

namespace DevState

/-- The steps of the connection automaton. -/
def Next : DevState → DevState → Prop
  | .disconnected, .connecting => True
  | .connecting, .connected => True
  | .connecting, .disconnected => True
  | .connected, .disconnected => True
  | _, _ => False

instance : DecidableRel Next := fun s t => by
  cases s <;> cases t <;> unfold Next <;> infer_instance

/-- The automaton has no loops. -/
theorem Next.ne {s t : DevState} (h : s.Next t) : s ≠ t := by
  rintro rfl
  cases s <;> exact h

end DevState

/-- The state that an act reports, if it is a `STATE_CHANGED` event. -/
def Act.state? : Act → Option DevState
  | .event e => e.state?
  | _ => none

namespace Device

/-- The states reported by `STATE_CHANGED` events. -/
def reported (d : Device) : List DevState := d.log.filterMap Act.state?

/-- The state that was reported last, `STATE_DISCONNECTED` at the beginning. -/
def lastReported (d : Device) : DevState := d.reported.getLastD .disconnected

/-- `lble_state` -/
def lbleState (d : Device) : DevState := d.connState

/-- The event handler stays set and calls nothing back: the application calls the library when no
library code is running. -/
def CallsNothing (d : Device) : DevLabel → Prop
  | .call (.setEventHandler _) => False
  | .call _ => d.todo = []
  | _ => True

instance (d : Device) (l : DevLabel) : Decidable (d.CallsNothing l) :=
  match l with
  | .call (.setEventHandler _) => .isFalse id
  | .call (.connect _) | .call .disconnect => inferInstanceAs (Decidable (d.todo = []))
  | .ret | .resume | .outcome .. | .condition .. => .isTrue trivial

/-- When `lble_connect` starts an attempt no other one is in flight. -/
def NoneInFlight (d : Device) : DevLabel → Prop
  | .call (.connect _) => d.connState = .disconnected → d.attempts = []
  | _ => True

instance (d : Device) (l : DevLabel) : Decidable (d.NoneInFlight l) :=
  match l with
  | .call (.connect _) => inferInstanceAs (Decidable (_ → _))
  | .call .disconnect | .call (.setEventHandler _) => .isTrue trivial
  | .ret | .resume | .outcome .. | .condition .. => .isTrue trivial

/-! ### How the code that is still to be run ends -/

/-- What the reports depend on: the state, the state reported last and the attempts in flight. -/
structure Standing where
  state : DevState
  last : DevState
  attempts : List Chan

namespace Standing

variable (v : Standing)

/-- Without an attempt in flight the state has been reported. -/
def Current : Prop := v.attempts = [] → v.state = v.last

/-- The state has been reported, or an attempt is in flight and it was reported that there is
one. -/
def Settled : Prop := v.Current ∧ (v.attempts ≠ [] → v.last = .connecting)

/-- What a piece of code changes. -/
def after : DevTodo → Standing
  | .emitState => { v with last := v.state }
  | .gattConnect k none => { v with attempts := v.attempts ++ [k] }
  | .gattConnect _ (some _) => { v with state := .disconnected, last := .disconnected }
  | .connectFailed _ | .connectError _ => { v with state := .disconnected }
  | .connectEstablish .. => { v with state := .connected }
  | .connectDone k _ => { v with attempts := v.attempts.erase k }
  | .emit _ | .handler | .connectReturn | .watcherDone _ => v

/-- The reports of a piece of code are steps of the automaton, and the state has been reported
when the event handler is called. -/
def Allows : DevTodo → Prop
  | .emit event => event.state? = none ∧ v.Current
  | .handler => v.Current
  | .emitState => v.last.Next v.state
  | .gattConnect _ (some _) => v.Current ∧ v.last.Next .disconnected
  | _ => True

end Standing

/-- The code that is still to be run only makes steps of the automaton, and ends settled. -/
def Ends : List DevTodo → Standing → Prop
  | [], v => v.Settled
  | code :: todo, v => v.Allows code ∧ Ends todo (v.after code)

/-- What the reports depend on. -/
def standing (d : Device) : Standing := ⟨d.connState, d.lastReported, d.attempts⟩

/-- The invariant. -/
structure Reporting (d : Device) : Prop where
  phase : ∃ awaited, d.InPhase awaited
  evh : d.evh = true
  path : (.disconnected :: d.reported).IsChain DevState.Next
  ends : Ends d.todo d.standing

/-! ### Reports -/

section Reports

variable {d e : Device} {acts : List Act}

theorem reported_record (hacts : acts.filterMap Act.state? = []) :
    (d.record acts).reported = d.reported := by
  rw [reported, record, List.filterMap_append, hacts, List.append_nil]
  rfl

theorem lastReported_record (hacts : acts.filterMap Act.state? = []) :
    (d.record acts).lastReported = d.lastReported :=
  congrArg (fun l => l.getLastD DevState.disconnected) (reported_record hacts)

/-- The event handler is set, so that every event reaches it. -/
theorem emit_of_evh (h : d.evh = true) (event : Event) :
    d.emit event = (d.record [.event event]).push [.handler] := if_pos h

theorem reported_concat (d : Device) (state : DevState) :
    (d.record [.event (.stateChanged state)]).reported = d.reported ++ [state] := by
  rw [reported, record, List.filterMap_append]
  rfl

theorem lastReported_concat (d : Device) (state : DevState) :
    (d.record [.event (.stateChanged state)]).lastReported = state := by
  rw [lastReported, reported_concat, List.getLastD_concat]

/-- A report makes a step of the automaton. -/
theorem path_concat (h : (.disconnected :: d.reported).IsChain DevState.Next) {state : DevState}
    (next : d.lastReported.Next state) :
    (.disconnected :: (d.record [.event (.stateChanged state)]).reported).IsChain
      DevState.Next := by
  rw [reported_concat]
  refine List.IsChain.append h (List.isChain_singleton state) fun x hx y hy => ?_
  obtain rfl : state = y := Option.some.inj hy
  rw [List.getLast?_cons, ← List.getLastD_eq_getLast?] at hx
  exact Option.some.inj hx ▸ next

end Reports

/-! ### The invariant is preserved -/

section Preserved

variable {d e : Device} {code : DevTodo} {todo : List DevTodo}

theorem reporting_newdev : (newdev true).Reporting where
  phase := ⟨[], inPhase_newdev true⟩
  evh := rfl
  path := List.isChain_singleton _
  ends := ⟨fun _ => rfl, fun h => absurd rfl h⟩

/-- The invariant is preserved by what reports nothing. -/
theorem Reporting.of_ends (h : d.Reporting) (phase : ∃ awaited, e.InPhase awaited)
    (evh : e.evh = d.evh) (reported : e.reported = d.reported)
    (ends : Ends e.todo e.standing) : e.Reporting where
  phase := phase
  evh := evh.trans h.evh
  path := reported ▸ h.path
  ends := ends

/-- The event handler is called about something else than the state. -/
theorem Reporting.emit (h : d.Reporting) {event : Event}
    (htodo : d.todo = .emit event :: todo) : ({ d with todo := todo }.emit event).Reporting := by
  obtain ⟨awaited, hphase⟩ := h.phase
  have ends := h.ends
  rw [htodo] at ends
  obtain ⟨⟨hstate, hcurrent⟩, ends⟩ := ends
  have phase := (hphase.pop htodo rfl rfl).emit event
  rw [emit_of_evh (d := { d with todo := todo }) h.evh] at phase ⊢
  have hacts : [Act.event event].filterMap Act.state? = [] := List.filterMap_cons_none hstate
  refine h.of_ends ⟨awaited, phase⟩ rfl (reported_record hacts) ?_
  have hstanding : ((({ d with todo := todo } : Device).record [.event event]).push
      [.handler]).standing = d.standing :=
    congrArg (fun last => (⟨d.connState, last, d.attempts⟩ : Standing)) (lastReported_record hacts)
  rw [hstanding]
  exact ⟨hcurrent, ends⟩

/-- The event handler is told the state. -/
theorem Reporting.emitState (h : d.Reporting) (htodo : d.todo = .emitState :: todo) :
    ({ d with todo := todo }.emit (.stateChanged d.connState)).Reporting := by
  obtain ⟨awaited, hphase⟩ := h.phase
  have ends := h.ends
  rw [htodo] at ends
  obtain ⟨next, ends⟩ := ends
  have phase := (hphase.pop htodo rfl rfl).emit (.stateChanged d.connState)
  rw [emit_of_evh (d := { d with todo := todo }) h.evh] at phase ⊢
  refine ⟨⟨awaited, phase⟩, h.evh, path_concat h.path next, ?_⟩
  have hstanding : ((({ d with todo := todo } : Device).record
      [.event (.stateChanged d.connState)]).push [.handler]).standing =
      d.standing.after .emitState :=
    congrArg (fun last => (⟨d.connState, last, d.attempts⟩ : Standing)) (lastReported_concat d _)
  rw [hstanding]
  exact ⟨fun _ => rfl, ends⟩

/-- Running a suspended piece of code preserves the invariant. -/
theorem Reporting.resume (h : d.Reporting) (htodo : d.todo = code :: todo) :
    ({ d with todo := todo }.resume code).Reporting := by
  obtain ⟨awaited, hphase⟩ := h.phase
  have phase := hphase.resume htodo
  have ends := h.ends
  rw [htodo] at ends
  obtain ⟨allows, ends⟩ := ends
  -- most pieces record acts that report nothing, and have no code run before the rest
  have silent : ∀ {e : Device} {acts : List Act}, (∃ awaited, e.InPhase awaited) → e.evh = d.evh →
      e.log = d.log ++ acts → acts.filterMap Act.state? = [] → e.todo = todo →
      e.connState = (d.standing.after code).state →
      (d.standing.after code).last = d.lastReported →
      e.attempts = (d.standing.after code).attempts → e.Reporting := by
    intro e acts phase evh hlog hacts htodo hstate hlast hattempts
    have hreported : e.reported = d.reported := by
      rw [reported, hlog, List.filterMap_append, hacts, List.append_nil]
      rfl
    refine h.of_ends phase evh hreported ?_
    have hstanding : e.standing = d.standing.after code := by
      rw [standing, hstate, hattempts, lastReported, hreported]
      exact congrArg (fun last => (⟨_, last, _⟩ : Standing)) hlast.symm
    rw [htodo, hstanding]
    exact ends
  cases code with
  | emit event => exact h.emit htodo
  | emitState => exact h.emitState htodo
  | handler | connectReturn | watcherDone =>
    exact silent phase rfl (List.append_nil _).symm rfl rfl rfl rfl rfl
  | connectDone k failed =>
    refine silent phase rfl rfl ?_ rfl rfl rfl rfl
    cases failed <;> rfl
  | connectFailed k | connectError k =>
    refine silent phase rfl rfl ?_ rfl rfl rfl rfl
    rfl
  | connectEstablish k getFailed imtu cid attribFails =>
    refine silent phase rfl rfl ?_ rfl rfl rfl rfl
    cases getFailed <;> rfl
  | gattConnect k failure =>
    cases failure with
    | none =>
      refine silent phase rfl rfl ?_ rfl rfl rfl rfl
      rfl
    | some message =>
      obtain ⟨current, next⟩ := allows
      refine h.of_ends phase rfl (reported_record rfl) ?_
      have hstanding : (({ d with todo := todo } : Device).gattConnect k (some message)).standing =
          d.standing :=
        congrArg (fun last => (⟨d.connState, last, d.attempts⟩ : Standing))
          (lastReported_record rfl)
      show Ends _ (({ d with todo := todo } : Device).gattConnect k (some message)).standing
      rw [hstanding]
      exact ⟨⟨rfl, current⟩, trivial, next, ends⟩

/-- While no library code is running the state is reported, or an attempt is in flight. -/
theorem Reporting.settled (h : d.Reporting) (htodo : d.todo = []) : d.standing.Settled := by
  have ends := h.ends
  rwa [htodo] at ends

/-- `lble_connect` reports `STATE_CONNECTING` after `STATE_DISCONNECTED`. -/
theorem Reporting.lbleConnect (h : d.Reporting) (htodo : d.todo = []) (failure : Option String)
    (none : d.connState = .disconnected → d.attempts = []) :
    (d.lbleConnect failure).Reporting := by
  by_cases hstate : d.connState = .disconnected
  · obtain ⟨awaited, hphase⟩ := h.phase
    have hwork : d.work = [] := by rw [work, htodo]; rfl
    have hreturning : d.returning = [] := by rw [returning, htodo]; rfl
    have phase := hphase.lbleConnect failure hwork ((none hstate).trans hreturning.symm)
    rw [Device.lbleConnect, if_pos hstate] at phase ⊢
    refine h.of_ends ⟨awaited, phase⟩ rfl (reported_record rfl) ?_
    have hlast : d.lastReported = .disconnected :=
      ((h.settled htodo).1 (none hstate)).symm.trans hstate
    have hstanding : ({ (d.push [.emitState, .gattConnect d.nextAttempt failure,
        .connectReturn]).record [.started d.nextAttempt] with
          connState := .connecting
          nextAttempt := d.nextAttempt + 1 } : Device).standing =
        ⟨.connecting, .disconnected, []⟩ := by
      rw [← hlast, ← none hstate]
      exact congrArg (fun last => (⟨.connecting, last, d.attempts⟩ : Standing))
        (lastReported_record rfl)
    rw [hstanding]
    show Ends ([.emitState, .gattConnect d.nextAttempt failure, .connectReturn] ++ d.todo) _
    rw [htodo]
    cases failure with
    | none =>
      exact ⟨trivial, trivial, trivial, fun h => absurd h (List.cons_ne_nil _ _), fun _ => rfl⟩
    | some message =>
      exact ⟨trivial, ⟨fun _ => rfl, trivial⟩, trivial, fun _ => rfl, fun h => absurd rfl h⟩
  · rw [Device.lbleConnect, if_neg hstate]
    exact h

/-- In `STATE_CONNECTED` no attempt is in flight. -/
theorem Reporting.attempts_of_connected (h : d.Reporting) (htodo : d.todo = [])
    (hstate : d.connState = .connected) : d.attempts = [] := by
  obtain ⟨awaited, hphase⟩ := h.phase
  cases hattempts : d.attempts with
  | nil => rfl
  | cons k attempts =>
    have owns := (hphase.owns_of_dispatch htodo (hattempts ▸ List.mem_cons_self)).2
    exact absurd hstate owns.not_connected

/-- In `STATE_CONNECTING` an attempt is in flight. -/
theorem Reporting.attempts_of_connecting (h : d.Reporting) (htodo : d.todo = [])
    (hstate : d.connState = .connecting) : d.attempts ≠ [] := by
  obtain ⟨awaited, hphase⟩ := h.phase
  have hwork : d.work = [] := by rw [work, htodo]; rfl
  have hattempts := hphase.attempts
  rw [returning, htodo] at hattempts
  cases hphase.phase with
  | idle _ s => exact absurd hstate s
  | waiting k _ _ => exact hattempts ▸ List.cons_ne_nil _ _
  | opening _ _ w | failed _ w | error _ w | establish _ _ _ _ _ w => simp [hwork] at w

/-- `lble_disconnect` reports `STATE_DISCONNECTED` after `STATE_CONNECTED`, and leaves it to
`connect_cb` after `STATE_CONNECTING`. The code behind it reports nothing. -/
theorem Reporting.lbleDisconnect (h : d.Reporting) (htodo : d.todo = []) (codes : List DevTodo)
    (hcodes : ∀ v : Standing, v.Settled → Ends codes v)
    (phase : ∃ awaited, (d.push codes).lbleDisconnect.InPhase awaited) :
    (d.push codes).lbleDisconnect.Reporting := by
  have settled := h.settled htodo
  have hpush : (d.push codes).todo = codes := by rw [push, htodo, List.append_nil]
  revert phase
  unfold Device.lbleDisconnect
  cases hstate : d.connState with
  | disconnected =>
    rw [show (d.push codes).connState = .disconnected from hstate]
    intro phase
    refine h.of_ends phase rfl rfl ?_
    show Ends (d.push codes).todo d.standing
    rw [hpush]
    exact hcodes _ settled
  | connecting =>
    rw [show (d.push codes).connState = .connecting from hstate]
    intro phase
    refine h.of_ends phase rfl (reported_record rfl) ?_
    have hnone := h.attempts_of_connecting htodo hstate
    have hstanding : ({ (d.push codes).record [.cancelled ((d.push codes).nextAttempt - 1)] with
        connState := .disconnected } : Device).standing =
        ⟨.disconnected, d.lastReported, d.attempts⟩ :=
      congrArg (fun last => (⟨.disconnected, last, d.attempts⟩ : Standing))
        (lastReported_record rfl)
    rw [hstanding]
    show Ends (d.push codes).todo _
    rw [hpush]
    exact hcodes _ ⟨fun hattempts => absurd hattempts hnone, settled.2⟩
  | connected =>
    rw [show (d.push codes).connState = .connected from hstate]
    intro phase
    have hacts : (d.attrib.toList.map Act.attribUnref).filterMap Act.state? = [] := by
      cases d.attrib <;> rfl
    refine h.of_ends phase rfl (reported_record hacts) ?_
    have hnone := h.attempts_of_connected htodo hstate
    have hlast : d.lastReported = .connected := (settled.1 hnone).symm.trans hstate
    have hstanding : ({ ((d.push codes).record ((d.push codes).attrib.toList.map
        .attribUnref)).push [.emitState] with
          attrib := none
          iochannel := none
          connState := .disconnected } : Device).standing = ⟨.disconnected, .connected, []⟩ := by
      rw [← hlast, ← hnone]
      exact congrArg (fun last => (⟨.disconnected, last, d.attempts⟩ : Standing))
        (lastReported_record hacts)
    rw [hstanding]
    show Ends (.emitState :: (d.push codes).todo) _
    rw [hpush]
    exact ⟨trivial, hcodes _ ⟨fun _ => rfl, fun h => absurd rfl h⟩⟩

/-- `connect_cb` reports what became of the attempt. -/
theorem Reporting.connectCb (h : d.Reporting) (htodo : d.todo = []) {k : Chan}
    (hk : k ∈ d.attempts) (outcome : Outcome) : (d.connectCb k outcome).Reporting := by
  obtain ⟨awaited, hphase⟩ := h.phase
  obtain ⟨rfl, owns⟩ := hphase.owns_of_dispatch htodo hk
  have hattempts : d.attempts = [k] := by rw [hphase.attempts, returning, htodo]; rfl
  have hne : d.attempts ≠ [] := hattempts ▸ List.cons_ne_nil _ _
  have hlast : d.lastReported = .connecting := (h.settled htodo).2 hne
  have phase := hphase.connectCb htodo hk outcome
  -- at the end `k` is in flight no more, and the state has been reported
  have ended : ∀ failed state, Ends (.connectDone k failed :: d.todo) ⟨state, state, [k]⟩ := by
    intro failed state
    rw [htodo]
    exact ⟨trivial, fun _ => rfl, fun hne => absurd (List.erase_cons_head k []) hne⟩
  have current : ∀ state, (⟨state, .connecting, [k]⟩ : Standing).Current :=
    fun _ hnil => absurd hnil (List.cons_ne_nil _ _)
  have hstanding : ∀ {acts : List Act} {codes : List DevTodo}, acts.filterMap Act.state? = [] →
      ((d.record acts).push codes).standing = ⟨d.connState, .connecting, [k]⟩ := by
    intro acts codes hacts
    rw [← hlast, ← hattempts]
    exact congrArg (fun last => (⟨d.connState, last, d.attempts⟩ : Standing))
      (lastReported_record hacts)
  simp only [Device.connectCb, owns.open_, if_false] at phase ⊢
  cases outcome with
  | error message =>
    refine h.of_ends ⟨[], phase⟩ rfl (reported_record rfl) ?_
    rw [hstanding rfl]
    exact ⟨⟨rfl, current _⟩, trivial, trivial, ended true _⟩
  | success getError imtu cid shutdownError attribFails =>
    dsimp only at phase ⊢
    split
    · rename_i hstate
      rw [if_pos hstate] at phase
      have hacts : ([.shutdown k d.iochannel] ++
          (if shutdownError then [.errorNew k .shutdown, .errorFree k .shutdown] else []) ++
          [.unref k d.iochannel] : List Act).filterMap Act.state? = [] := by
        cases shutdownError <;> rfl
      have standing := @hstanding _ [.emitState, .connectDone k false] hacts
      rw [hstate] at standing
      have ends : Ends (.emitState :: .connectDone k false :: d.todo)
          ⟨.disconnected, .connecting, [k]⟩ := ⟨trivial, ended false _⟩
      rw [← standing] at ends
      exact h.of_ends ⟨[], phase⟩ rfl (reported_record hacts) ends
    · rename_i hstate
      rw [if_neg hstate] at phase
      have connected : ∀ state, Ends (.connectEstablish k getError.isSome imtu cid attribFails ::
          .emitState :: .connectDone k false :: d.todo) ⟨state, .connecting, [k]⟩ :=
        fun _ => ⟨trivial, trivial, ended false _⟩
      cases getError with
      | none =>
        refine h.of_ends ⟨[], phase⟩ rfl rfl ?_
        rw [show (d.push [.connectEstablish k false imtu cid attribFails, .emitState,
          .connectDone k false]).standing = ⟨d.connState, .connecting, [k]⟩ by
            rw [← hlast, ← hattempts]; rfl]
        exact connected _
      | some message =>
        refine h.of_ends ⟨[], phase⟩ rfl (reported_record rfl) ?_
        rw [hstanding rfl]
        exact ⟨⟨rfl, current _⟩, connected _⟩

/-- `channel_watcher` at most calls `lble_disconnect`. -/
theorem Reporting.channelWatcher (h : d.Reporting) (htodo : d.todo = []) (chan : Chan)
    (cond : GIOCondition) : (d.channelWatcher chan cond).Reporting := by
  obtain ⟨awaited, hphase⟩ := h.phase
  have phase := hphase.channelWatcher chan cond
  have settled := h.settled htodo
  have pushed : ∀ {codes : List DevTodo}, (d.push codes).InPhase awaited →
      Ends codes d.standing → (d.push codes).Reporting := by
    intro codes phase ends
    refine h.of_ends ⟨awaited, phase⟩ rfl rfl ?_
    show Ends (codes ++ d.todo) d.standing
    rwa [htodo, List.append_nil]
  unfold Device.channelWatcher at phase ⊢
  split_ifs at phase ⊢
  · exact h.lbleDisconnect htodo _ (fun _ hv => ⟨trivial, hv⟩) ⟨awaited, phase⟩
  · exact pushed phase ⟨⟨rfl, settled.1⟩, trivial, settled⟩
  · exact pushed phase ⟨⟨rfl, settled.1⟩, trivial, settled⟩
  · exact pushed phase ⟨trivial, settled⟩

/-- **The invariant is preserved** by every step with an event handler that calls nothing back, if
no other attempt is in flight when one is started. -/
theorem Reporting.step {l : DevLabel} (h : d.Reporting) (nothing : d.CallsNothing l)
    (none : d.NoneInFlight l) (hstep : d.step l = some e) : e.Reporting := by
  cases l with
  | call call =>
    obtain ⟨-, rfl⟩ := step_call hstep
    cases call with
    | connect failure => exact h.lbleConnect nothing failure none
    | disconnect =>
      obtain ⟨awaited, hphase⟩ := h.phase
      exact h.lbleDisconnect nothing [] (fun _ hv => hv) ⟨awaited, hphase.lbleDisconnect⟩
    | setEventHandler evh => exact nothing.elim
  | ret =>
    obtain ⟨todo, htodo, rfl⟩ := step_ret hstep
    exact h.resume htodo
  | resume =>
    obtain ⟨code, todo, htodo, -, rfl⟩ := step_resume hstep
    exact h.resume htodo
  | outcome k outcome =>
    obtain ⟨htodo, hk, rfl⟩ := step_outcome hstep
    exact h.connectCb htodo hk outcome
  | condition chan cond =>
    obtain ⟨htodo, -, rfl⟩ := step_condition hstep
    exact h.channelWatcher htodo chan cond

end Preserved

/-! ### The reported states -/

/-- **The reported states are a path of the connection automaton.** In every run with an event
handler that calls nothing back in which `lble_connect` starts an attempt only while no other one
is in flight, every `STATE_CHANGED` event makes a step of the automaton, so that no state is
reported twice in a row, and whenever the application is in control and no attempt is in flight,
`lble_state` returns the state reported last. -/
theorem reported_isChain {d : Device} {ls : List DevLabel}
    (run : machine.Run (fun d l => d.CallsNothing l ∧ d.NoneInFlight l) (newdev true) ls d) :
    (.disconnected :: d.reported).IsChain DevState.Next ∧
      (.disconnected :: d.reported).IsChain (· ≠ ·) ∧
      (d.AppInControl → d.attempts = [] → d.lbleState = d.lastReported) := by
  have reporting := run.invariant reporting_newdev fun h guard hstep =>
    h.step guard.1 guard.2 hstep
  refine ⟨reporting.path, reporting.path.imp fun _ _ next => next.ne, fun control hnil => ?_⟩
  rcases control with htodo | hhandler
  · exact (reporting.settled htodo).1 hnil
  · obtain ⟨todo, htodo⟩ := List.head?_eq_some_iff.mp hhandler
    have ends := reporting.ends
    rw [htodo] at ends
    exact ends.1 hnil

/-- An attempt is called off and reported by its `connect_cb`, and the next one succeeds. -/
def reconnectedRun : Option Device :=
  machine.execGuarded (fun d l => d.CallsNothing l ∧ d.NoneInFlight l) (newdev true)
    [.call (.connect none), .resume, .ret, .resume, .resume, .call .disconnect,
      .outcome 0 (.error "timeout"), .resume, .ret, .resume, .resume, .ret, .resume,
      .call (.connect none), .resume, .ret, .resume, .resume,
      .outcome 1 (.success none 0 4 false false), .resume, .resume, .ret, .resume]

theorem reported_isChain_reconnectedRun : ∃ d, reconnectedRun = some d ∧
    d.reported = [.connecting, .disconnected, .connecting, .connected] ∧
    (.disconnected :: d.reported).IsChain DevState.Next ∧
    d.lbleState = d.lastReported := by
  have hrun : reconnectedRun.map (fun d => (d.todo, d.attempts, d.reported)) =
      some ([], [], [.connecting, .disconnected, .connecting, .connected]) := by decide
  obtain ⟨d, hd, hdata⟩ := Option.map_eq_some_iff.mp hrun
  obtain ⟨htodo, hattempts, hreported⟩ : d.todo = [] ∧ d.attempts = [] ∧ d.reported = _ := by
    simpa only [Prod.mk.injEq] using hdata
  have path := reported_isChain (machine.run_of_execGuarded hd)
  exact ⟨d, hd, hreported, path.1, path.2.2 (.inl htodo) hattempts⟩

/-- An attempt is called off, and another one is started before its `connect_cb` was called. -/
def calledOffRun : Option Device :=
  machine.execGuarded (fun d l => d.CallsNothing l) (newdev true)
    [.call (.connect none), .resume, .ret, .resume, .resume, .call .disconnect,
      .call (.connect none), .resume]

/-- `STATE_CONNECTING` is reported twice in a row. -/
theorem not_isChain_calledOffRun : ∃ d, calledOffRun = some d ∧
    d.reported = [.connecting, .connecting] ∧
    ¬ (.disconnected :: d.reported).IsChain DevState.Next := by
  have hrun : calledOffRun.map reported = some [.connecting, .connecting] := by decide
  obtain ⟨d, hd, hreported⟩ := Option.map_eq_some_iff.mp hrun
  refine ⟨d, hd, hreported, fun path => ?_⟩
  rw [hreported] at path
  exact (List.isChain_cons_cons.mp (List.isChain_cons_cons.mp path).2).1

end Device

end Libble

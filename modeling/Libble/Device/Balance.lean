import Libble.Device.Attempt

/-!
# What a connect cycle owes

A connect attempt that does not fail at once leaves the handle with a reference to its channel, and
every way a cycle can end makes errors. This file follows one attempt through `lble_connect`,
`connect_cb` and the `connect_cb` of `btio.c` around it, in runs in which one cycle is over before
the next one begins, and says which cycles give back exactly what they took.

The channel reference and the errors of an attempt are named by it, so the account of one attempt
is the part of the record that is about them.

## Main definitions

* `Device.tasks`, `Device.dealings`: what is still to be run for an attempt, and what was done with
  its channel and its errors.
* `Device.Cycle`: the course of an attempt.
* `Device.Harmless`: what must not become of an attempt.
* `Device.Over`, `Device.Balanced`: the end of a cycle, and what is to hold then.

## Main results

* `Device.balanced_iff`: a cycle is balanced exactly when its attempt fails at once or is called
  off before it succeeds.
* `Device.not_balanced_lossyRun`: a failed attempt and an established connection are not balanced.
-/

namespace Libble

/-- The attempt that a piece of `lble_connect` or `connect_cb` is about. -/
def DevTodo.attempt? : DevTodo → Option Chan
  | .gattConnect k _ | .connectFailed k | .connectError k | .connectEstablish k .. |
    .connectDone k _ => some k
  | _ => none

/-- The attempt whose channel reference or whose error an act concerns. -/
def Act.resource? : Act → Option Chan
  | .opened k | .errorNew k _ | .errorFree k _ => some k
  | .unref _ chan => chan
  | _ => none

/-- The act releases the channel reference of the attempt. -/
def Act.releases (k : Chan) : Act → Bool
  | .unref _ chan => chan = some k
  | _ => false

namespace Device

/-- What is still to be run for an attempt. -/
def tasks (d : Device) (k : Chan) : List DevTodo := d.todo.filter (·.attempt? = some k)

/-- What was done with the channel and the errors of an attempt. -/
def dealings (d : Device) (k : Chan) : List Act := d.log.filter (·.resource? = some k)

/-- The outcome of the attempt is not dispatched as a failure, and as a success only after
`lble_disconnect` called the attempt off. -/
def Harmless (k : Chan) (d : Device) : DevLabel → Prop
  | .outcome j (.error _) => j ≠ k
  | .outcome j (.success ..) => j = k → d.connState = .disconnected
  | _ => True

instance (k : Chan) (d : Device) (l : DevLabel) : Decidable (d.Harmless k l) :=
  match l with
  | .outcome _ (.error _) => inferInstanceAs (Decidable (_ ≠ _))
  | .outcome _ (.success ..) => inferInstanceAs (Decidable (_ → _))
  | .call _ | .ret | .resume | .condition .. => .isTrue trivial

/-- The cycle of an attempt is over: `lble_connect` and `connect_cb` have returned, and if no later
attempt was started there is no connection. -/
structure Over (d : Device) (k : Chan) : Prop where
  tasks : d.tasks k = []
  attempts : k ∉ d.attempts
  ended : d.nextAttempt = k + 1 → d.connState = .disconnected

/-- The channel reference of the attempt was released as often as it was obtained, and each of its
errors was freed as often as it was made, which is once at most. -/
structure Balanced (d : Device) (k : Chan) : Prop where
  obtained : d.log.count (.opened k) ≤ 1
  released : d.log.countP (Act.releases k) = d.log.count (.opened k)
  made (site : ErrorSite) : d.log.count (.errorNew k site) ≤ 1
  freed (site : ErrorSite) : d.log.count (.errorFree k site) = d.log.count (.errorNew k site)

/-! ### The course of an attempt -/

/-- What was done when an attempt was called off: `g_io_channel_shutdown` may fail. -/
def calledOff (k : Chan) (shutdownError : Bool) : List Act :=
  .opened k :: (if shutdownError then [.errorNew k .shutdown, .errorFree k .shutdown] else []) ++
    [.unref k (some k)]

/-- The course of an attempt: whether it came to harm, how often it is in flight, what is still to
be run for it, and what was done with its channel and its errors. -/
inductive Cycle (k : Chan) : Bool → Nat → List DevTodo → List Act → Prop
  | unborn : Cycle k false 0 [] []
  | opening (failure : Option String) : Cycle k false 0 [.gattConnect k failure] []
  | refusing : Cycle k false 0 [.connectFailed k] [.errorNew k .synchronous]
  | refused : Cycle k false 0 [] [.errorNew k .synchronous, .errorFree k .synchronous]
  | waiting : Cycle k false 1 [] [.opened k]
  | closing (shutdownError : Bool) :
      Cycle k false 1 [.connectDone k false] (calledOff k shutdownError)
  | closed (shutdownError : Bool) : Cycle k false 0 [] (calledOff k shutdownError)
  | failing :
      Cycle k true 1 [.connectError k, .connectDone k true] [.opened k, .errorNew k .outcome]
  | failed : Cycle k true 1 [.connectDone k true]
      [.opened k, .errorNew k .outcome, .errorFree k .outcome, .unref k (some k)]
  | failedDone : Cycle k true 0 []
      [.opened k, .errorNew k .outcome, .errorFree k .outcome, .unref k (some k),
        .errorFree k .outcome]
  | establishing (getFailed : Bool) (imtu cid : UInt16) (attribFails : Bool) :
      Cycle k true 1 [.connectEstablish k getFailed imtu cid attribFails, .connectDone k false]
        (.opened k :: if getFailed then [.errorNew k .getOptions] else [])
  | established (getFailed : Bool) : Cycle k true 1 [.connectDone k false]
      (.opened k ::
        if getFailed then [.errorNew k .getOptions, .errorFree k .getOptions] else [])
  | establishedDone (getFailed : Bool) : Cycle k true 0 []
      (.opened k ::
        if getFailed then [.errorNew k .getOptions, .errorFree k .getOptions] else [])

section Cycle

variable {k : Chan} {harmed : Bool} {n : Nat} {tasks : List DevTodo} {l : List Act}

theorem Cycle.gattConnect_none (h : Cycle k harmed n (.gattConnect k none :: tasks) l) :
    Cycle k harmed (n + 1) tasks (l ++ [.opened k]) := by
  cases h
  exact .waiting

theorem Cycle.gattConnect_some {message : String}
    (h : Cycle k harmed n (.gattConnect k (some message) :: tasks) l) :
    Cycle k harmed n (.connectFailed k :: tasks) (l ++ [.errorNew k .synchronous]) := by
  cases h
  exact .refusing

theorem Cycle.connectFailed (h : Cycle k harmed n (.connectFailed k :: tasks) l) :
    Cycle k harmed n tasks (l ++ [.errorFree k .synchronous]) := by
  cases h
  exact .refused

theorem Cycle.connectError (h : Cycle k harmed n (.connectError k :: tasks) l) :
    Cycle k harmed n tasks (l ++ [.errorFree k .outcome, .unref k (some k)]) := by
  cases h
  exact .failed

theorem Cycle.connectEstablish {getFailed attribFails : Bool} {imtu cid : UInt16}
    (h : Cycle k harmed n (.connectEstablish k getFailed imtu cid attribFails :: tasks) l) :
    Cycle k harmed n tasks (l ++ if getFailed then [.errorFree k .getOptions] else []) := by
  cases h
  cases getFailed with
  | false => exact .established false
  | true => exact .established true

theorem Cycle.connectDone {failed : Bool}
    (h : Cycle k harmed n (.connectDone k failed :: tasks) l) :
    Cycle k harmed (n - 1) tasks (l ++ if failed then [.errorFree k .outcome] else []) := by
  cases h with
  | closing shutdownError => exact (List.append_nil _).symm ▸ .closed shutdownError
  | failed => exact .failedDone
  | established getFailed => exact (List.append_nil _).symm ▸ .establishedDone getFailed

/-- An attempt in flight with nothing to be run for it is waiting. -/
theorem Cycle.of_inFlight (h : Cycle k harmed n [] l) (hn : n ≠ 0) :
    harmed = false ∧ n = 1 ∧ l = [.opened k] := by
  cases h with
  | waiting => exact ⟨rfl, rfl, rfl⟩
  | unborn | refused | closed | failedDone | establishedDone => exact absurd rfl hn

end Cycle

/-- The account of an attempt. -/
structure Accounted (d : Device) (k : Chan) (harmed : Bool) : Prop where
  cycle : Cycle k harmed (d.attempts.count k) (d.tasks k) (d.dealings k)
  unborn : d.nextAttempt ≤ k → d.attempts.count k = 0 ∧ d.tasks k = [] ∧ d.dealings k = []

variable {d e : Device} {k : Chan} {harmed : Bool} {awaited : List Chan} {code : DevTodo}
  {todo : List DevTodo}

/-! ### The account goes on -/

/-- What is about the attempt has not changed. -/
theorem Accounted.frame (h : d.Accounted k harmed) (before after : List DevTodo) {acts : List Act}
    (htodo : d.todo = before ++ todo) (htodo' : e.todo = after ++ todo)
    (codes : after.filter (·.attempt? = some k) = before.filter (·.attempt? = some k))
    (hlog : e.log = d.log ++ acts) (hacts : acts.filter (·.resource? = some k) = [])
    (attempts : e.attempts.count k = d.attempts.count k)
    (next : d.nextAttempt ≤ e.nextAttempt) : e.Accounted k harmed := by
  have tasks : e.tasks k = d.tasks k := by
    rw [Device.tasks, Device.tasks, htodo, htodo', List.filter_append, List.filter_append, codes]
  have dealings : e.dealings k = d.dealings k := by
    rw [Device.dealings, hlog, List.filter_append, hacts, List.append_nil]
    rfl
  refine ⟨?_, fun hle => ?_⟩
  · rw [attempts, tasks, dealings]
    exact h.cycle
  · rw [attempts, tasks, dealings]
    exact h.unborn (Nat.le_trans next hle)

/-- An attempt that was started goes on in its course. -/
theorem accounted_of_cycle (codes : List DevTodo) {codes' : List DevTodo} {acts acts' : List Act}
    {n : Nat} (born : k < e.nextAttempt) (htodo : e.todo = codes ++ todo)
    (hcodes : codes.filter (·.attempt? = some k) = codes') (hlog : e.log = d.log ++ acts)
    (hacts : acts.filter (·.resource? = some k) = acts') (hcount : e.attempts.count k = n)
    (cycle : Cycle k harmed n (codes' ++ todo.filter (·.attempt? = some k))
      (d.dealings k ++ acts')) : e.Accounted k harmed := by
  refine ⟨?_, fun hle => absurd born (Nat.not_lt_of_le hle)⟩
  rw [tasks, dealings, htodo, hlog, List.filter_append, List.filter_append, hcodes, hacts, hcount]
  exact cycle

/-- Code about another attempt. -/
theorem filter_of_ne (h : code.attempt? ≠ some k) :
    [code].filter (·.attempt? = some k) = [] := by
  rw [List.filter_cons_of_neg (by simpa using h), List.filter_nil]

/-- `emit` is about no attempt. -/
theorem Accounted.emit (h : d.Accounted k harmed) (htodo : d.todo = code :: todo)
    (hcode : code.attempt? ≠ some k) (event : Event) :
    ({ d with todo := todo }.emit event).Accounted k harmed := by
  rcases ({ d with todo := todo } : Device).emit_cases event with he | he <;> rw [he]
  · exact h.frame [code] [] htodo rfl (filter_of_ne hcode).symm (List.append_nil _).symm rfl rfl
      (Nat.le_refl _)
  · exact h.frame [code] [.handler] htodo rfl (filter_of_ne hcode).symm rfl rfl rfl (Nat.le_refl _)

/-- Running a piece of code that is about the attempt goes on in its course. -/
theorem Accounted.resume_self (h : d.Accounted k harmed) (phase : d.InPhase awaited)
    (htodo : d.todo = code :: todo) (hcode : code.attempt? = some k) :
    ({ d with todo := todo }.resume code).Accounted k harmed := by
  have htasks : d.tasks k = code :: todo.filter (·.attempt? = some k) := by
    rw [tasks, htodo, List.filter_cons_of_pos (by simpa using hcode)]
  have cycle := h.cycle
  rw [htasks] at cycle
  have born : k < d.nextAttempt := by
    refine Nat.lt_of_not_le fun hle => ?_
    exact nomatch htasks.symm.trans (h.unborn hle).2.1
  cases code with
  | gattConnect j failure =>
    obtain rfl : j = k := Option.some.inj hcode
    cases failure with
    | none =>
      have hcount : (d.attempts ++ [j]).count j = d.attempts.count j + 1 := by simp
      exact accounted_of_cycle [] born rfl rfl rfl (by simp [Act.resource?]) hcount
        cycle.gattConnect_none
    | some message =>
      have hcodes : [DevTodo.emit (.errorOccured message), .connectFailed j, .emitState].filter
          (·.attempt? = some j) = [.connectFailed j] := by
        simp [DevTodo.attempt?]
      have hacts : [Act.errorNew j .synchronous].filter (·.resource? = some j) =
          [.errorNew j .synchronous] := by
        simp [Act.resource?]
      exact accounted_of_cycle _ born rfl hcodes rfl hacts rfl cycle.gattConnect_some
  | connectFailed j =>
    obtain rfl : j = k := Option.some.inj hcode
    exact accounted_of_cycle [] born rfl rfl rfl (by simp [Act.resource?]) rfl cycle.connectFailed
  | connectError j =>
    obtain rfl : j = k := Option.some.inj hcode
    have hchannel := (phase.owns_of_actsOn htodo rfl).iochannel
    exact accounted_of_cycle [] born rfl rfl rfl (by simp [Act.resource?, hchannel]) rfl
      cycle.connectError
  | connectEstablish j getFailed imtu cid attribFails =>
    obtain rfl : j = k := Option.some.inj hcode
    refine accounted_of_cycle [] born rfl rfl rfl ?_ rfl cycle.connectEstablish
    cases getFailed <;> simp [Act.resource?]
  | connectDone j failed =>
    obtain rfl : j = k := Option.some.inj hcode
    refine accounted_of_cycle [] born rfl rfl rfl ?_ List.count_erase_self cycle.connectDone
    cases failed <;> simp [Act.resource?]
  | emit | emitState | handler | connectReturn | watcherDone => cases hcode

/-- Running a piece of code that is about another attempt leaves the account alone. -/
theorem Accounted.resume_other (h : d.Accounted k harmed) (phase : d.InPhase awaited)
    (htodo : d.todo = code :: todo) (hcode : code.attempt? ≠ some k) :
    ({ d with todo := todo }.resume code).Accounted k harmed := by
  have popped : ∀ {e : Device} (codes : List DevTodo) {acts : List Act}, e.todo = codes ++ todo →
      codes.filter (·.attempt? = some k) = [] → e.log = d.log ++ acts →
      acts.filter (·.resource? = some k) = [] → e.attempts.count k = d.attempts.count k →
      e.nextAttempt = d.nextAttempt → e.Accounted k harmed :=
    fun codes _ htodo' hcodes hlog hacts hcount next =>
      h.frame [code] codes htodo htodo' (hcodes.trans (filter_of_ne hcode).symm) hlog hacts hcount
        (Nat.le_of_eq next.symm)
  have other : ∀ {j}, code.attempt? = some j → j ≠ k := fun hj h => hcode (h ▸ hj)
  cases code with
  | emit event => exact h.emit htodo hcode event
  | emitState => exact h.emit htodo hcode _
  | handler | connectReturn | watcherDone =>
    exact popped [] rfl rfl (List.append_nil d.log).symm rfl rfl rfl
  | gattConnect j failure =>
    have hj := other rfl
    cases failure with
    | none =>
      have hcount : (d.attempts ++ [j]).count k = d.attempts.count k := by simp [hj]
      exact popped [] rfl rfl rfl (by simp [Act.resource?, hj]) hcount rfl
    | some message =>
      exact popped [.emit (.errorOccured message), .connectFailed j, .emitState] rfl
        (by simp [DevTodo.attempt?, hj]) rfl (by simp [Act.resource?, hj]) rfl rfl
  | connectFailed j =>
    exact popped [] rfl rfl rfl (by simp [Act.resource?, other rfl]) rfl rfl
  | connectError j =>
    have hchannel := (phase.owns_of_actsOn htodo rfl).iochannel
    exact popped [] rfl rfl rfl (by simp [Act.resource?, hchannel, other rfl]) rfl rfl
  | connectEstablish j getFailed imtu cid attribFails =>
    have hj := other rfl
    refine popped [] rfl rfl rfl ?_ rfl rfl
    cases getFailed <;> simp [Act.resource?, hj]
  | connectDone j failed =>
    have hj := other rfl
    refine popped [] rfl rfl rfl ?_ (List.count_erase_of_ne (Ne.symm hj)) rfl
    cases failed <;> simp [Act.resource?, hj]

theorem Accounted.resume (h : d.Accounted k harmed) (phase : d.InPhase awaited)
    (htodo : d.todo = code :: todo) : ({ d with todo := todo }.resume code).Accounted k harmed := by
  by_cases hcode : code.attempt? = some k
  · exact h.resume_self phase htodo hcode
  · exact h.resume_other phase htodo hcode

/-! ### The steps -/

theorem accounted_newdev (evh : Bool) (k : Chan) : (newdev evh).Accounted k false :=
  ⟨.unborn, fun _ => ⟨rfl, rfl, rfl⟩⟩

/-- `lble_connect` begins the course of a new attempt. -/
theorem Accounted.lbleConnect (h : d.Accounted k harmed) (failure : Option String) :
    (d.lbleConnect failure).Accounted k harmed := by
  unfold Device.lbleConnect
  split
  · by_cases hk : d.nextAttempt = k
    · subst hk
      obtain ⟨hcount, htasks, hdealings⟩ := h.unborn (Nat.le_refl _)
      have cycle := h.cycle
      rw [hcount, htasks, hdealings] at cycle
      have hcodes : [DevTodo.emitState, .gattConnect d.nextAttempt failure, .connectReturn].filter
          (·.attempt? = some d.nextAttempt) = [.gattConnect d.nextAttempt failure] := by
        simp [DevTodo.attempt?]
      refine accounted_of_cycle (d := d) _ (Nat.lt_succ_self _) rfl hcodes rfl rfl hcount ?_
      rw [show d.todo.filter (·.attempt? = some d.nextAttempt) = [] from htasks, hdealings]
      cases cycle
      exact .opening failure
    · have hcodes : [DevTodo.emitState, .gattConnect d.nextAttempt failure, .connectReturn].filter
          (·.attempt? = some k) = [] := by
        simp [DevTodo.attempt?, hk]
      exact h.frame [] _ rfl rfl hcodes rfl rfl rfl (Nat.le_succ _)
  · exact h

/-- `lble_disconnect` is about no attempt. -/
theorem Accounted.lbleDisconnect (h : d.Accounted k harmed) :
    d.lbleDisconnect.Accounted k harmed := by
  unfold Device.lbleDisconnect
  split
  · exact h
  · exact h.frame [] [] rfl rfl rfl rfl rfl rfl (Nat.le_refl _)
  · have hacts : (d.attrib.toList.map Act.attribUnref).filter (·.resource? = some k) = [] := by
      cases d.attrib <;> rfl
    exact h.frame [] [.emitState] rfl rfl rfl rfl hacts rfl (Nat.le_refl _)

/-- `channel_watcher` is about no attempt. -/
theorem Accounted.channelWatcher (h : d.Accounted k harmed) (chan : Chan) (cond : GIOCondition) :
    (d.channelWatcher chan cond).Accounted k harmed := by
  have pushed : ∀ {codes : List DevTodo}, codes.filter (·.attempt? = some k) = [] →
      (d.push codes).Accounted k harmed := fun hcodes =>
    h.frame [] _ rfl rfl hcodes (List.append_nil _).symm rfl rfl (Nat.le_refl _)
  unfold Device.channelWatcher
  split_ifs
  · exact (pushed rfl).lbleDisconnect
  · exact pushed rfl
  · exact pushed rfl
  · exact pushed rfl

/-- The outcome of another attempt leaves the account alone. -/
theorem Accounted.connectCb_other (h : d.Accounted k harmed) {j : Chan} (owns : d.Owns j)
    (hj : j ≠ k) (outcome : Outcome) : (d.connectCb j outcome).Accounted k harmed := by
  simp only [Device.connectCb, owns.open_, if_false]
  cases outcome with
  | error message =>
    exact h.frame [] [_, _, _, _] rfl rfl (by simp [DevTodo.attempt?, hj]) rfl
      (by simp [Act.resource?, hj]) rfl (Nat.le_refl _)
  | success getError imtu cid shutdownError attribFails =>
    dsimp only
    split
    · refine h.frame [] [_, _] rfl rfl (by simp [DevTodo.attempt?, hj]) rfl ?_ rfl (Nat.le_refl _)
      cases shutdownError <;> simp [Act.resource?, owns.iochannel, hj]
    · cases getError with
      | none =>
        exact h.frame [] [_, _, _] rfl rfl (by simp [DevTodo.attempt?, hj])
          (List.append_nil _).symm rfl rfl (Nat.le_refl _)
      | some message =>
        exact h.frame [] [_, _, _, _] rfl rfl (by simp [DevTodo.attempt?, hj]) rfl
          (by simp [Act.resource?, hj]) rfl (Nat.le_refl _)

/-- The outcome of the attempt: it comes to harm unless it is harmless. -/
theorem Accounted.connectCb_self (h : d.Accounted k harmed) (owns : d.Owns k)
    (htodo : d.todo = []) (hk : k ∈ d.attempts) (outcome : Outcome) :
    (d.connectCb k outcome).Accounted k
      (harmed || !decide (d.Harmless k (.outcome k outcome))) := by
  have htasks : d.tasks k = [] := by rw [tasks, htodo]; rfl
  have born : k < d.nextAttempt := by
    rw [owns.newest]
    exact Nat.lt_succ_self k
  have cycle := h.cycle
  rw [htasks] at cycle
  have hpos : d.attempts.count k ≠ 0 := Nat.ne_of_gt (List.count_pos_iff.mpr hk)
  obtain ⟨rfl, hcount, hdealings⟩ := cycle.of_inFlight hpos
  -- the attempt was waiting with its channel open
  have going : ∀ {e : Device} {harmed : Bool} {codes codes' : List DevTodo} {acts acts' : List Act},
      e.todo = codes ++ d.todo → codes.filter (·.attempt? = some k) = codes' →
      e.log = d.log ++ acts → acts.filter (·.resource? = some k) = acts' →
      e.attempts = d.attempts → e.nextAttempt = d.nextAttempt →
      Cycle k harmed 1 codes' (.opened k :: acts') → e.Accounted k harmed := by
    intro e harmed codes codes' acts acts' htodo' hcodes hlog hacts hattempts next cycle
    refine accounted_of_cycle codes (next ▸ born) htodo' hcodes hlog hacts
      ((congrArg (List.count k) hattempts).trans hcount) ?_
    rw [show d.todo.filter (·.attempt? = some k) = [] from htasks, List.append_nil, hdealings]
    exact cycle
  simp only [Device.connectCb, owns.open_, if_false, Bool.false_or]
  cases outcome with
  | error message =>
    have harmful : ¬ d.Harmless k (.outcome k (.error message)) := fun h => h rfl
    have hcodes : [DevTodo.emit (.errorOccured message), .connectError k, .emitState,
        .connectDone k true].filter (·.attempt? = some k) =
        [.connectError k, .connectDone k true] := by
      simp [DevTodo.attempt?]
    have hacts : [Act.errorNew k .outcome].filter (·.resource? = some k) =
        [.errorNew k .outcome] := by
      simp [Act.resource?]
    rw [decide_eq_false harmful]
    exact going rfl hcodes rfl hacts rfl rfl .failing
  | success getError imtu cid shutdownError attribFails =>
    dsimp only
    split
    · rename_i hstate
      have harmless : d.Harmless k
          (.outcome k (.success getError imtu cid shutdownError attribFails)) := fun _ => hstate
      have hcodes : [DevTodo.emitState, .connectDone k false].filter (·.attempt? = some k) =
          [.connectDone k false] := by
        simp [DevTodo.attempt?]
      rw [decide_eq_true harmless]
      refine going rfl hcodes rfl ?_ rfl rfl (.closing shutdownError)
      cases shutdownError <;> simp [Act.resource?, owns.iochannel]
    · rename_i hstate
      have harmful : ¬ d.Harmless k
          (.outcome k (.success getError imtu cid shutdownError attribFails)) :=
        fun h => hstate (h rfl)
      rw [decide_eq_false harmful]
      cases getError with
      | none =>
        have hcodes : [DevTodo.connectEstablish k false imtu cid attribFails, .emitState,
            .connectDone k false].filter (·.attempt? = some k) =
            [.connectEstablish k false imtu cid attribFails, .connectDone k false] := by
          simp [DevTodo.attempt?]
        exact going rfl hcodes (List.append_nil _).symm rfl rfl rfl
          (.establishing false imtu cid attribFails)
      | some message =>
        have hcodes : [DevTodo.emit (.errorOccured message),
            .connectEstablish k true imtu cid attribFails, .emitState,
            .connectDone k false].filter (·.attempt? = some k) =
            [.connectEstablish k true imtu cid attribFails, .connectDone k false] := by
          simp [DevTodo.attempt?]
        have hacts : [Act.errorNew k .getOptions].filter (·.resource? = some k) =
            [.errorNew k .getOptions] := by
          simp [Act.resource?]
        exact going rfl hcodes rfl hacts rfl rfl (.establishing true imtu cid attribFails)

/-- **The account goes on** in every step of a run with one attempt at a time. -/
theorem Accounted.step {l : DevLabel} (h : d.Accounted k harmed)
    (phase : ∃ awaited, d.InPhase awaited) (hstep : d.step l = some e) :
    e.Accounted k (harmed || !decide (d.Harmless k l)) := by
  obtain ⟨awaited, phase⟩ := phase
  have harmless : ∀ {l}, d.Harmless k l → (harmed || !decide (d.Harmless k l)) = harmed := by
    intro l hl
    rw [decide_eq_true hl, Bool.not_true, Bool.or_false]
  cases l with
  | call call =>
    obtain ⟨-, rfl⟩ := step_call hstep
    rw [harmless (l := .call call) trivial]
    cases call with
    | connect failure => exact h.lbleConnect failure
    | disconnect => exact h.lbleDisconnect
    | setEventHandler evh =>
      exact h.frame [] [] rfl rfl rfl (List.append_nil _).symm rfl rfl (Nat.le_refl _)
  | ret =>
    obtain ⟨todo, htodo, rfl⟩ := step_ret hstep
    rw [harmless (l := .ret) trivial]
    exact h.resume phase htodo
  | resume =>
    obtain ⟨code, todo, htodo, -, rfl⟩ := step_resume hstep
    rw [harmless (l := .resume) trivial]
    exact h.resume phase htodo
  | outcome j outcome =>
    obtain ⟨htodo, hj, rfl⟩ := step_outcome hstep
    have owns := (phase.owns_of_dispatch htodo hj).2
    by_cases hk : j = k
    · subst hk
      exact h.connectCb_self owns htodo hj outcome
    · have hother : d.Harmless k (.outcome j outcome) := by
        cases outcome with
        | error message => exact hk
        | success => exact fun h => absurd h hk
      rw [harmless hother]
      exact h.connectCb_other owns hk outcome
  | condition chan cond =>
    obtain ⟨-, -, rfl⟩ := step_condition hstep
    rw [harmless (l := .condition chan cond) trivial]
    exact h.channelWatcher chan cond

/-- The account of an attempt after a run, which came to harm unless every step was harmless. -/
theorem accounted_of_run {evh : Bool} {ls : List DevLabel}
    (run : machine.Run OneAttempt (newdev evh) ls d) (k : Chan) : ∃ harmed, d.Accounted k harmed ∧
      (harmed = false ↔
        machine.Run (fun d l => d.OneAttempt l ∧ d.Harmless k l) (newdev evh) ls d) := by
  induction run with
  | nil => exact ⟨false, accounted_newdev evh k, iff_of_true rfl .nil⟩
  | @snoc ls t u l run guard step ih =>
    obtain ⟨harmed, accounted, hharmed⟩ := ih
    have phase := run.invariant ⟨[], inPhase_newdev evh⟩ InPhase.step
    refine ⟨_, accounted.step phase step, ?_⟩
    rw [LabelledMachine.Run.concat_iff, Bool.or_eq_false_iff, hharmed, Bool.not_eq_false',
      decide_eq_true_iff]
    constructor
    · rintro ⟨clean, hl⟩
      exact ⟨t, clean, ⟨guard, hl⟩, step⟩
    · rintro ⟨t', clean, ⟨-, hl⟩, -⟩
      obtain rfl := run.unique clean
      exact ⟨clean, hl⟩

/-! ### The balance -/

/-- Acts on the channel and the errors of an attempt can be counted in its dealings. -/
theorem count_dealings (act : Act) (h : act.resource? = some k) :
    d.log.count act = (d.dealings k).count act :=
  (List.count_filter (by simpa using h)).symm

theorem countP_releases :
    d.log.countP (Act.releases k) = (d.dealings k).countP (Act.releases k) := by
  rw [dealings, List.countP_filter]
  refine List.countP_congr fun act _ => ?_
  cases act with
  | unref _ chan => simp +contextual [Act.releases, Act.resource?]
  | _ => simp [Act.releases]

/-- At its end a cycle is balanced unless its attempt came to harm. -/
theorem Accounted.balanced_iff_harmed (h : d.Accounted k harmed) (isOver : d.Over k) :
    d.Balanced k ↔ harmed = false := by
  have cycle := h.cycle
  rw [isOver.tasks, List.count_eq_zero.mpr isOver.attempts] at cycle
  have opened := count_dealings (d := d) (k := k) (.opened k) rfl
  have made := fun site => count_dealings (d := d) (k := k) (.errorNew k site) rfl
  have freed := fun site => count_dealings (d := d) (k := k) (.errorFree k site) rfl
  have released := countP_releases (d := d) (k := k)
  generalize d.dealings k = l at cycle opened made freed released
  have balanced : l.count (.opened k) ≤ 1 → l.countP (Act.releases k) = l.count (.opened k) →
      (∀ site, l.count (.errorNew k site) ≤ 1 ∧
        l.count (.errorFree k site) = l.count (.errorNew k site)) → d.Balanced k :=
    fun hobtained hreleased herrors =>
      ⟨opened ▸ hobtained, released.trans (hreleased.trans opened.symm),
        fun site => made site ▸ (herrors site).1,
        fun site => (freed site).trans ((herrors site).2.trans (made site).symm)⟩
  cases cycle with
  | unborn => exact iff_of_true (balanced (by simp) (by simp) fun _ => by simp) rfl
  | refused =>
    refine iff_of_true (balanced (by simp) (by simp [Act.releases]) fun site => ?_) rfl
    cases site <;> simp
  | closed shutdownError =>
    refine iff_of_true (balanced ?_ ?_ fun site => ?_) rfl
    · cases shutdownError <;> simp [calledOff]
    · cases shutdownError <;> simp [calledOff, Act.releases]
    · cases shutdownError <;> cases site <;> simp [calledOff]
  | failedDone =>
    -- the error of the outcome was freed by both functions
    refine iff_of_false (fun balanced => ?_) nofun
    have htwice := (freed .outcome).symm.trans ((balanced.freed .outcome).trans (made .outcome))
    simp at htwice
  | establishedDone getFailed =>
    -- the channel reference was not released
    refine iff_of_false (fun balanced => ?_) nofun
    have hreleased := released.symm.trans (balanced.released.trans opened)
    cases getFailed <;> simp [Act.releases] at hreleased

/-- **A connect cycle is balanced** exactly when its attempt fails at once, or is called off and
then succeeds. In every run with one cycle at a time, with calls from inside the event handler too,
and every attempt whose cycle is over, the channel reference was released exactly once and every
error freed exactly once if and only if no failure of the attempt was dispatched, and a success only
after it had been called off. -/
theorem balanced_iff {evh : Bool} {ls : List DevLabel}
    (run : machine.Run OneAttempt (newdev evh) ls d) (isOver : d.Over k) :
    d.Balanced k ↔ machine.Run (fun d l => d.OneAttempt l ∧ d.Harmless k l) (newdev evh) ls d := by
  obtain ⟨harmed, accounted, hharmed⟩ := accounted_of_run run k
  rw [accounted.balanced_iff_harmed isOver, hharmed]

/-- An attempt fails at once, and the next one is called off before it succeeds, with a shutdown
that fails. -/
def balancedRun : Option Device :=
  machine.execGuarded (fun d l => d.OneAttempt l ∧ d.Harmless 1 l) (newdev true)
    [.call (.connect (some "no route")), .resume, .ret, .resume, .resume, .ret, .resume, .resume,
      .ret, .resume, .call (.connect none), .resume, .ret, .resume, .resume, .call .disconnect,
      .outcome 1 (.success none 0 4 true false), .resume, .ret, .resume]

theorem balanced_iff_balancedRun : ∃ d, balancedRun = some d ∧
    d.dealings 1 = [.opened 1, .errorNew 1 .shutdown, .errorFree 1 .shutdown, .unref 1 (some 1)] ∧
    d.Balanced 1 := by
  have hrun : balancedRun.map (fun d => (d.tasks 1, d.attempts, d.connState, d.dealings 1)) =
      some ([], [], .disconnected, [.opened 1, .errorNew 1 .shutdown, .errorFree 1 .shutdown,
        .unref 1 (some 1)]) := by decide
  obtain ⟨d, hd, hdata⟩ := Option.map_eq_some_iff.mp hrun
  simp only [Prod.mk.injEq] at hdata
  obtain ⟨htasks, hattempts, hstate, hdealings⟩ := hdata
  have isOver : d.Over 1 := ⟨htasks, hattempts ▸ List.not_mem_nil, fun _ => hstate⟩
  have run := machine.run_of_execGuarded hd
  exact ⟨d, hd, hdealings, (balanced_iff (run.mono And.left) isOver).mpr run⟩

/-- An attempt fails, and the next one succeeds and is disconnected. -/
def lossyRun : Option Device :=
  machine.execGuarded OneAttempt (newdev true)
    [.call (.connect none), .resume, .ret, .resume, .resume, .outcome 0 (.error "timeout"), .resume,
      .ret, .resume, .resume, .ret, .resume, .call (.connect none), .resume, .ret, .resume, .resume,
      .outcome 1 (.success none 0 4 false false), .resume, .resume, .ret, .resume,
      .call .disconnect, .resume, .ret]

/-- The error of the failed attempt is freed twice, and the channel of the connection is never
released. -/
theorem not_balanced_lossyRun : ∃ d, lossyRun = some d ∧ d.Over 0 ∧ d.Over 1 ∧
    d.dealings 0 = [.opened 0, .errorNew 0 .outcome, .errorFree 0 .outcome, .unref 0 (some 0),
      .errorFree 0 .outcome] ∧
    d.dealings 1 = [.opened 1] ∧ ¬ d.Balanced 0 ∧ ¬ d.Balanced 1 := by
  have hrun : lossyRun.map (fun d => (d.tasks 0, d.tasks 1, d.attempts, d.connState)) =
      some ([], [], [], .disconnected) := by decide
  have hrun' : lossyRun.map (fun d => (d.dealings 0, d.dealings 1)) =
      some ([.opened 0, .errorNew 0 .outcome, .errorFree 0 .outcome, .unref 0 (some 0),
        .errorFree 0 .outcome], [.opened 1]) := by decide
  obtain ⟨d, hd, hdata⟩ := Option.map_eq_some_iff.mp hrun
  rw [hd, Option.map_some, Option.some.injEq] at hrun'
  simp only [Prod.mk.injEq] at hdata hrun'
  obtain ⟨htasks, htasks', hattempts, hstate⟩ := hdata
  obtain ⟨hdealings, hdealings'⟩ := hrun'
  refine ⟨d, hd, ⟨htasks, hattempts ▸ List.not_mem_nil, fun _ => hstate⟩,
    ⟨htasks', hattempts ▸ List.not_mem_nil, fun _ => hstate⟩, hdealings, hdealings',
    fun balanced => ?_, fun balanced => ?_⟩
  · have freed := balanced.freed .outcome
    rw [count_dealings (k := 0) _ rfl, count_dealings (k := 0) _ rfl, hdealings] at freed
    exact absurd freed (by decide)
  · have released := balanced.released
    rw [countP_releases, count_dealings (k := 1) _ rfl, hdealings'] at released
    exact absurd released (by decide)

end Device

end Libble

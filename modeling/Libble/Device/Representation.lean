import Libble.Device.Attempt

/-!
# The representation invariant of the device handle

The fields `conn_state`, `iochannel` and `attrib` of `devh_t` and the attempts in flight stay
consistent as long as an application keeps to a single attempt: it does not call `lble_connect`
while an earlier attempt is in flight or another call of `lble_connect` is executing
(`Device.SingleAttempt`), and `g_attrib_new` does not fail (`Device.AttribMade`). The discipline
implies the weaker one of `Libble.Device.Attempt`, so that the phases describe these runs too.

## Main definitions

* `Device.SingleAttempt`, `Device.AttribMade`: the guards.
* `Device.AtRest`: the invariant between top-level calls and dispatches.
* `Act.UsesChannel`, `Act.UsesAttrib`: the code did not use a null pointer.

## Main results

* `Device.Consistent.step`: every guarded step preserves the invariant.
* `Device.representation`: the invariant of every run.
-/

namespace Libble

namespace DevTodo

/-- A pending `g_attrib_new` will not fail. -/
def MakesAttrib : DevTodo → Prop
  | .connectEstablish _ _ _ _ attribFails => attribFails = false
  | _ => True

/-- What lies under a piece of code on the stack: the function that it is a piece of returns
later. -/
def Enclosed : DevTodo → List DevTodo → Prop
  | .gattConnect .., todo | .connectFailed _, todo => .connectReturn ∈ todo
  | .connectError k, todo | .connectEstablish k .., todo => ∃ failed, .connectDone k failed ∈ todo
  | _, _ => True

end DevTodo

/-- The act of `connect_cb`, if it is one, was not done to a null channel. -/
def Act.UsesChannel : Act → Prop
  | .shutdown _ chan | .unref _ chan | .watch _ chan => chan ≠ none
  | _ => True

namespace Device

/-- `lble_connect` is called only when no attempt is in flight and no other call of it is
executing. -/
def SingleAttempt (d : Device) : DevLabel → Prop
  | .call (.connect _) => d.attempts = [] ∧ .connectReturn ∉ d.todo
  | _ => True

/-- `g_attrib_new` does not fail. -/
def AttribMade : DevLabel → Prop
  | .outcome _ (.success _ _ _ _ attribFails) => attribFails = false
  | _ => True

/-- The representation invariant between top-level calls and main-loop dispatches. -/
structure AtRest (d : Device) : Prop where
  /-- The attribute client exists exactly while the state is `STATE_CONNECTED`. -/
  attrib_iff : d.attrib ≠ none ↔ d.connState = .connected
  /-- `STATE_CONNECTING` means that an attempt is in flight. -/
  attempts_of_connecting : d.connState = .connecting → d.attempts ≠ []
  /-- The handle holds the channel of the attempt in flight and no attribute client. -/
  iochannel_of_attempt : ∀ k ∈ d.attempts, d.iochannel = some k ∧ d.attrib = none

/-- What holds in every state of these runs, besides the phase. -/
structure Consistent (d : Device) : Prop where
  attrib_iff : d.attrib ≠ none ↔ d.connState = .connected
  makesAttrib : ∀ code ∈ d.todo, code.MakesAttrib
  usesChannel : ∀ act ∈ d.log, act.UsesChannel
  phase : ∃ awaited, d.InPhase awaited

/-- Every piece of code on the stack is enclosed in its function. -/
def StackEnclosed : List DevTodo → Prop
  | [] => True
  | code :: todo => code.Enclosed todo ∧ StackEnclosed todo

variable {d e : Device} {l : DevLabel}

/-! ### The single attempt discipline -/

theorem StackEnclosed.enclosed : ∀ {todo : List DevTodo}, StackEnclosed todo →
    ∀ {code}, code ∈ todo → code.Enclosed todo
  | top :: todo, ⟨first, rest⟩, code, hcode => by
    -- what is enclosed stays enclosed under more code
    have weaken : code.Enclosed todo → code.Enclosed (top :: todo) := by
      cases code <;> simp only [DevTodo.Enclosed, imp_self, List.mem_cons]
      all_goals first
        | exact .inr
        | exact fun ⟨failed, h⟩ => ⟨failed, .inr h⟩
    rcases List.mem_cons.mp hcode with rfl | hcode
    · exact weaken first
    · exact weaken (rest.enclosed hcode)

theorem stackEnclosed_emit (h : StackEnclosed d.todo) (event : Event) :
    StackEnclosed (d.emit event).todo := by
  rcases d.emit_cases event with he | he <;> rw [he]
  · exact h
  · exact ⟨trivial, h⟩

theorem stackEnclosed_lbleDisconnect (h : StackEnclosed d.todo) :
    StackEnclosed d.lbleDisconnect.todo := by
  unfold lbleDisconnect
  split
  · exact h
  · exact h
  · exact ⟨trivial, h⟩

/-- Every step keeps the stack enclosed. -/
theorem StackEnclosed.step (h : StackEnclosed d.todo) (hstep : d.step l = some e) :
    StackEnclosed e.todo := by
  cases l with
  | call call =>
    obtain ⟨-, rfl⟩ := step_call hstep
    cases call with
    | connect failure =>
      simp only [Device.call, lbleConnect]
      split
      · exact ⟨trivial, List.mem_cons_self .., trivial, h⟩
      · exact h
    | disconnect => exact stackEnclosed_lbleDisconnect h
    | setEventHandler evh => exact h
  | ret =>
    obtain ⟨todo, htodo, rfl⟩ := step_ret hstep
    rw [htodo] at h
    exact h.2
  | resume =>
    obtain ⟨code, todo, htodo, -, rfl⟩ := step_resume hstep
    rw [htodo] at h
    obtain ⟨top, h⟩ := h
    cases code with
    | emit event => exact stackEnclosed_emit (d := { d with todo := todo }) h event
    | emitState => exact stackEnclosed_emit (d := { d with todo := todo }) h _
    | gattConnect k failure =>
      cases failure with
      | none => exact h
      | some message => exact ⟨trivial, List.mem_cons_of_mem _ top, trivial, h⟩
    | handler | connectFailed | connectReturn | connectError | connectEstablish | connectDone
      | watcherDone => exact h
  | outcome k outcome =>
    obtain ⟨htodo, -, rfl⟩ := step_outcome hstep
    unfold connectCb
    split
    · exact h
    · cases outcome with
      | error message => exact ⟨trivial, ⟨true, by simp⟩, trivial, trivial, h⟩
      | success getError imtu cid shutdownError attribFails =>
        dsimp only
        split
        · exact ⟨trivial, trivial, h⟩
        · cases getError with
          | none => exact ⟨⟨false, by simp⟩, trivial, trivial, h⟩
          | some message => exact ⟨trivial, ⟨false, by simp⟩, trivial, trivial, h⟩
  | condition chan cond =>
    obtain ⟨-, -, rfl⟩ := step_condition hstep
    unfold channelWatcher
    split_ifs
    · exact stackEnclosed_lbleDisconnect (d := d.push [.watcherDone chan]) ⟨trivial, h⟩
    · exact ⟨trivial, trivial, h⟩
    · exact ⟨trivial, trivial, h⟩
    · exact ⟨trivial, h⟩

/-- The discipline leaves nothing to be done about earlier attempts. -/
theorem oneAttempt_of_singleAttempt {awaited : List Chan} (h : d.InPhase awaited)
    (stack : StackEnclosed d.todo) (guard : d.SingleAttempt l) : d.OneAttempt l := by
  cases l with
  | call call =>
    cases call with
    | connect failure =>
      obtain ⟨hattempts, hreturn⟩ := guard
      obtain ⟨hreturning, hawaited⟩ := List.append_eq_nil_iff.mp (h.attempts.symm.trans hattempts)
      have hmem : ∀ {code rest}, d.work = code :: rest → code.Enclosed d.todo := fun hw =>
        stack.enclosed (List.mem_filter.mp (hw ▸ List.mem_cons_self .. : _ ∈ d.work)).1
      have hdone : ∀ {k failed}, DevTodo.connectDone k failed ∉ d.todo := fun hd => by
        have : _ ∈ d.returning := List.mem_filterMap.mpr ⟨_, hd, rfl⟩
        simp [hreturning] at this
      refine ⟨?_, by rw [hattempts, hreturning]⟩
      cases h.phase with
      | idle w | waiting _ w => exact w
      | opening _ _ w | failed _ w => exact absurd (hmem w) hreturn
      | error _ w | establish _ _ _ _ _ w =>
        obtain ⟨failed, hd⟩ := hmem w
        exact absurd hd hdone
    | disconnect | setEventHandler => trivial
  | ret | resume | outcome | condition => trivial

/-! ### The invariant -/

theorem consistent_newdev (evh : Bool) : (newdev evh).Consistent :=
  ⟨by simp [newdev], nofun, nofun, [], inPhase_newdev evh⟩

theorem Consistent.emit (h : d.Consistent) (event : Event) : (d.emit event).Consistent := by
  obtain ⟨hattrib, hmade, huses, awaited, hphase⟩ := h
  have phase := hphase.emit event
  rcases d.emit_cases event with he | he <;> rw [he] at phase ⊢
  · exact ⟨hattrib, hmade, huses, awaited, hphase⟩
  · refine ⟨hattrib, List.forall_mem_cons.mpr ⟨trivial, hmade⟩, ?_, awaited, phase⟩
    exact List.forall_mem_append.mpr ⟨huses, List.forall_mem_singleton.mpr trivial⟩

/-- `lble_disconnect` drops the attribute client together with the state. -/
theorem Consistent.lbleDisconnect (h : d.Consistent) : d.lbleDisconnect.Consistent := by
  obtain ⟨hattrib, hmade, huses, awaited, hphase⟩ := h
  have phase := hphase.lbleDisconnect
  unfold Device.lbleDisconnect at phase ⊢
  cases hstate : d.connState with
  | disconnected => exact ⟨hattrib, hmade, huses, awaited, hphase⟩
  | connecting =>
    rw [hstate] at phase
    refine ⟨by simpa [record, hstate] using hattrib, hmade, ?_, awaited, phase⟩
    exact List.forall_mem_append.mpr ⟨huses, List.forall_mem_singleton.mpr trivial⟩
  | connected =>
    rw [hstate] at phase
    refine ⟨by simp, List.forall_mem_cons.mpr ⟨trivial, hmade⟩, ?_, awaited, phase⟩
    refine List.forall_mem_append.mpr ⟨huses, ?_⟩
    cases d.attrib <;> simp [Act.UsesChannel]

/-- The calls preserve the invariant. -/
theorem Consistent.call (h : d.Consistent) (call : DevCall) (guard : d.OneAttempt (.call call)) :
    (d.call call).Consistent := by
  cases call with
  | connect failure =>
    obtain ⟨hattrib, hmade, huses, awaited, hphase⟩ := h
    have phase := hphase.lbleConnect failure guard.1 guard.2
    simp only [Device.call]
    unfold Device.lbleConnect at phase ⊢
    split
    · rename_i hstate
      rw [if_pos hstate] at phase
      refine ⟨by simpa [push, record, hstate] using hattrib, ?_, ?_, awaited, phase⟩
      · exact List.forall_mem_append.mpr ⟨by simp [DevTodo.MakesAttrib], hmade⟩
      · exact List.forall_mem_append.mpr ⟨huses, List.forall_mem_singleton.mpr trivial⟩
    · exact ⟨hattrib, hmade, huses, awaited, hphase⟩
  | disconnect => exact h.lbleDisconnect
  | setEventHandler evh =>
    obtain ⟨hattrib, hmade, huses, awaited, hphase⟩ := h
    exact ⟨hattrib, hmade, huses, awaited, hphase.congr rfl rfl rfl rfl rfl rfl rfl⟩

/-- `connect_cb` finds the channel of its attempt in the handle. -/
theorem Consistent.connectCb (h : d.Consistent) (htodo : d.todo = []) {k : Chan}
    (hk : k ∈ d.attempts) (outcome : Outcome) (guard : AttribMade (.outcome k outcome)) :
    (d.connectCb k outcome).Consistent := by
  obtain ⟨hattrib, hmade, huses, awaited, hphase⟩ := h
  obtain ⟨rfl, owns⟩ := hphase.owns_of_dispatch htodo hk
  have phase := hphase.connectCb htodo hk outcome
  simp only [Device.connectCb, owns.open_, if_false] at phase ⊢
  cases outcome with
  | error message =>
    refine ⟨hattrib, ?_, ?_, [], phase⟩
    · exact List.forall_mem_append.mpr ⟨by simp [DevTodo.MakesAttrib], hmade⟩
    · exact List.forall_mem_append.mpr ⟨huses, List.forall_mem_singleton.mpr trivial⟩
  | success getError imtu cid shutdownError attribFails =>
    obtain rfl : attribFails = false := guard
    dsimp only at phase ⊢
    split
    · rename_i hstate
      rw [if_pos hstate] at phase
      refine ⟨hattrib, ?_, ?_, [], phase⟩
      · exact List.forall_mem_append.mpr ⟨by simp [DevTodo.MakesAttrib], hmade⟩
      · refine List.forall_mem_append.mpr ⟨huses, ?_⟩
        rw [owns.iochannel]
        cases shutdownError <;> simp [Act.UsesChannel]
    · rename_i hstate
      rw [if_neg hstate] at phase
      cases getError with
      | none =>
        refine ⟨hattrib, ?_, huses, [], phase⟩
        exact List.forall_mem_append.mpr ⟨by simp [DevTodo.MakesAttrib], hmade⟩
      | some message =>
        refine ⟨hattrib, ?_, ?_, [], phase⟩
        · exact List.forall_mem_append.mpr ⟨by simp [DevTodo.MakesAttrib], hmade⟩
        · exact List.forall_mem_append.mpr ⟨huses, List.forall_mem_singleton.mpr trivial⟩

/-- `channel_watcher` preserves the invariant, whatever watch it belongs to. -/
theorem Consistent.channelWatcher (h : d.Consistent) (chan : Chan) (cond : GIOCondition) :
    (d.channelWatcher chan cond).Consistent := by
  have pushed : ∀ {codes : List DevTodo}, (∀ code ∈ codes, code.MakesAttrib) →
      codes.filter DevTodo.isWork = [] → codes.filterMap DevTodo.returningOf = [] →
      (d.push codes).Consistent := by
    intro codes hmade hwork hreturning
    obtain ⟨awaited, hphase⟩ := h.phase
    exact ⟨h.attrib_iff, List.forall_mem_append.mpr ⟨hmade, h.makesAttrib⟩, h.usesChannel,
      awaited, hphase.push hwork hreturning⟩
  unfold Device.channelWatcher
  split_ifs
  · exact (pushed (by simp [DevTodo.MakesAttrib]) rfl rfl).lbleDisconnect
  · exact pushed (by simp [DevTodo.MakesAttrib]) rfl rfl
  · exact pushed (by simp [DevTodo.MakesAttrib]) rfl rfl
  · exact pushed (by simp [DevTodo.MakesAttrib]) rfl rfl

/-- Without a connection there is no attribute client. -/
theorem Consistent.attrib_eq_none (h : d.Consistent) (state : d.connState ≠ .connected) :
    d.attrib = none := by
  by_contra hne
  exact state (h.attrib_iff.mp hne)

/-- Running a suspended piece of code preserves the invariant. -/
theorem Consistent.resume (h : d.Consistent) {code : DevTodo} {todo : List DevTodo}
    (htodo : d.todo = code :: todo) : ({ d with todo := todo }.resume code).Consistent := by
  obtain ⟨hattrib, hmade, huses, awaited, hphase⟩ := id h
  have phase := hphase.resume htodo
  rw [htodo, List.forall_mem_cons] at hmade
  obtain ⟨hcode, hmade⟩ := hmade
  cases code with
  | emit event =>
    exact Consistent.emit (d := { d with todo := todo })
      ⟨hattrib, hmade, huses, awaited, hphase.pop htodo rfl rfl⟩ event
  | emitState =>
    exact Consistent.emit (d := { d with todo := todo })
      ⟨hattrib, hmade, huses, awaited, hphase.pop htodo rfl rfl⟩ _
  | handler | connectReturn | watcherDone => exact ⟨hattrib, hmade, huses, phase⟩
  | connectDone k failed =>
    refine ⟨hattrib, hmade, List.forall_mem_append.mpr ⟨huses, ?_⟩, phase⟩
    cases failed <;> simp [Act.UsesChannel]
  | gattConnect k failure =>
    cases failure with
    | none =>
      exact ⟨hattrib, hmade, List.forall_mem_append.mpr
        ⟨huses, List.forall_mem_singleton.mpr trivial⟩, phase⟩
    | some message =>
      exact ⟨hattrib, List.forall_mem_append.mpr ⟨by simp [DevTodo.MakesAttrib], hmade⟩,
        List.forall_mem_append.mpr ⟨huses, List.forall_mem_singleton.mpr trivial⟩, phase⟩
  | connectFailed k =>
    have none := h.attrib_eq_none (hphase.not_connected htodo rfl)
    exact ⟨by simp [Device.resume, record, none], hmade, List.forall_mem_append.mpr
      ⟨huses, List.forall_mem_singleton.mpr trivial⟩, phase⟩
  | connectError k =>
    have none := h.attrib_eq_none (hphase.not_connected htodo rfl)
    have owns := hphase.owns_of_actsOn htodo rfl
    refine ⟨by simp [Device.resume, record, none], hmade, ?_, phase⟩
    refine List.forall_mem_append.mpr ⟨huses, ?_⟩
    simp [Act.UsesChannel, owns.iochannel]
  | connectEstablish k getFailed imtu cid attribFails =>
    obtain rfl : attribFails = false := hcode
    have owns := hphase.owns_of_actsOn htodo rfl
    refine ⟨by simp [Device.resume], hmade, ?_, phase⟩
    refine List.forall_mem_append.mpr ⟨huses, ?_⟩
    cases getFailed <;> simp [Act.UsesChannel, owns.iochannel]

/-- **The invariant is preserved** by every step with one attempt at a time in which
`g_attrib_new` does not fail. -/
theorem Consistent.step (h : d.Consistent) (guard : d.OneAttempt l) (made : AttribMade l)
    (hstep : d.step l = some e) : e.Consistent := by
  cases l with
  | call call =>
    obtain ⟨-, rfl⟩ := step_call hstep
    exact h.call call guard
  | ret =>
    obtain ⟨todo, htodo, rfl⟩ := step_ret hstep
    exact h.resume htodo
  | resume =>
    obtain ⟨code, todo, htodo, -, rfl⟩ := step_resume hstep
    exact h.resume htodo
  | outcome k outcome =>
    obtain ⟨htodo, hk, rfl⟩ := step_outcome hstep
    exact h.connectCb htodo hk outcome made
  | condition chan cond =>
    obtain ⟨-, -, rfl⟩ := step_condition hstep
    exact h.channelWatcher chan cond

/-- The invariant of all states is `Device.AtRest` between top-level calls and dispatches. -/
theorem Consistent.atRest (h : d.Consistent) (htodo : d.todo = []) : d.AtRest := by
  obtain ⟨awaited, hphase⟩ := h.phase
  have hattempts : d.attempts = awaited := by
    rw [hphase.attempts, returning, htodo]
    rfl
  refine ⟨h.attrib_iff, fun state => ?_, fun k hk => ?_⟩
  · -- no code is suspended, so the phase is idle or waiting
    cases hphase.phase with
    | idle _ s => exact absurd state s
    | waiting k _ _ => simp [hattempts]
    | opening _ _ w | failed _ w | error _ w | establish _ _ _ _ _ w => simp [work, htodo] at w
  · obtain ⟨-, owns⟩ := hphase.owns_of_dispatch htodo hk
    exact ⟨owns.iochannel, h.attrib_eq_none owns.not_connected⟩

/-- **The representation invariant.** In every run with a single attempt in which `g_attrib_new`
does not fail, the fields of the handle and the attempts in flight are consistent whenever no
library code is running, a connected handle has an attribute client in every state, so also when
the event handler calls the library, and `connect_cb` has never used a null channel. -/
theorem representation {evh : Bool} {ls : List DevLabel}
    (run : machine.Run (fun d l => d.SingleAttempt l ∧ AttribMade l) (newdev evh) ls d) :
    (d.todo = [] → d.AtRest) ∧ (d.connState = .connected → d.attrib ≠ none) ∧
      ∀ act ∈ d.log, act.UsesChannel := by
  have invariant : d.Consistent ∧ StackEnclosed d.todo := by
    refine run.invariant (P := fun d : Device => d.Consistent ∧ StackEnclosed d.todo)
      ⟨consistent_newdev evh, trivial⟩ ?_
    intro d l e h guard hstep
    obtain ⟨awaited, hphase⟩ := h.1.phase
    exact ⟨h.1.step (oneAttempt_of_singleAttempt hphase h.2 guard.1) guard.2 hstep,
      h.2.step hstep⟩
  exact ⟨invariant.1.atRest, invariant.1.attrib_iff.mpr, invariant.1.usesChannel⟩

instance (d : Device) (l : DevLabel) : Decidable (d.SingleAttempt l ∧ AttribMade l) :=
  match l with
  | .call (.connect _) => inferInstanceAs (Decidable ((_ ∧ _) ∧ True))
  | .outcome _ (.success _ _ _ _ attribFails) =>
    inferInstanceAs (Decidable (True ∧ attribFails = false))
  | .call .disconnect | .call (.setEventHandler _) => .isTrue ⟨trivial, trivial⟩
  | .outcome _ (.error _) | .ret | .resume | .condition .. => .isTrue ⟨trivial, trivial⟩

/-- A run in which `bt_io_get` fails and the event handler, called with the error,
disconnects. -/
def reentrantRun : Option Device :=
  machine.execGuarded (fun d l => d.SingleAttempt l ∧ AttribMade l) (newdev true)
    [.call (.connect none), .resume, .ret, .resume, .resume,
      .outcome 0 (.success (some "io") 0 0 false false), .resume, .call .disconnect, .ret,
      .resume, .resume, .ret, .resume]

theorem representation_reentrantRun : ∃ d, reentrantRun = some d ∧
    (d.todo = [] ∧ d.connState = .connected) ∧ (d.todo = [] → d.AtRest) ∧
      (d.connState = .connected → d.attrib ≠ none) ∧ ∀ act ∈ d.log, act.UsesChannel := by
  have hrun : reentrantRun.map (fun d => (d.todo, d.connState)) = some ([], .connected) := by
    decide
  obtain ⟨d, hd, heq⟩ := Option.map_eq_some_iff.mp hrun
  exact ⟨d, hd, Prod.mk.inj heq, representation (machine.run_of_execGuarded hd)⟩

end Device

end Libble

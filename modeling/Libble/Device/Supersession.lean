import Libble.Device.Attempt

/-!
# Superseded connect attempts

`lble_disconnect` calls an attempt off by setting `conn_state` only: the attempt stays in flight,
and `connect_cb` decides by the shared fields of the handle what to do with its outcome. This
file says when the outcome of an attempt leaves the other attempts alone. That fails when a new
attempt is started while the outcome of an earlier one is still to be acted upon, and when the
event handler disconnects inside the error event of `connect_cb`; in all other runs every outcome
acts on the channel of its own attempt only.

## Main definitions

* `Act.Lawful`, `SeparateOutcomes`: what the outcome of an attempt may do.
* `Device.NotCalledOff`: the guard on `lble_disconnect`.

## Main results

* `Device.Apart.step`: every guarded step preserves the invariant.
* `Device.separateOutcomes`: in every guarded run the outcomes are separate.
* `Device.not_separateOutcomes_supersededRun`: a superseded attempt makes the connection.
-/

namespace Libble

/-- What the code may do after `past`: `connect_cb` called for an attempt acts on the channel of
this attempt only, makes a connection only if the attempt was not called off and is the newest
one, and drops the state of the handle only if it is the newest one. -/
def Act.Lawful (past : List Act) : Act → Prop
  | .shutdown k chan | .unref k chan | .watch k chan => chan = some k
  | .established k => .cancelled k ∉ past ∧ ∀ j, .started j ∈ past → j ≤ k
  | .dropped k => ∀ j, .started j ∈ past → j ≤ k
  | _ => True

/-- No outcome of an attempt touched another attempt. -/
def SeparateOutcomes (log : List Act) : Prop :=
  ∀ past act rest, log = past ++ act :: rest → act.Lawful past

/-- The act neither starts an attempt nor calls it off. -/
def Act.Quiet : Act → Prop
  | .started _ | .cancelled _ => False
  | _ => True

variable {log acts : List Act} {act : Act}

theorem SeparateOutcomes.concat (h : SeparateOutcomes log) (lawful : act.Lawful log) :
    SeparateOutcomes (log ++ [act]) := by
  intro past a rest heq
  rcases List.eq_nil_or_concat rest with rfl | ⟨rest, last, rfl⟩
  · obtain ⟨rfl, ha⟩ := List.append_inj' heq rfl
    exact (List.cons.inj ha).1 ▸ lawful
  · rw [List.concat_eq_append, ← List.cons_append, ← List.append_assoc] at heq
    exact h past a rest (List.append_inj' heq rfl).1

/-- What is lawful does not depend on the quiet acts before it. -/
theorem Act.Lawful.append {past more : List Act} (h : act.Lawful past)
    (quiet : ∀ a ∈ more, a.Quiet) : act.Lawful (past ++ more) := by
  have started : ∀ {j}, Act.started j ∈ past ++ more → .started j ∈ past := fun hj =>
    (List.mem_append.mp hj).resolve_right fun hj => quiet _ hj
  have cancelled : ∀ {j}, Act.cancelled j ∈ past ++ more → .cancelled j ∈ past := fun hj =>
    (List.mem_append.mp hj).resolve_right fun hj => quiet _ hj
  cases act with
  | shutdown k chan | unref k chan | watch k chan => exact h
  | established k => exact ⟨fun hk => h.1 (cancelled hk), fun j hj => h.2 j (started hj)⟩
  | dropped k => exact fun j hj => h j (started hj)
  | event | started | cancelled | opened | attribNew | attribUnref | errorNew | errorFree =>
    trivial

theorem SeparateOutcomes.append (h : SeparateOutcomes log) (lawful : ∀ a ∈ acts, a.Lawful log)
    (quiet : ∀ a ∈ acts, a.Quiet) : SeparateOutcomes (log ++ acts) := by
  induction acts generalizing log with
  | nil => simpa using h
  | cons a acts ih =>
    rw [List.forall_mem_cons] at lawful quiet
    have lawful' : ∀ b ∈ acts, b.Lawful (log ++ [a]) := fun b hb =>
      (lawful.2 b hb).append (List.forall_mem_singleton.mpr quiet.1)
    have := ih (h.concat lawful.1) lawful' quiet.2
    rwa [List.append_assoc, List.singleton_append] at this

/-- The code is the rest of `connect_cb` that makes the connection. -/
def DevTodo.isEstablish : DevTodo → Bool
  | .connectEstablish .. => true
  | _ => false

theorem DevTodo.isWork_of_isEstablish {code : DevTodo} (h : code.isEstablish = true) :
    code.isWork = true := by
  cases code <;> first | rfl | cases h

namespace Device

/-- `lble_disconnect` is not called inside the error event with which `connect_cb` reports that
`bt_io_get` failed: no connection is about to be made. -/
def NotCalledOff (d : Device) : DevLabel → Prop
  | .call .disconnect => ∀ code ∈ d.todo, code.isEstablish = false
  | _ => True

instance (d : Device) (l : DevLabel) : Decidable (d.NotCalledOff l) :=
  match l with
  | .call .disconnect => inferInstanceAs (Decidable (∀ code ∈ d.todo, _))
  | .call (.connect _) | .call (.setEventHandler _) => .isTrue trivial
  | .ret | .resume | .outcome .. | .condition .. => .isTrue trivial

/-- What the record, the state of the handle and the suspended pieces of `connect_cb` have to do
with each other. -/
structure Apart (d : Device) : Prop where
  phase : ∃ awaited, d.InPhase awaited
  separate : SeparateOutcomes d.log
  started_lt : ∀ k, .started k ∈ d.log → k < d.nextAttempt
  cancelled_lt : ∀ k, .cancelled k ∈ d.log → k < d.nextAttempt
  /-- While the state is `STATE_CONNECTING` the newest attempt has not been called off. -/
  connecting : d.connState = .connecting →
    ∃ k, d.nextAttempt = k + 1 ∧ .cancelled k ∉ d.log
  /-- A connection is about to be made in `STATE_CONNECTING` only. -/
  establishing : ∀ code ∈ d.todo, code.isEstablish = true → d.connState = .connecting

variable {d e : Device} {l : DevLabel}

theorem apart_newdev (evh : Bool) : (newdev evh).Apart :=
  ⟨⟨[], inPhase_newdev evh⟩, fun past act rest h => by simp [newdev] at h, nofun, nofun, nofun,
    nofun⟩

/-- The invariant is preserved when quiet, lawful acts are recorded, the state does not become
`STATE_CONNECTING` and no connection comes to be about to be made. -/
theorem Apart.quiet (h : d.Apart) (phase : ∃ awaited, e.InPhase awaited) {acts : List Act}
    (log : e.log = d.log ++ acts) (lawful : ∀ a ∈ acts, a.Lawful d.log)
    (quiet : ∀ a ∈ acts, a.Quiet) (next : e.nextAttempt = d.nextAttempt)
    (state : e.connState = .connecting → d.connState = .connecting)
    (establishing : ∀ code ∈ e.todo, code.isEstablish = true → e.connState = .connecting) :
    e.Apart where
  phase := phase
  separate := log ▸ h.separate.append lawful quiet
  started_lt k hk := by
    rw [next]
    rw [log, List.mem_append] at hk
    exact hk.elim (h.started_lt k) fun hk => absurd (quiet _ hk) id
  cancelled_lt k hk := by
    rw [next]
    rw [log, List.mem_append] at hk
    exact hk.elim (h.cancelled_lt k) fun hk => absurd (quiet _ hk) id
  connecting hstate := by
    obtain ⟨k, hk, hcancelled⟩ := h.connecting (state hstate)
    refine ⟨k, next.trans hk, fun hmem => ?_⟩
    rw [log, List.mem_append] at hmem
    exact hmem.elim hcancelled fun hmem => absurd (quiet _ hmem) id
  establishing := establishing

theorem Apart.emit (h : d.Apart) (event : Event) : (d.emit event).Apart := by
  obtain ⟨awaited, hphase⟩ := h.phase
  have phase := hphase.emit event
  rcases d.emit_cases event with he | he <;> rw [he] at phase ⊢
  · exact h
  · refine h.quiet ⟨awaited, phase⟩ rfl (by simp [Act.Lawful]) (by simp [Act.Quiet]) rfl id ?_
    exact List.forall_mem_cons.mpr ⟨nofun, h.establishing⟩

/-- `lble_connect` starts an attempt that is newer than all others. -/
theorem Apart.lbleConnect (h : d.Apart) (failure : Option String)
    (guard : d.OneAttempt (.call (.connect failure))) : (d.lbleConnect failure).Apart := by
  obtain ⟨awaited, hphase⟩ := h.phase
  have phase := hphase.lbleConnect failure guard.1 guard.2
  unfold Device.lbleConnect at phase ⊢
  split
  · rename_i hstate
    rw [if_pos hstate] at phase
    refine ⟨⟨awaited, phase⟩, h.separate.concat trivial, fun k hk => ?_, fun k hk => ?_,
      fun _ => ⟨d.nextAttempt, rfl, fun hk => ?_⟩, fun _ _ _ => rfl⟩
    · rcases List.mem_append.mp hk with hk | hk
      · exact Nat.lt_succ_of_lt (h.started_lt k hk)
      · cases List.mem_singleton.mp hk
        exact Nat.lt_succ_self _
    · refine Nat.lt_succ_of_lt (h.cancelled_lt k ?_)
      exact (List.mem_append.mp hk).resolve_right (by simp)
    · refine Nat.lt_irrefl _ (h.cancelled_lt _ ?_)
      exact (List.mem_append.mp hk).resolve_right (by simp)
  · exact h

/-- `lble_disconnect` calls the newest attempt off. -/
theorem Apart.lbleDisconnect (h : d.Apart) (guard : d.NotCalledOff (.call .disconnect)) :
    d.lbleDisconnect.Apart := by
  obtain ⟨awaited, hphase⟩ := h.phase
  have phase := hphase.lbleDisconnect
  unfold Device.lbleDisconnect at phase ⊢
  cases hstate : d.connState with
  | disconnected => exact h
  | connecting =>
    rw [hstate] at phase
    obtain ⟨j, hj, -⟩ := h.connecting hstate
    refine ⟨⟨awaited, phase⟩, h.separate.concat trivial, fun k hk => ?_, fun k hk => ?_, nofun,
      fun code hmem hcode => absurd hcode (by simp [guard code hmem])⟩
    · exact h.started_lt k ((List.mem_append.mp hk).resolve_right (by simp))
    · rcases List.mem_append.mp hk with hk | hk
      · exact h.cancelled_lt k hk
      · cases List.mem_singleton.mp hk
        show d.nextAttempt - 1 < d.nextAttempt
        rw [hj]
        exact Nat.lt_succ_self j
  | connected =>
    rw [hstate] at phase
    refine h.quiet ⟨awaited, phase⟩ rfl ?_ ?_ rfl nofun ?_
    · cases d.attrib <;> simp [Act.Lawful]
    · cases d.attrib <;> simp [Act.Quiet]
    · refine List.forall_mem_cons.mpr ⟨nofun, fun code hmem hcode => ?_⟩
      exact absurd hcode (by simp [guard code hmem])

/-- `connect_cb` finds the channel of its attempt in the handle, and an attempt that was called
off in `STATE_DISCONNECTED`. -/
theorem Apart.connectCb (h : d.Apart) (htodo : d.todo = []) {k : Chan} (hk : k ∈ d.attempts)
    (outcome : Outcome) : (d.connectCb k outcome).Apart := by
  obtain ⟨awaited, hphase⟩ := h.phase
  obtain ⟨rfl, owns⟩ := hphase.owns_of_dispatch htodo hk
  have phase := hphase.connectCb htodo hk outcome
  simp only [Device.connectCb, owns.open_, if_false] at phase ⊢
  cases outcome with
  | error message =>
    refine h.quiet ⟨[], phase⟩ rfl (by simp [Act.Lawful]) (by simp [Act.Quiet]) rfl id ?_
    simp [push, record, htodo, DevTodo.isEstablish]
  | success getError imtu cid shutdownError attribFails =>
    dsimp only at phase ⊢
    split
    · rename_i hstate
      rw [if_pos hstate] at phase
      refine h.quiet ⟨[], phase⟩ rfl ?_ ?_ rfl id ?_
      · rw [owns.iochannel]
        cases shutdownError <;> simp [Act.Lawful]
      · cases shutdownError <;> simp [Act.Quiet]
      · simp [push, record, htodo, DevTodo.isEstablish]
    · rename_i hstate
      rw [if_neg hstate] at phase
      have connecting : d.connState = .connecting := by
        have := owns.not_connected
        cases hd : d.connState <;> simp_all
      cases getError with
      | none =>
        exact h.quiet ⟨[], phase⟩ (List.append_nil _).symm (by simp) (by simp) rfl id
          fun _ _ _ => connecting
      | some message =>
        exact h.quiet ⟨[], phase⟩ rfl (by simp [Act.Lawful]) (by simp [Act.Quiet]) rfl id
          fun _ _ _ => connecting

theorem Apart.channelWatcher (h : d.Apart) (htodo : d.todo = []) (chan : Chan)
    (cond : GIOCondition) : (d.channelWatcher chan cond).Apart := by
  have pushed : ∀ {codes : List DevTodo}, (∀ code ∈ codes, code.isEstablish = false) →
      codes.filter DevTodo.isWork = [] → codes.filterMap DevTodo.returningOf = [] →
      (d.push codes).Apart := by
    intro codes hcodes hwork hreturning
    obtain ⟨awaited, hphase⟩ := h.phase
    refine h.quiet ⟨awaited, hphase.push hwork hreturning⟩ (List.append_nil _).symm nofun nofun
      rfl id (List.forall_mem_append.mpr ⟨fun code hmem hcode => ?_, h.establishing⟩)
    exact absurd hcode (by simp [hcodes code hmem])
  unfold Device.channelWatcher
  split_ifs
  · refine (pushed (by simp [DevTodo.isEstablish]) rfl rfl).lbleDisconnect ?_
    simp [NotCalledOff, push, htodo, DevTodo.isEstablish]
  · exact pushed (by simp [DevTodo.isEstablish]) rfl rfl
  · exact pushed (by simp [DevTodo.isEstablish]) rfl rfl
  · exact pushed (by simp [DevTodo.isEstablish]) rfl rfl

/-- Running a suspended piece of code preserves the invariant. -/
theorem Apart.resume (h : d.Apart) {code : DevTodo} {todo : List DevTodo}
    (htodo : d.todo = code :: todo) : ({ d with todo := todo }.resume code).Apart := by
  obtain ⟨awaited, hphase⟩ := h.phase
  have phase := hphase.resume htodo
  have establishing : ∀ code ∈ todo, code.isEstablish = true → d.connState = .connecting :=
    fun code hmem => h.establishing code (htodo ▸ List.mem_cons_of_mem _ hmem)
  -- while one piece is run no other one is suspended
  have alone : code.isWork = true → ∀ {P : Prop}, ∀ c ∈ todo, c.isEstablish = true → P := by
    intro isWork P c hmem hc
    have hnil := hphase.work_alone htodo isWork
    have : c ∈ ({ d with todo := todo } : Device).work :=
      List.mem_filter.mpr ⟨hmem, DevTodo.isWork_of_isEstablish hc⟩
    simp [hnil] at this
  cases code with
  | emit event =>
    exact Apart.emit (h.quiet (e := { d with todo := todo }) ⟨awaited, hphase.pop htodo rfl rfl⟩
      (List.append_nil _).symm nofun nofun rfl id establishing) event
  | emitState =>
    exact Apart.emit (h.quiet (e := { d with todo := todo }) ⟨awaited, hphase.pop htodo rfl rfl⟩
      (List.append_nil _).symm nofun nofun rfl id establishing) _
  | handler | connectReturn | watcherDone =>
    exact h.quiet phase (List.append_nil _).symm nofun nofun rfl id establishing
  | connectDone k failed =>
    refine h.quiet phase rfl ?_ ?_ rfl id establishing
    · cases failed <;> simp [Act.Lawful]
    · cases failed <;> simp [Act.Quiet]
  | gattConnect k failure =>
    cases failure with
    | none =>
      exact h.quiet phase rfl (by simp [Act.Lawful]) (by simp [Act.Quiet]) rfl id establishing
    | some message =>
      refine h.quiet phase rfl (by simp [Act.Lawful]) (by simp [Act.Quiet]) rfl id ?_
      exact List.forall_mem_append.mpr ⟨by simp [DevTodo.isEstablish], establishing⟩
  | connectFailed k =>
    exact h.quiet phase rfl (by simp [Act.Lawful]) (by simp [Act.Quiet]) rfl nofun (alone rfl)
  | connectError k =>
    have owns := hphase.owns_of_actsOn htodo rfl
    refine h.quiet phase rfl ?_ (by simp [Act.Quiet]) rfl nofun (alone rfl)
    have newest : ∀ j, .started j ∈ d.log → j ≤ k := fun j hj =>
      Nat.le_of_lt_succ (Nat.lt_of_lt_of_eq (h.started_lt j hj) owns.newest)
    simpa [Act.Lawful, owns.iochannel] using newest
  | connectEstablish k getFailed imtu cid attribFails =>
    have owns := hphase.owns_of_actsOn htodo rfl
    have connecting := h.establishing _ (htodo ▸ List.mem_cons_self ..) rfl
    refine h.quiet phase rfl ?_ ?_ rfl nofun (alone rfl)
    · obtain ⟨j, hj, hcancelled⟩ := h.connecting connecting
      obtain rfl : j = k := Nat.succ.inj (hj.symm.trans owns.newest)
      have newest : ∀ i, .started i ∈ d.log → i ≤ j := fun i hi =>
        Nat.le_of_lt_succ (Nat.lt_of_lt_of_eq (h.started_lt i hi) owns.newest)
      cases getFailed <;> simpa [Act.Lawful, owns.iochannel] using ⟨hcancelled, newest⟩
    · cases getFailed <;> simp [Act.Quiet]

/-- **The invariant is preserved** by every step with one attempt at a time that does not call
an attempt off whose connection is being made. -/
theorem Apart.step (h : d.Apart) (one : d.OneAttempt l) (called : d.NotCalledOff l)
    (hstep : d.step l = some e) : e.Apart := by
  cases l with
  | call call =>
    obtain ⟨-, rfl⟩ := step_call hstep
    cases call with
    | connect failure => exact h.lbleConnect failure one
    | disconnect => exact h.lbleDisconnect called
    | setEventHandler evh =>
      obtain ⟨awaited, hphase⟩ := h.phase
      exact h.quiet ⟨awaited, hphase.congr rfl rfl rfl rfl rfl rfl rfl⟩
        (List.append_nil _).symm nofun nofun rfl id h.establishing
  | ret =>
    obtain ⟨todo, htodo, rfl⟩ := step_ret hstep
    exact h.resume htodo
  | resume =>
    obtain ⟨code, todo, htodo, -, rfl⟩ := step_resume hstep
    exact h.resume htodo
  | outcome k outcome =>
    obtain ⟨htodo, hk, rfl⟩ := step_outcome hstep
    exact h.connectCb htodo hk outcome
  | condition chan cond =>
    obtain ⟨htodo, -, rfl⟩ := step_condition hstep
    exact h.channelWatcher htodo chan cond

/-- **Superseded attempts.** In every run in which `lble_connect` is called only when nothing is
left to be done about earlier attempts, and `lble_disconnect` not inside the error event of
`bt_io_get`, the outcome of an attempt acts on the channel of this attempt only, makes a
connection only if the attempt was not called off, and touches no later attempt. -/
theorem separateOutcomes {evh : Bool} {ls : List DevLabel}
    (run : machine.Run (fun d l => d.OneAttempt l ∧ d.NotCalledOff l) (newdev evh) ls d) :
    SeparateOutcomes d.log :=
  (run.invariant (apart_newdev evh) fun h guard hstep =>
    h.step guard.1 guard.2 hstep).separate

/-- A run with two attempts one after the other, the first of which is called off. -/
def separateRun : Option Device :=
  machine.execGuarded (fun d l => d.OneAttempt l ∧ d.NotCalledOff l) (newdev true)
    [.call (.connect none), .resume, .ret, .resume, .resume, .call .disconnect,
      .outcome 0 (.success none 0 4 false false), .resume, .ret, .resume,
      .call (.connect none), .resume, .ret, .resume, .resume,
      .outcome 1 (.success none 0 4 false false), .resume, .resume, .ret, .resume]

theorem separateOutcomes_separateRun : ∃ d, separateRun = some d ∧ d.connState = .connected ∧
    SeparateOutcomes d.log := by
  have hrun : separateRun.map (fun d => d.connState) = some .connected := by decide
  obtain ⟨d, hd, hstate⟩ := Option.map_eq_some_iff.mp hrun
  exact ⟨d, hd, hstate, separateOutcomes (machine.run_of_execGuarded hd)⟩

/-- A run in which the attempt 0 is called off and its success then meets the attempt 1. -/
def supersededRun : Option Device :=
  machine.execGuarded (fun _ _ => True) (newdev false)
    [.call (.connect none), .resume, .resume, .resume, .call .disconnect,
      .call (.connect none), .resume, .resume, .resume,
      .outcome 0 (.success none 0 4 false false), .resume]

/-- The success of the attempt that was called off makes the device `STATE_CONNECTED` and watches
the channel of the other attempt. -/
theorem not_separateOutcomes_supersededRun : ∃ d, supersededRun = some d ∧
    d.connState = .connected ∧ .cancelled 0 ∈ d.log ∧ .established 0 ∈ d.log ∧
      .watch 0 (some 1) ∈ d.log ∧ ¬ SeparateOutcomes d.log := by
  have hrun : supersededRun.map (fun d => (d.connState, d.log)) = some (.connected,
      [.started 0, .opened 0, .cancelled 0, .started 1, .opened 1, .watch 0 (some 1),
        .attribNew 0 23, .established 0]) := by
    decide
  obtain ⟨d, hd, heq⟩ := Option.map_eq_some_iff.mp hrun
  obtain ⟨hstate, hlog⟩ := Prod.mk.inj heq
  refine ⟨d, hd, hstate, by simp [hlog], by simp [hlog], by simp [hlog], fun separate => ?_⟩
  have lawful := separate [.started 0, .opened 0, .cancelled 0, .started 1, .opened 1]
    (.watch 0 (some 1)) [.attribNew 0 23, .established 0] hlog
  simp [Act.Lawful] at lawful

end Device

end Libble

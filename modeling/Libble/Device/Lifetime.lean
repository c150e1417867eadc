import Libble.Device.Handle
import Libble.Foundation.Tally

/-!
# The lifetime of a connect attempt

However the calls of `lble_connect` and `lble_disconnect` overlap, an attempt is opened at most
once, its outcome is handled at most once and it makes at most one connection. The argument counts
a token for every attempt: `lble_connect` makes it, it is handed from `gatt_connect` to the main
loop and from there to `connect_cb`, and it ends in the connection.

## Main definitions

* `Device.Lifetime`: where the token of an attempt is.
* `Device.Left`: a channel that the handle has lost.

## Main results

* `Device.Lifetime.step`: every step hands the tokens on.
* `Device.attempt_once`: an attempt is opened once, and makes one connection.
* `Device.Left.step`: a channel is not found again.
-/

namespace Libble

namespace DevTodo

/-- The code will open the channel of the attempt. -/
def opens (k : Chan) : DevTodo → Nat
  | gattConnect j _ => isOne k j
  | _ => 0

/-- The code will make the connection of the attempt. -/
def establishes (k : Chan) : DevTodo → Nat
  | connectEstablish j .. => isOne k j
  | _ => 0

/-- The code will remove the source of the attempt. -/
def removes (k : Chan) : DevTodo → Nat
  | connectDone j _ => isOne k j
  | _ => 0

/-- The code has nothing to do with the lifetime of an attempt. -/
def idle : DevTodo → Bool
  | gattConnect .. | connectEstablish .. | connectDone .. => false
  | _ => true

variable {code : DevTodo} {codes : List DevTodo}

theorem opens_of_idle (h : ∀ c ∈ codes, c.idle = true) (k : Chan) : tally (opens k) codes = 0 :=
  tally_eq_zero fun c hc => by
    have := h c hc
    cases c <;> first | rfl | cases this

theorem establishes_of_idle (h : ∀ c ∈ codes, c.idle = true) (k : Chan) :
    tally (establishes k) codes = 0 :=
  tally_eq_zero fun c hc => by
    have := h c hc
    cases c <;> first | rfl | cases this

theorem removes_of_idle (h : ∀ c ∈ codes, c.idle = true) (k : Chan) : tally (removes k) codes = 0 :=
  tally_eq_zero fun c hc => by
    have := h c hc
    cases c <;> first | rfl | cases this

end DevTodo

/-- The act neither opens the channel of an attempt nor makes a connection. -/
def Act.passing : Act → Bool
  | opened _ | established _ => false
  | _ => true

theorem Act.count_of_passing {acts : List Act} (h : ∀ a ∈ acts, a.passing = true) {act : Act}
    (hact : act.passing = false) : acts.count act = 0 :=
  List.count_eq_zero.mpr fun hmem => by
    rw [h act hmem] at hact
    cases hact

/-- A record that gets longer by one act. -/
theorem Act.count_concat (acts : List Act) (act act' : Act) :
    (acts ++ [act]).count act' = acts.count act' + isOne act' act := by
  rw [List.count_append, List.count_singleton', isOne]

theorem Act.isOne_opened (k j : Chan) : isOne (Act.opened k) (.opened j) = isOne k j := by
  simp [isOne]

theorem Act.isOne_established (k j : Chan) :
    isOne (Act.established k) (.established j) = isOne k j := by
  simp [isOne]

theorem Act.isOne_opened_established (k j : Chan) :
    isOne (Act.opened k) (.established j) = 0 := if_neg nofun

theorem Act.isOne_established_opened (k j : Chan) :
    isOne (Act.established k) (.opened j) = 0 := if_neg nofun

namespace Device

/-- Where the token of an attempt is: with `gatt_connect`, with the main loop, with `connect_cb`, or
spent for a connection. The source of the attempt is removed after its outcome was handled. -/
structure Lifetime (d : Device) (k : Chan) : Prop where
  removes_le : tally (DevTodo.removes k) d.todo ≤ d.attempts.count k
  established_le : d.attempts.count k + tally (DevTodo.establishes k) d.todo +
    d.log.count (.established k) ≤ tally (DevTodo.removes k) d.todo + d.log.count (.opened k)
  opened_le : tally (DevTodo.opens k) d.todo + d.log.count (.opened k) ≤
    if k < d.nextAttempt then 1 else 0

variable {d e : Device} {l : DevLabel} {k : Chan} {codes todo : List DevTodo} {acts : List Act}

/-- The tokens do not depend on code and acts that have nothing to do with them. -/
theorem Lifetime.frame (h : d.Lifetime k) (before after : List DevTodo)
    (hd : d.todo = before ++ todo) (he : e.todo = after ++ todo)
    (idle : ∀ c ∈ before ++ after, c.idle = true) (attempts : e.attempts = d.attempts)
    (next : e.nextAttempt = d.nextAttempt) (log : e.log = d.log ++ acts)
    (passing : ∀ a ∈ acts, a.passing = true) : e.Lifetime k := by
  rw [List.forall_mem_append] at idle
  have same : ∀ f : DevTodo → Nat, tally f before = 0 → tally f after = 0 →
      tally f e.todo = tally f d.todo := by
    intro f hbefore hafter
    rw [hd, he, tally_append, tally_append, hbefore, hafter]
  have opens := same (DevTodo.opens k) (DevTodo.opens_of_idle idle.1 k)
    (DevTodo.opens_of_idle idle.2 k)
  have establishes := same (DevTodo.establishes k) (DevTodo.establishes_of_idle idle.1 k)
    (DevTodo.establishes_of_idle idle.2 k)
  have removes := same (DevTodo.removes k) (DevTodo.removes_of_idle idle.1 k)
    (DevTodo.removes_of_idle idle.2 k)
  obtain ⟨h₁, h₂, h₃⟩ := h
  refine ⟨?_, ?_, ?_⟩
  · rw [removes, attempts]
    exact h₁
  · rw [establishes, removes, attempts, log, List.count_append, List.count_append,
      Act.count_of_passing passing rfl, Act.count_of_passing passing rfl]
    exact h₂
  · rw [opens, next, log, List.count_append, Act.count_of_passing passing rfl]
    exact h₃

theorem Lifetime.emit (h : d.Lifetime k) (event : Event) : (d.emit event).Lifetime k := by
  unfold Device.emit
  split
  · exact h.frame [] [.handler] rfl rfl (by simp [DevTodo.idle]) rfl rfl rfl
      (by simp [Act.passing])
  · exact h

/-- The names up to a new one. -/
theorem isOne_add_lt (k n : Nat) :
    (if k < n + 1 then 1 else 0) = isOne k n + if k < n then 1 else 0 := by
  rw [isOne]
  split_ifs <;> omega

/-- `lble_connect` makes the token of its attempt. -/
theorem Lifetime.lbleConnect (h : d.Lifetime k) (failure : Option String) :
    (d.lbleConnect failure).Lifetime k := by
  unfold Device.lbleConnect
  split
  · obtain ⟨h₁, h₂, h₃⟩ := h
    have made : ∀ f : DevTodo → Nat, tally f ([.emitState, .gattConnect d.nextAttempt failure,
        .connectReturn] ++ d.todo) = f .emitState + (f (.gattConnect d.nextAttempt failure) +
          (f .connectReturn + tally f d.todo)) := fun _ => rfl
    have passed : ∀ act : Act, act.passing = false →
        (d.log ++ [Act.started d.nextAttempt]).count act = d.log.count act := by
      intro act hact
      have passing : ∀ a ∈ [Act.started d.nextAttempt], a.passing = true :=
        List.forall_mem_singleton.mpr rfl
      rw [List.count_append, Act.count_of_passing passing hact, Nat.add_zero]
    refine ⟨?_, ?_, ?_⟩
    · show tally _ (_ ++ d.todo) ≤ d.attempts.count k
      rw [made]
      simpa only [DevTodo.removes, Nat.zero_add] using h₁
    · show d.attempts.count k + tally _ (_ ++ d.todo) +
        (d.log ++ [Act.started d.nextAttempt]).count (.established k) ≤
          tally _ (_ ++ d.todo) + (d.log ++ [Act.started d.nextAttempt]).count (.opened k)
      rw [made, made, passed _ rfl, passed _ rfl]
      simpa only [DevTodo.establishes, DevTodo.removes, Nat.zero_add] using h₂
    · show tally _ (_ ++ d.todo) + (d.log ++ [Act.started d.nextAttempt]).count (.opened k) ≤
        if k < d.nextAttempt + 1 then 1 else 0
      rw [made, isOne_add_lt, passed _ rfl]
      simp only [DevTodo.opens]
      omega
  · exact h

/-- `lble_disconnect` has nothing to do with the tokens. -/
theorem Lifetime.lbleDisconnect (h : d.Lifetime k) : d.lbleDisconnect.Lifetime k := by
  unfold Device.lbleDisconnect
  cases d.connState with
  | disconnected => exact h
  | connecting =>
    exact h.frame [] [] rfl rfl nofun rfl rfl rfl (by simp [Act.passing])
  | connected =>
    refine h.frame [] [.emitState] rfl rfl (by simp [DevTodo.idle]) rfl rfl rfl fun a ha => ?_
    obtain ⟨c, -, rfl⟩ := List.mem_map.mp ha
    rfl

theorem Lifetime.channelWatcher (h : d.Lifetime k) (chan : Chan) (cond : GIOCondition) :
    (d.channelWatcher chan cond).Lifetime k := by
  have pushed : ∀ codes : List DevTodo, (∀ c ∈ codes, c.idle = true) →
      (d.push codes).Lifetime k := fun codes idle =>
    h.frame [] codes rfl rfl idle rfl rfl (List.append_nil _).symm nofun
  unfold Device.channelWatcher
  split_ifs
  · exact (pushed _ (by simp [DevTodo.idle])).lbleDisconnect
  · exact pushed _ (by simp [DevTodo.idle])
  · exact pushed _ (by simp [DevTodo.idle])
  · exact pushed _ (by simp [DevTodo.idle])

theorem count_erase_add {j : Chan} (h : isOne k j ≤ d.attempts.count k) :
    (d.attempts.erase j).count k + isOne k j = d.attempts.count k := by
  by_cases hk : j = k
  · subst hk
    rw [isOne_self] at h ⊢
    rw [List.count_erase_self]
    omega
  · rw [List.count_erase_of_ne (Ne.symm hk), isOne, if_neg hk, Nat.add_zero]

/-- The outcome of an attempt is handled: its token goes to `connect_cb`, or is spent. -/
theorem Lifetime.connectCb (h : d.Lifetime k) (htodo : d.todo = []) {j : Chan}
    (hj : j ∈ d.attempts) (outcome : Outcome) : (d.connectCb j outcome).Lifetime k := by
  obtain ⟨h₁, h₂, h₃⟩ := h
  have herase : (d.attempts.erase j).count k + isOne k j = d.attempts.count k := by
    refine count_erase_add ?_
    rw [isOne]
    split
    · subst j
      exact List.count_pos_iff.mpr hj
    · exact Nat.zero_le _
  rw [htodo] at h₁ h₂ h₃
  simp only [tally_nil, Nat.zero_add, Nat.add_zero] at h₂ h₃
  have handled : ∀ (e : Device), e.attempts = d.attempts → e.nextAttempt = d.nextAttempt →
      (∃ acts, e.log = d.log ++ acts ∧ ∀ a ∈ acts, a.passing = true) →
      tally (DevTodo.opens k) e.todo = 0 → tally (DevTodo.removes k) e.todo = isOne k j →
      tally (DevTodo.establishes k) e.todo ≤ isOne k j → e.Lifetime k := by
    rintro e attempts next ⟨acts, hlog, passing⟩ opens removes establishes
    have hcount := Nat.le.intro herase
    refine ⟨?_, ?_, ?_⟩
    · rw [removes, attempts]
      omega
    · rw [removes, attempts, hlog, List.count_append, List.count_append,
        Act.count_of_passing passing rfl, Act.count_of_passing passing rfl]
      omega
    · rw [opens, next, hlog, List.count_append, Act.count_of_passing passing rfl, Nat.zero_add]
      exact h₃
  unfold Device.connectCb
  split
  · refine ⟨?_, ?_, ?_⟩
    · rw [htodo]
      exact Nat.zero_le _
    · rw [htodo]
      simp only [tally_nil, Nat.zero_add, Nat.add_zero]
      omega
    · rw [htodo]
      simpa only [tally_nil, Nat.zero_add] using h₃
  · cases outcome with
    | error message =>
      refine handled _ rfl rfl ⟨_, rfl, by simp [Act.passing]⟩ ?_ ?_ ?_ <;>
        simp [push, record, htodo, DevTodo.opens, DevTodo.removes, DevTodo.establishes]
    | success getError imtu cid shutdownError attribFails =>
      dsimp only
      split
      · refine handled _ rfl rfl ⟨_, rfl, ?_⟩ ?_ ?_ ?_
        · cases shutdownError <;> simp [Act.passing]
        all_goals simp [push, record, htodo, DevTodo.opens, DevTodo.removes, DevTodo.establishes]
      · cases getError with
        | none =>
          refine handled _ rfl rfl ⟨[], (List.append_nil _).symm, by simp⟩ ?_ ?_ ?_ <;>
            simp [push, htodo, DevTodo.opens, DevTodo.removes, DevTodo.establishes]
        | some message =>
          refine handled _ rfl rfl ⟨_, rfl, by simp [Act.passing]⟩ ?_ ?_ ?_ <;>
            simp [push, record, htodo, DevTodo.opens, DevTodo.removes, DevTodo.establishes]

/-- Suspended code hands the tokens on. -/
theorem Lifetime.resume (h : d.Lifetime k) {code : DevTodo} (htodo : d.todo = code :: todo) :
    ({ d with todo := todo }.resume code).Lifetime k := by
  have runs : ∀ (e : Device) (acts : List Act), code.idle = true → e.todo = todo →
      e.attempts = d.attempts → e.nextAttempt = d.nextAttempt → e.log = d.log ++ acts →
      (∀ a ∈ acts, a.passing = true) → e.Lifetime k := fun e acts idle he attempts next hlog =>
    h.frame [code] [] htodo he (List.forall_mem_singleton.mpr idle) attempts next hlog
  have pop : code.idle = true → Lifetime { d with todo := todo } k := fun idle =>
    runs _ [] idle rfl rfl rfl (List.append_nil _).symm nofun
  have kept : ∀ {acts : List Act} {act : Act}, (∀ a ∈ acts, a.passing = true) →
      act.passing = false → (d.log ++ acts).count act = d.log.count act := by
    intro acts act passing hact
    rw [List.count_append, Act.count_of_passing passing hact, Nat.add_zero]
  cases code with
  | emit event => exact (pop rfl).emit event
  | emitState => exact (pop rfl).emit _
  | handler => exact pop rfl
  | connectReturn => exact pop rfl
  | watcherDone chan => exact runs _ [] rfl rfl rfl rfl (List.append_nil _).symm nofun
  | connectFailed j => exact runs _ _ rfl rfl rfl rfl rfl (by simp [Act.passing])
  | connectError j => exact runs _ _ rfl rfl rfl rfl rfl (by simp [Act.passing])
  | gattConnect j failure =>
    obtain ⟨h₁, h₂, h₃⟩ := h
    rw [htodo] at h₁ h₂ h₃
    simp only [tally_cons, DevTodo.opens, DevTodo.establishes, DevTodo.removes, Nat.zero_add]
      at h₁ h₂ h₃
    cases failure with
    | none =>
      have hattempts : (d.attempts ++ [j]).count k = d.attempts.count k + isOne k j := by
        rw [List.count_append, List.count_singleton', isOne]
      refine ⟨?_, ?_, ?_⟩
      · show tally _ todo ≤ (d.attempts ++ [j]).count k
        omega
      · show (d.attempts ++ [j]).count k + tally _ todo + (d.log ++ _).count _ ≤
          tally _ todo + (d.log ++ _).count _
        rw [Act.count_concat, Act.count_concat, Act.isOne_opened, Act.isOne_established_opened]
        omega
      · show tally _ todo + (d.log ++ _).count _ ≤ if k < d.nextAttempt then 1 else 0
        rw [Act.count_concat, Act.isOne_opened]
        omega
    | some message =>
      -- the attempt fails at once, and its token is lost
      have lost : Lifetime { d with todo := todo } k := ⟨h₁, h₂, by
        dsimp only
        omega⟩
      exact lost.frame [] [.emit (.errorOccured message), .connectFailed j, .emitState] rfl rfl
        (by simp [DevTodo.idle]) rfl rfl rfl (by simp [Act.passing])
  | connectEstablish j getFailed imtu cid attribFails =>
    obtain ⟨h₁, h₂, h₃⟩ := h
    rw [htodo] at h₁ h₂ h₃
    simp only [tally_cons, DevTodo.opens, DevTodo.establishes, DevTodo.removes, Nat.zero_add]
      at h₁ h₂ h₃
    have passing : ∀ a ∈ (if getFailed then [Act.errorFree j .getOptions] else []) ++
        [.watch j d.iochannel, .attribNew j (attribMtu getFailed imtu cid)], a.passing = true := by
      cases getFailed <;> simp [Act.passing]
    have hlog : d.log ++ ((if getFailed then [Act.errorFree j .getOptions] else []) ++
        [.watch j d.iochannel, .attribNew j (attribMtu getFailed imtu cid), .established j]) =
        d.log ++ ((if getFailed then [Act.errorFree j .getOptions] else []) ++
          [.watch j d.iochannel, .attribNew j (attribMtu getFailed imtu cid)]) ++
          [.established j] := by
      simp
    refine ⟨?_, ?_, ?_⟩
    · show tally _ todo ≤ d.attempts.count k
      exact h₁
    · show d.attempts.count k + tally _ todo + (d.log ++ (_ ++ _)).count _ ≤
        tally _ todo + (d.log ++ (_ ++ _)).count _
      rw [hlog, Act.count_concat, Act.count_concat, kept passing rfl, kept passing rfl,
        Act.isOne_established, Act.isOne_opened_established]
      omega
    · show tally _ todo + (d.log ++ _).count _ ≤ if k < d.nextAttempt then 1 else 0
      rw [hlog, Act.count_concat, kept passing rfl, Act.isOne_opened_established]
      omega
  | connectDone j failed =>
    -- the source of the attempt is removed with the code that does it
    obtain ⟨h₁, h₂, h₃⟩ := h
    rw [htodo] at h₁ h₂ h₃
    simp only [tally_cons, DevTodo.opens, DevTodo.establishes, DevTodo.removes, Nat.zero_add]
      at h₁ h₂ h₃
    have hattempts := count_erase_add (d := d) (j := j) (Nat.le_of_add_right_le h₁)
    have passing : ∀ a ∈ (if failed then [Act.errorFree j .outcome] else []),
        a.passing = true := by
      cases failed <;> simp [Act.passing]
    refine ⟨?_, ?_, ?_⟩
    · show tally _ todo ≤ (d.attempts.erase j).count k
      omega
    · show (d.attempts.erase j).count k + tally _ todo + (d.log ++ _).count _ ≤
        tally _ todo + (d.log ++ _).count _
      rw [kept passing rfl, kept passing rfl]
      omega
    · show tally _ todo + (d.log ++ _).count _ ≤ if k < d.nextAttempt then 1 else 0
      rw [kept passing rfl]
      omega

/-- **Every step hands the tokens on.** -/
theorem Lifetime.step (h : d.Lifetime k) (hstep : d.step l = some e) : e.Lifetime k := by
  cases l with
  | call call =>
    obtain ⟨-, rfl⟩ := step_call hstep
    cases call with
    | connect failure => exact h.lbleConnect failure
    | disconnect => exact h.lbleDisconnect
    | setEventHandler evh => exact ⟨h.1, h.2, h.3⟩
  | ret =>
    obtain ⟨todo, htodo, rfl⟩ := step_ret hstep
    exact h.frame [.handler] [] htodo rfl (by simp [DevTodo.idle]) rfl rfl
      (List.append_nil _).symm nofun
  | resume =>
    obtain ⟨code, todo, htodo, -, rfl⟩ := step_resume hstep
    exact h.resume htodo
  | outcome j outcome =>
    obtain ⟨htodo, hj, rfl⟩ := step_outcome hstep
    exact h.connectCb htodo hj outcome
  | condition chan cond =>
    obtain ⟨-, -, rfl⟩ := step_condition hstep
    exact h.channelWatcher chan cond

theorem lifetime_newdev (evh : Bool) (k : Chan) : (newdev evh).Lifetime k :=
  ⟨Nat.le_refl 0, Nat.le_refl 0, Nat.zero_le _⟩

theorem lifetime {evh : Bool} {labels : List DevLabel} {ok : Device → DevLabel → Prop}
    (run : machine.Run ok (newdev evh) labels d) (k : Chan) : d.Lifetime k :=
  run.invariant (P := fun d => d.Lifetime k) (lifetime_newdev evh k) fun h _ hstep => h.step hstep

/-- **An attempt makes one connection**: however the calls overlap, in every run the channel of an
attempt is opened at most once, and a connection is made of it at most as often. -/
theorem attempt_once {evh : Bool} {labels : List DevLabel}
    (run : machine.Run (fun _ _ => True) (newdev evh) labels d) (k : Chan) :
    d.log.count (.established k) ≤ d.log.count (.opened k) ∧ d.log.count (.opened k) ≤ 1 := by
  obtain ⟨h₁, h₂, h₃⟩ := lifetime run k
  refine ⟨by omega, ?_⟩
  split at h₃ <;> omega

/-- An attempt is called off and another one made, and both succeed. -/
def overlappingRun : Option Device :=
  machine.execGuarded (fun _ _ => True) (newdev true)
    [.call (.connect none), .resume, .ret, .resume, .resume, .call .disconnect,
      .call (.connect none), .resume, .ret, .resume, .resume,
      .outcome 1 (.success none 23 4 false false), .resume, .resume, .ret, .resume,
      .outcome 0 (.success none 23 4 false false), .resume, .resume]

theorem attempt_once_overlappingRun : ∃ d, overlappingRun = some d ∧
    d.log.count (.established 0) = 1 ∧ d.log.count (.established 1) = 1 ∧
    d.log.count (.opened 0) ≤ 1 ∧ d.log.count (.opened 1) ≤ 1 := by
  have hrun : overlappingRun.map (fun d => (d.log.count (.established 0),
      d.log.count (.established 1))) = some (1, 1) := by decide +kernel
  obtain ⟨d, hd, hcount⟩ := Option.map_eq_some_iff.mp hrun
  obtain ⟨first, second⟩ := Prod.mk.inj hcount
  have run := machine.run_of_execGuarded hd
  exact ⟨d, hd, first, second, (attempt_once run 0).2, (attempt_once run 1).2⟩

/-! ### Channels that the handle has lost -/

/-- The handle does not refer to the channel, and its watches are being removed. -/
structure Left (d : Device) (k : Chan) : Prop where
  iochannel : d.iochannel ≠ some k
  watches : d.watches.count k ≤ d.todo.count (.watcherDone k)

/-- Nothing refers to the channel unless the code opens it or watches it. -/
theorem Left.frame (h : d.Left k) (before after : List DevTodo) (hd : d.todo = before ++ todo)
    (he : e.todo = after ++ todo) (kept : .watcherDone k ∉ before) (watches : e.watches = d.watches)
    (iochannel : e.iochannel = d.iochannel ∨ e.iochannel = none) : e.Left k := by
  refine ⟨?_, ?_⟩
  · rcases iochannel with same | none
    · rw [same]
      exact h.iochannel
    · rw [none]
      exact nofun
  · have hle := h.watches
    rw [hd, List.count_append, List.count_eq_zero.mpr kept] at hle
    rw [watches, he, List.count_append]
    omega

theorem Left.emit (h : d.Left k) (event : Event) : (d.emit event).Left k := by
  unfold Device.emit
  split
  · exact h.frame [] [.handler] rfl rfl nofun rfl (.inl rfl)
  · exact h

theorem Left.lbleDisconnect (h : d.Left k) : d.lbleDisconnect.Left k := by
  unfold Device.lbleDisconnect
  cases d.connState with
  | disconnected => exact h
  | connecting => exact h.frame [] [] rfl rfl nofun rfl (.inl rfl)
  | connected => exact h.frame [] [.emitState] rfl rfl nofun rfl (.inr rfl)

theorem Left.push (h : d.Left k) (codes : List DevTodo) : (d.push codes).Left k :=
  h.frame [] codes rfl rfl nofun rfl (.inl rfl)

theorem Left.connectCb (h : d.Left k) (j : Chan) (outcome : Outcome) :
    (d.connectCb j outcome).Left k := by
  unfold Device.connectCb
  split
  · exact h.frame [] [] rfl rfl nofun rfl (.inl rfl)
  · cases outcome with
    | error message => exact h.frame [] _ rfl rfl nofun rfl (.inl rfl)
    | success getError imtu cid shutdownError attribFails =>
      dsimp only
      split
      · exact h.frame [] _ rfl rfl nofun rfl (.inr rfl)
      · cases getError with
        | none => exact h.push _
        | some message => exact h.frame [] _ rfl rfl nofun rfl (.inl rfl)

theorem Left.resume (h : d.Left k) {code : DevTodo} (htodo : d.todo = code :: todo)
    (closed : tally (DevTodo.opens k) d.todo = 0) :
    ({ d with todo := todo }.resume code).Left k := by
  have runs : ∀ e : Device, code ≠ .watcherDone k → e.todo = todo → e.watches = d.watches →
      (e.iochannel = d.iochannel ∨ e.iochannel = none) → e.Left k := fun e hne he watches =>
    h.frame [code] [] htodo he (fun hmem => hne (List.mem_singleton.mp hmem).symm) watches
  cases code with
  | emit event => exact (runs { d with todo := todo } nofun rfl rfl (.inl rfl)).emit event
  | emitState => exact (runs { d with todo := todo } nofun rfl rfl (.inl rfl)).emit _
  | handler => exact runs _ nofun rfl rfl (.inl rfl)
  | connectReturn => exact runs _ nofun rfl rfl (.inl rfl)
  | connectFailed j => exact runs _ nofun rfl rfl (.inl rfl)
  | connectError j => exact runs _ nofun rfl rfl (.inr rfl)
  | connectDone j failed => exact runs _ nofun rfl rfl (.inl rfl)
  | gattConnect j failure =>
    cases failure with
    | none =>
      have popped := runs { d with todo := todo } nofun rfl rfl (.inl rfl)
      refine ⟨fun heq => ?_, popped.watches⟩
      obtain rfl : j = k := Option.some.inj heq
      rw [htodo, tally_cons, DevTodo.opens, isOne_self] at closed
      omega
    | some message =>
      exact h.frame [.gattConnect j (some message)] _ htodo rfl (by simp) rfl (.inr rfl)
  | connectEstablish j getFailed imtu cid attribFails =>
    have popped := runs { d with todo := todo } nofun rfl rfl (.inl rfl)
    refine ⟨h.iochannel, ?_⟩
    have unwatched : d.iochannel.toList.count k = 0 :=
      List.count_eq_zero.mpr fun hmem => h.iochannel (Option.mem_toList.mp hmem)
    show (d.watches ++ d.iochannel.toList).count k ≤ todo.count _
    rw [List.count_append, unwatched]
    exact popped.watches
  | watcherDone c =>
    refine ⟨h.iochannel, ?_⟩
    have hle := h.watches
    rw [htodo] at hle
    show (d.watches.erase c).count k ≤ todo.count _
    by_cases hc : c = k
    · subst hc
      rw [List.count_cons_self] at hle
      rw [List.count_erase_self]
      omega
    · rw [List.count_cons_of_ne fun heq => hc (DevTodo.watcherDone.inj heq)] at hle
      rwa [List.count_erase_of_ne (Ne.symm hc)]

/-- The handle does not come to refer to a channel that was opened before. -/
theorem Left.step (h : d.Left k) (closed : tally (DevTodo.opens k) d.todo = 0)
    (hstep : d.step l = some e) : e.Left k := by
  cases l with
  | call call =>
    obtain ⟨-, rfl⟩ := step_call hstep
    cases call with
    | connect failure =>
      simp only [call, lbleConnect]
      split
      · exact h.frame [] _ rfl rfl nofun rfl (.inl rfl)
      · exact h
    | disconnect => exact h.lbleDisconnect
    | setEventHandler evh => exact h.frame [] [] rfl rfl nofun rfl (.inl rfl)
  | ret =>
    obtain ⟨todo, htodo, rfl⟩ := step_ret hstep
    exact h.frame [.handler] [] htodo rfl (by simp) rfl (.inl rfl)
  | resume =>
    obtain ⟨code, todo, htodo, -, rfl⟩ := step_resume hstep
    exact h.resume htodo closed
  | outcome j outcome =>
    obtain ⟨-, -, rfl⟩ := step_outcome hstep
    exact h.connectCb j outcome
  | condition c cond =>
    obtain ⟨-, -, rfl⟩ := step_condition hstep
    unfold Device.channelWatcher
    split_ifs
    · exact (h.push _).lbleDisconnect
    · exact h.push _
    · exact h.push _
    · exact h.push _

end Device

end Libble

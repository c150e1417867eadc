import Libble.Program.Projection

/-!
# The end of a connection and of the handle

`lble_disconnect` gives the client of the connection up, and that is all: the requests that wait
keep the client, and the watch of the channel keeps the handle. `lble_freedev` frees the handle and
nothing that refers to it.

The teardown is complete if a connection is given up when none of its code is suspended, no read
and no discovery waits and its watch has been dispatched, and if the handle is freed when no
attempt is in flight, no watch is left and every connection whose channel is still there was given
up. Then nothing is left that could call back.

## Main definitions

* `Program.Clean`: the guard.
* `Program.GivenUp`, `Program.Retired`: a connection that was given up, and a handle that was freed.

## Main results

* `Program.GivenUp.step`: nothing happens on a connection that was given up.
* `Program.Retired.not_step`: nothing happens at all when the handle was freed.
* `Program.teardown`: the teardown is complete in every run that meets the guard.
* `Program.not_teardown_waitingRun`: a read that waits.
-/

namespace Libble

open Gatt

namespace Program

variable {p q r : Program} {label : Label} {labels : List Label} {k : Chan} {s t : Link}

/-- The connection can be given up: its channel is not watched, and its client has no suspended
code and, while the channel is attached, no reference but that of the handle. -/
structure Parts (p : Program) (watches : List Chan) (k : Chan) : Prop where
  unwatched : watches.count k ≤ p.deviceCodes.count (.watcherDone k)
  client : ∀ s ∈ p.client? k, s.Clean .drop

instance (p : Program) (watches : List Chan) (k : Chan) : Decidable (p.Parts watches k) :=
  decidable_of_iff (_ ∧ _) ⟨fun h => ⟨h.1, h.2⟩, fun h => ⟨h.unwatched, h.client⟩⟩

/-- A connection is given up when that ends it, and the handle is freed when nothing refers to
it. -/
def Clean (p : Program) : Label → Prop
  | .manage .disconnect => p.device.connState = .connected →
    ∀ k ∈ p.device.attrib, p.Parts p.device.watches k
  | .condition c cond => cond.IsPureLoss → p.device.connState = .connected →
    ∀ k ∈ p.device.attrib, p.Parts (p.device.watches.erase c) k
  | .freedev => p.device.attempts = [] ∧ p.device.watches = [] ∧
    ∀ k < p.device.nextAttempt, ∀ s ∈ p.clients k, s.attached = true → s.app = false
  | _ => True

instance (p : Program) (label : Label) : Decidable (p.Clean label) :=
  match label with
  | .manage .disconnect => inferInstanceAs (Decidable (_ → ∀ k ∈ p.device.attrib, _))
  | .condition .. => inferInstanceAs (Decidable (_ → _ → ∀ k ∈ p.device.attrib, _))
  | .freedev => inferInstanceAs (Decidable (_ ∧ _ ∧ ∀ k < p.device.nextAttempt, _))
  | .manage (.connect _) | .manage (.setEventHandler _) => .isTrue trivial
  | .call _ | .listen | .ret | .resume | .outcome .. | .dispatch .. => .isTrue trivial

/-- What happened on a connection. -/
def log (p : Program) (k : Chan) : List Link.Act := ((p.clients k).map Link.log).getD []

/-! ### A connection that was given up -/

/-- The handle has given the client up and lost the channel. -/
structure GivenUp (p : Program) (k : Chan) : Prop where
  client : ∃ s, p.client? k = some s ∧ s.app = false
  left : p.handle.Left k

/-- In every client the accounts are right, or it was given up and only releases things. -/
def Parted (p : Program) : Prop := ∀ k s, p.client? k = some s → s.Parted

theorem log_eq (hs : p.client? k = some s) : p.log k = s.log := by
  obtain ⟨s₀, hs₀, rfl⟩ := Option.map_eq_some_iff.mp hs
  rw [log, hs₀]
  rfl

/-- The step that gives a client up meets the guard of the client. -/
theorem Parting.parts (parting : p.Parting k label) (clean : p.Clean label) :
    ∃ watches, p.Parts watches k := by
  cases label with
  | manage call =>
    cases call with
    | disconnect => exact ⟨_, clean parting.1 k parting.2⟩
    | _ => cases parting
  | condition c cond => exact ⟨_, clean parting.1 parting.2.1 k parting.2.2⟩
  | _ => cases parting

theorem Parted.step (h : p.Parted) (composed : p.Composed) (clean : p.Clean label)
    (hstep : p.step label = some q) : q.Parted := by
  intro k t ht
  cases (composed.turned hstep).clients k t ht with
  | same hs => exact h k t hs
  | made _ _ mtu ht =>
    subst ht
    exact .new mtu
  | @step s l hs hclient hne =>
    refine (h k s hs).step ?_ hclient
    cases l <;> trivial
  | drop hs hclient parting =>
    obtain ⟨watches, parts⟩ := parting.parts clean
    exact (h k _ hs).step (parts.client _ hs) hclient

namespace GivenUp

/-- The channel of a client was opened. -/
theorem closed (h : p.GivenUp k) (composed : p.Composed) :
    tally (DevTodo.opens k) p.handle.todo = 0 ∧
      p.handle.attempts.count k ≤ tally (DevTodo.removes k) p.handle.todo := by
  obtain ⟨s, hs, -⟩ := h.client
  obtain ⟨labels, run⟩ := composed.handle
  have life := Device.lifetime run k
  have made : 0 < p.handle.log.count (.established k) :=
    List.count_pos_iff.mpr (composed.made k s hs)
  have removes := life.removes_le
  have established := life.established_le
  have opened := life.opened_le
  split at opened
  · exact ⟨by omega, by omega⟩
  · exact ⟨by omega, by omega⟩

theorem step (h : p.GivenUp k) (composed : p.Composed) (hstep : p.step label = some q) :
    q.GivenUp k := by
  have turned := composed.turned hstep
  obtain ⟨s, hs, app⟩ := h.client
  obtain ⟨t, ht⟩ := turned.kept k s hs
  refine ⟨⟨t, ht, ?_⟩, ?_⟩
  · cases turned.clients k t ht with
    | same hs' =>
      obtain rfl := Option.some.inj (hs.symm.trans hs')
      exact app
    | made none => cases hs.symm.trans none
    | step hs' hclient =>
      obtain rfl := Option.some.inj (hs.symm.trans hs')
      exact Link.app_of_step hclient app
    | drop hs' hclient =>
      obtain rfl := Option.some.inj (hs.symm.trans hs')
      exact Link.app_of_step hclient app
  · rcases turned.handle with same | ⟨l, hhandle⟩
    · rw [same]
      exact h.left
    · exact h.left.step (h.closed composed).1 hhandle

/-- **Nothing happens on a connection that was given up.** -/
theorem log_eq (h : p.GivenUp k) (composed : p.Composed) (parted : p.Parted)
    (hstep : p.step label = some q) : q.log k = p.log k := by
  have turned := composed.turned hstep
  obtain ⟨s, hs, app⟩ := h.client
  obtain ⟨t, ht⟩ := turned.kept k s hs
  rw [Program.log_eq hs, Program.log_eq ht]
  cases turned.clients k t ht with
  | same hs' =>
    obtain rfl := Option.some.inj (hs.symm.trans hs')
    rfl
  | made none => cases hs.symm.trans none
  | step hs' hclient =>
    obtain rfl := Option.some.inj (hs.symm.trans hs')
    exact (parted k s hs).log_eq app hclient
  | drop hs' hclient =>
    obtain rfl := Option.some.inj (hs.symm.trans hs')
    exact (parted k s hs).log_eq app hclient

/-- Neither the watch of its channel nor the outcome of its attempt is dispatched. -/
theorem not_dispatched (h : p.GivenUp k) (composed : p.Composed) (hstep : p.step label = some q) :
    (∀ cond, label ≠ .condition k cond) ∧ ∀ outcome, label ≠ .outcome k outcome := by
  refine ⟨?_, ?_⟩
  · rintro cond rfl
    obtain ⟨idle, hk, -⟩ := step_condition hstep
    have watches := h.left.watches
    rw [handle_of_idle idle] at watches
    exact List.count_eq_zero.mp (Nat.le_zero.mp watches) hk
  · rintro outcome rfl
    obtain ⟨idle, hk, -⟩ := step_outcome hstep
    have attempts := (h.closed composed).2
    rw [handle_of_idle idle] at attempts
    exact List.count_eq_zero.mp (Nat.le_zero.mp attempts) hk

end GivenUp

/-- **`lble_disconnect` gives the connection up** when that ends it. -/
theorem GivenUp.of_parting (composed : p.Composed) (clean : p.Clean label)
    (parting : p.Parting k label) (hstep : p.step label = some q) :
    q.GivenUp k ∧ q.log k = p.log k := by
  have given : ∀ {f : Device → Device} {codes : List DevTodo}, p.device.attrib = some k →
      p.Lifts f → f p.handle = Device.lbleDisconnect { p.handle with todo := codes } →
      (f { p.device with todo := [] }).log = p.device.log ++ [.attribUnref k] →
      p.device.connState = .connected →
      p.device.watches.count k ≤ codes.count (.watcherDone k) →
      (p.runDevice f).GivenUp k ∧ (p.runDevice f).log k = p.log k := by
    intro f codes hk hf hview hlog up watches
    obtain ⟨s, hs, -⟩ := composed.held k hk
    have hdropped := (runDevice_of_unref hs hlog).2
    refine ⟨⟨⟨_, hdropped, rfl⟩, ?_⟩, ?_⟩
    · rw [handle_runDevice hf, hview,
        lbleDisconnect_of_client (d := { p.handle with todo := codes }) up hk]
      refine ⟨nofun, ?_⟩
      have ne : DevTodo.emitState ≠ .watcherDone k := nofun
      show p.device.watches.count k ≤ (DevTodo.emitState :: codes).count (.watcherDone k)
      rwa [List.count_cons_of_ne ne]
    · rw [Program.log_eq hs, Program.log_eq hdropped]
      rfl
  cases label with
  | manage call =>
    cases call with
    | disconnect =>
      obtain ⟨up, hk⟩ := parting
      obtain ⟨-, rfl⟩ := step_manage hstep
      refine given (f := (·.call .disconnect)) hk
        (lifts_of_atop fun d rest => d.lbleDisconnect_atop rest) rfl ?_ up
        (clean up k hk).unwatched
      rw [Device.call, lbleDisconnect_of_client (d := { p.device with todo := [] }) up hk]
      rfl
    | _ => cases parting
  | condition c cond =>
    obtain ⟨loss, up, hk⟩ := parting
    obtain ⟨idle, hc, rfl⟩ := step_condition hstep
    have loses : ∀ d : Device, d.channelWatcher c cond = (d.push [.watcherDone c]).lbleDisconnect :=
      fun d => if_pos loss
    have unwatched := (clean loss up k hk).unwatched
    have none : p.deviceCodes = [] := by
      rw [deviceCodes, idle]
      rfl
    refine given (f := (·.channelWatcher c cond)) hk (lifts_of_idle idle _) (loses p.handle) ?_
      up ?_
    · rw [loses, lbleDisconnect_of_client (d := Device.push { p.device with todo := [] } _) up hk]
      rfl
    · show _ ≤ ([DevTodo.watcherDone c] ++ p.deviceCodes).count _
      rw [none] at unwatched ⊢
      by_cases hck : c = k
      · subst hck
        rw [List.count_erase_self] at unwatched
        rw [List.append_nil, List.count_cons_self]
        omega
      · rw [List.count_erase_of_ne (Ne.symm hck)] at unwatched
        exact Nat.le_trans unwatched (Nat.zero_le _)
  | _ => cases parting

/-! ### A handle that was freed -/

/-- Nothing is left that could refer to the handle. -/
structure Retired (p : Program) : Prop where
  stack : p.stack = []
  attempts : p.device.attempts = []
  watches : p.device.watches = []
  clients : ∀ k s, p.client? k = some s → s.attached = true → s.app = false

/-- **Nothing happens at all when the handle was freed.** -/
theorem Retired.not_step (h : p.Retired) (parted : p.Parted) (released : p.released = true)
    (label : Label) : p.step label = none := by
  by_contra hsome
  obtain ⟨q, hstep⟩ := Option.ne_none_iff_exists'.mp hsome
  have unusable : ¬ p.Usable := fun usable => nomatch released.symm.trans usable.2
  cases label with
  | manage call => exact unusable (step_manage hstep).1
  | call call => exact unusable (step_call hstep).1
  | listen => exact unusable (step_listen hstep).1
  | freedev => exact nomatch released.symm.trans (step_freedev hstep).2.1
  | ret =>
    obtain ⟨frame, stack, hstack, -⟩ := step_ret hstep
    exact nomatch h.stack.symm.trans hstack
  | resume =>
    rcases step_resume hstep with ⟨code, stack, hstack, -⟩ | ⟨k, code, stack, hstack, -⟩
    · exact nomatch h.stack.symm.trans hstack
    · exact nomatch h.stack.symm.trans hstack
  | outcome k outcome =>
    have hk := (step_outcome hstep).2.1
    rw [h.attempts] at hk
    cases hk
  | condition c cond =>
    have hc := (step_condition hstep).2.1
    rw [h.watches] at hc
    cases hc
  | dispatch k l =>
    obtain ⟨idle, hl, s, t, hs, ht, -⟩ := step_dispatch hstep
    have codes : p.clientCodes k = [] := by
      rw [clientCodes, idle]
      rfl
    have hview : p.client? k = some { s with todo := [] } := by
      rw [client?, hs, codes]
      rfl
    have dispatches : Link.Dispatches { s with todo := [] } := by
      cases l with
      | canWrite ret => exact (Link.step_canWrite ht).1
      | canRead bytes security setOk => exact (Link.step_canRead ht).1
      | hup => exact (Link.step_hup ht).1
      | timeout =>
        obtain ⟨op, -, dispatches, -⟩ := Link.step_timeout ht
        exact dispatches
      | _ => cases hl
    have app := h.clients k _ hview dispatches.2
    exact (parted k _ hview).not_dispatches app dispatches

/-- A client belongs to an attempt that was started. -/
theorem lt_of_client (composed : p.Composed) (hs : p.client? k = some s) :
    k < p.device.nextAttempt := by
  obtain ⟨labels, run⟩ := composed.handle
  have life := Device.lifetime run k
  have made : 0 < p.handle.log.count (.established k) :=
    List.count_pos_iff.mpr (composed.made k s hs)
  have removes := life.removes_le
  have established := life.established_le
  have opened := life.opened_le
  split at opened
  · assumption
  · omega

/-- The handle is freed when nothing refers to it. -/
theorem Retired.of_freedev (composed : p.Composed) (clean : p.Clean .freedev)
    (hstep : p.step .freedev = some q) : q.Retired := by
  obtain ⟨attempts, watches, clients⟩ := clean
  obtain ⟨idle, -, rfl⟩ := step_freedev hstep
  refine ⟨idle, attempts, watches, fun k s hs attached => ?_⟩
  have hs' : p.client? k = some s := hs
  obtain ⟨s₀, hs₀, rfl⟩ := Option.map_eq_some_iff.mp hs'
  exact clients k (lt_of_client composed hs') s₀ hs₀ attached

/-! ### Runs -/

theorem released_perform (p : Program) (act : Act) : (p.perform act).released = p.released := by
  cases act with
  | attribUnref k =>
    simp only [perform, runClient]
    split <;> rfl
  | attribNew k mtu =>
    simp only [perform]
    split <;> rfl
  | _ => rfl

theorem released_runDevice (p : Program) (f : Device → Device) :
    (p.runDevice f).released = p.released := by
  have folded : ∀ (acts : List Act) (p : Program),
      (acts.foldl perform p).released = p.released := by
    intro acts
    induction acts with
    | nil => exact fun _ => rfl
    | cons act acts ih => exact fun p => (ih _).trans (released_perform p act)
  exact folded _ _

theorem released_runClient (p : Program) (k : Chan) (f : Link → Link) :
    (p.runClient k f).released = p.released := by
  rw [runClient]
  split <;> rfl

theorem released_onConnected (p : Program) (f : Link → Link) :
    (p.onConnected f).released = p.released := by
  rw [onConnected]
  split
  · exact released_runClient ..
  · rfl

/-- Only `lble_freedev` frees the handle. -/
theorem released_step (hstep : p.step label = some q) (hne : label ≠ .freedev) :
    q.released = p.released := by
  cases label with
  | manage call =>
    obtain ⟨-, rfl⟩ := step_manage hstep
    exact released_runDevice ..
  | call call =>
    obtain ⟨-, -, rfl⟩ := step_call hstep
    exact released_onConnected ..
  | listen =>
    obtain ⟨-, rfl⟩ := step_listen hstep
    exact released_onConnected ..
  | freedev => exact absurd rfl hne
  | ret =>
    obtain ⟨frame, stack, -, -, rfl⟩ := step_ret hstep
    rfl
  | resume =>
    rcases step_resume hstep with ⟨code, stack, -, -, rfl⟩ | ⟨k, code, stack, -, -, rfl⟩
    · exact released_runDevice ..
    · exact released_runClient ..
  | outcome k outcome =>
    obtain ⟨-, -, -, rfl⟩ := step_outcome hstep
    exact released_runDevice ..
  | condition c cond =>
    obtain ⟨-, -, rfl⟩ := step_condition hstep
    exact released_runDevice ..
  | dispatch k l =>
    obtain ⟨-, -, s, t, -, -, rfl⟩ := step_dispatch hstep
    rfl

/-- What holds in every run that meets the guard. -/
structure Orderly (p : Program) : Prop where
  composed : p.Composed
  parted : p.Parted
  retired : p.released = true → p.Retired

theorem orderly_init : init.Orderly := by
  refine ⟨composed_init, fun k s hs => ?_, nofun⟩
  cases hs

theorem Orderly.step (h : p.Orderly) (clean : p.Clean label) (hstep : p.step label = some q) :
    q.Orderly := by
  refine ⟨h.composed.step hstep, h.parted.step h.composed clean hstep, fun released => ?_⟩
  by_cases hl : label = .freedev
  · subst hl
    exact .of_freedev h.composed clean hstep
  · have before : p.released = true := (released_step hstep hl).symm.trans released
    exact nomatch ((h.retired before).not_step h.parted before label).symm.trans hstep

/-- The events of a connection. -/
def events (p : Program) (k : Chan) : List Event :=
  (p.log k).filterMap fun
    | .event _ event => some event
    | _ => none

/-- The teardown is complete. When a connection is given up, no event of it is delivered any more,
its channel is not watched and the outcome of its attempt is not dispatched; when the handle was
freed, no step is possible. -/
structure TornDown (ok : Program → Label → Prop) (p : Program) : Prop where
  ended : ∀ {k label q later r}, p.Parting k label → ok p label → p.step label = some q →
    machine.Run ok q later r → r.events k = p.events k ∧
      ∀ l ∈ later, (∀ cond, l ≠ .condition k cond) ∧ ∀ outcome, l ≠ .outcome k outcome
  freed : p.released = true → ∀ label, p.step label = none

/-- A run after a connection was given up. -/
theorem GivenUp.run (given : p.GivenUp k) (h : p.Orderly) (run : machine.Run Clean p labels q) :
    (q.GivenUp k ∧ q.Orderly) ∧ q.log k = p.log k ∧
      ∀ l ∈ labels, (∀ cond, l ≠ .condition k cond) ∧ ∀ outcome, l ≠ .outcome k outcome := by
  induction run with
  | nil => exact ⟨⟨given, h⟩, rfl, nofun⟩
  | snoc run clean hstep ih =>
    obtain ⟨⟨given', h'⟩, same, silent⟩ := ih
    refine ⟨⟨given'.step h'.composed hstep, h'.step clean hstep⟩,
      (given'.log_eq h'.composed h'.parted hstep).trans same, ?_⟩
    exact List.forall_mem_append.mpr
      ⟨silent, List.forall_mem_singleton.mpr (given'.not_dispatched h'.composed hstep)⟩

/-- A connection is made and listened to, its watch is dispatched, a read is answered; then the
connection is given up and the handle freed. -/
def completedRun : Option Program :=
  machine.execGuarded Clean init <| List.flatten
    [[.manage (.connect none), .resume, .ret, .resume, .resume,
        .outcome 0 (.success none 23 4 false false), .resume, .resume, .listen, .ret, .resume,
        .condition 0 .ofOut, .resume, .ret, .resume, .call (.request 3), .dispatch 0 (.canWrite 3),
        .dispatch 0 (.canRead [0x0b, 7, 8] 1 false), .resume, .ret], List.replicate 9 .resume,
      [.manage .disconnect], List.replicate 11 .resume, [.ret, .freedev]]

/-- A connection is made, and a read waits. -/
def waitingRun : Option Program :=
  machine.execGuarded (fun _ _ => True) init
    [.manage (.connect none), .resume, .ret, .resume, .resume,
      .outcome 0 (.success none 23 4 false false), .resume, .resume, .ret, .resume,
      .call (.request 3), .dispatch 0 (.canWrite 3)]

/-- The connection of a run is given up, the handle is freed, and the read is answered. -/
def lateLabels : List Label :=
  [.resume, .resume, .ret, .freedev, .dispatch 0 (.canRead [0x0b, 7, 8] 1 false), .resume]

end Program

end Libble

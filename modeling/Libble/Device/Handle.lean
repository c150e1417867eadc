import Libble.Foundation.LabelledMachine
import Libble.Device.Events

/-!
# The device handle and its connection management

This file models `devh_t` and the functions of `lib/libble.c` that manage a connection:
`lble_connect` with `gatt_connect`, `lble_disconnect`, `connect_cb` with the `connect_cb` of
`bluez/btio/btio.c` that calls it, and `channel_watcher`.

The library runs in one thread, inside calls of the application and inside callbacks that the
GLib main loop dispatches, and it calls the application back in the middle of its own functions.
A state therefore has a stack `todo` of the code that is still to be run: the rest of every
library function that is suspended in a call of the event handler. While the top of the stack is
`handler`, the event handler is running and may call the library again.

Channels are named by the `lble_connect` call that opens them: the attempt `k` opens the channel
`k`. What the code does to channels, errors and watches is recorded in `log`.

## Main definitions

* `GIOCondition`, `Outcome`: what the main loop dispatches.
* `Device`: the device handle, the main-loop sources that carry it, and the stack.
* `Device.lbleConnect`, `Device.lbleDisconnect`, `Device.connectCb`, `Device.channelWatcher`: the
  source functions up to the first call of the event handler; `Device.resume`: the rest of them.
* `Device.step`, `Device.machine`.
-/

namespace Libble

/-- The channel opened by a connect attempt; also the name of the attempt. -/
abbrev Chan := Nat

/-- A mask of conditions that GLib dispatches to a watch. -/
structure GIOCondition where
  /-- `G_IO_IN` -/
  input : Bool := false
  /-- `G_IO_PRI` -/
  pri : Bool := false
  /-- `G_IO_OUT` -/
  out : Bool := false
  /-- `G_IO_ERR` -/
  err : Bool := false
  /-- `G_IO_HUP` -/
  hup : Bool := false
  /-- `G_IO_NVAL` -/
  nval : Bool := false
  deriving DecidableEq, Repr

namespace GIOCondition

/-- The mask `G_IO_HUP` and nothing else. -/
def ofHup : GIOCondition := { hup := true }

/-- The mask `G_IO_ERR` and nothing else. -/
def ofErr : GIOCondition := { err := true }

/-- The mask `G_IO_NVAL` and nothing else. -/
def ofNval : GIOCondition := { nval := true }

/-- The mask `G_IO_IN` and nothing else. -/
def ofIn : GIOCondition := { input := true }

/-- The mask `G_IO_PRI` and nothing else. -/
def ofPri : GIOCondition := { pri := true }

/-- The mask `G_IO_OUT` and nothing else. -/
def ofOut : GIOCondition := { out := true }

/-- The mask reports the loss of the link, alone or together with other conditions. -/
def IsLoss (cond : GIOCondition) : Prop := cond.hup ∨ cond.err ∨ cond.nval

instance (cond : GIOCondition) : Decidable cond.IsLoss :=
  inferInstanceAs (Decidable (_ ∨ _ ∨ _))

/-- The mask is the single condition `G_IO_HUP`, `G_IO_ERR` or `G_IO_NVAL`. -/
def IsPureLoss (cond : GIOCondition) : Prop := cond = ofHup ∨ cond = ofErr ∨ cond = ofNval

instance (cond : GIOCondition) : Decidable cond.IsPureLoss :=
  inferInstanceAs (Decidable (_ ∨ _ ∨ _))

end GIOCondition

/-- The outcome of a connect attempt, with what the calls inside `connect_cb` return.

`getError` is the message with which `bt_io_get` fails, if it does; `imtu` and `cid` are the
values it reads otherwise. `shutdownError` tells whether `g_io_channel_shutdown` fails and
`attribFails` whether `g_attrib_new` returns `NULL`. -/
inductive Outcome
  | error (message : String)
  | success (getError : Option String) (imtu cid : UInt16) (shutdownError attribFails : Bool)
  deriving DecidableEq, Repr

/-- The places where a `GError` of an attempt is made. -/
inductive ErrorSite
  /-- `connect_cb` of `btio.c`, the outcome of the attempt. -/
  | outcome
  /-- `bt_io_connect`, when the attempt fails synchronously. -/
  | synchronous
  /-- `bt_io_get` in `connect_cb`. -/
  | getOptions
  /-- `g_io_channel_shutdown` in `connect_cb`. -/
  | shutdown
  deriving DecidableEq, Repr

/-- What the code does, in the order in which it does it. The constructors that take a `chan` say
to which channel the code did it: `none` is the null pointer. Those of `connect_cb` also say of
which attempt's outcome the code was running. -/
inductive Act
  /-- `dev->evh` is called. -/
  | event (event : Event)
  /-- `lble_connect` starts the attempt. -/
  | started (attempt : Chan)
  /-- `lble_disconnect` finds `STATE_CONNECTING` and calls the current attempt off. -/
  | cancelled (attempt : Chan)
  /-- `bt_io_connect` opens the channel of the attempt and waits for its outcome. -/
  | opened (attempt : Chan)
  /-- `g_io_channel_shutdown` in `connect_cb`. -/
  | shutdown (attempt : Chan) (chan : Option Chan)
  /-- `g_io_channel_unref` in `connect_cb`. -/
  | unref (attempt : Chan) (chan : Option Chan)
  /-- `g_io_add_watch` in `connect_cb`. -/
  | watch (attempt : Chan) (chan : Option Chan)
  /-- `g_attrib_new` on the channel of the attempt, with this MTU. -/
  | attribNew (attempt : Chan) (mtu : UInt16)
  /-- `connect_cb` sets `STATE_CONNECTED`. -/
  | established (attempt : Chan)
  /-- `connect_cb` sets `STATE_DISCONNECTED` because the attempt failed. -/
  | dropped (attempt : Chan)
  /-- `g_attrib_unref` of the attribute client of a channel, by `lble_disconnect`. -/
  | attribUnref (chan : Chan)
  /-- A `GError` is made. -/
  | errorNew (attempt : Chan) (site : ErrorSite)
  /-- A `GError` is freed. -/
  | errorFree (attempt : Chan) (site : ErrorSite)
  deriving DecidableEq, Repr

/-- Code that is still to be run. -/
inductive DevTodo
  /-- `emit` is called with this event. -/
  | emit (event : Event)
  /-- `emit` is called with `STATE_CHANGED` and the state at that moment. -/
  | emitState
  /-- The event handler is running. -/
  | handler
  /-- `lble_connect` after its first event: `gatt_connect` is called; `failure` is the message
  with which it fails, if it does. -/
  | gattConnect (attempt : Chan) (failure : Option String)
  /-- `lble_connect` after the event of a synchronous failure. -/
  | connectFailed (attempt : Chan)
  /-- `lble_connect` returns. -/
  | connectReturn
  /-- `connect_cb` after the event of a failed attempt. -/
  | connectError (attempt : Chan)
  /-- `connect_cb` of a successful attempt, after the event of a failed `bt_io_get`. -/
  | connectEstablish (attempt : Chan) (getFailed : Bool) (imtu cid : UInt16)
      (attribFails : Bool)
  /-- `connect_cb` of `btio.c` after `conn->connect` returned: it frees the error of the outcome,
  if there is one, and its source is removed. -/
  | connectDone (attempt : Chan) (failed : Bool)
  /-- `channel_watcher` returns `FALSE`: its source is removed. -/
  | watcherDone (chan : Chan)
  deriving DecidableEq, Repr

/-- The device handle `devh_t`, the main-loop sources that were given it, the channels that were
shut down, the code still to be run, and the record of what the code did. -/
structure Device where
  /-- `dev->conn_state` -/
  connState : DevState
  /-- `dev->iochannel` -/
  iochannel : Option Chan
  /-- `dev->attrib`, named by the channel it was made on. -/
  attrib : Option Chan
  /-- Whether `dev->evh` is set. -/
  evh : Bool
  /-- The name of the next attempt. -/
  nextAttempt : Chan
  /-- The attempts whose outcome is still awaited or being handled. -/
  attempts : List Chan
  /-- The registered watches with callback `channel_watcher`. -/
  watches : List Chan
  /-- The channels that were shut down. -/
  shut : List Chan
  /-- The code still to be run, innermost first. -/
  todo : List DevTodo
  /-- What the code did. -/
  log : List Act
  deriving DecidableEq, Repr

namespace Device

/-- The handle made by `lble_newdev`, with an event handler if `evh` says so. -/
def newdev (evh : Bool) : Device where
  connState := .disconnected
  iochannel := none
  attrib := none
  evh := evh
  nextAttempt := 0
  attempts := []
  watches := []
  shut := []
  todo := []
  log := []

/-- Record what the code does. -/
def record (d : Device) (acts : List Act) : Device := { d with log := d.log ++ acts }

/-- Put code in front of the code still to be run. -/
def push (d : Device) (todo : List DevTodo) : Device := { d with todo := todo ++ d.todo }

/-- `emit`: the handler is called if there is one. -/
def emit (d : Device) (event : Event) : Device :=
  if d.evh then (d.record [.event event]).push [.handler] else d

/-- `lble_connect` up to its first event. -/
def lbleConnect (d : Device) (failure : Option String) : Device :=
  if d.connState = .disconnected then
    { (d.push [.emitState, .gattConnect d.nextAttempt failure, .connectReturn]).record
        [.started d.nextAttempt] with
      connState := .connecting
      nextAttempt := d.nextAttempt + 1 }
  else d

/-- `gatt_connect` in `lble_connect`: `bt_io_connect` opens the channel of the attempt and adds
the watch that waits for its outcome, or it fails. -/
def gattConnect (d : Device) (attempt : Chan) : Option String → Device
  | none =>
    { d.record [.opened attempt] with
      iochannel := some attempt
      attempts := d.attempts ++ [attempt] }
  | some message =>
    { (d.record [.errorNew attempt .synchronous]).push
        [.emit (.errorOccured message), .connectFailed attempt, .emitState] with
      iochannel := none }

/-- `lble_disconnect` up to its event. -/
def lbleDisconnect (d : Device) : Device :=
  match d.connState with
  | .disconnected => d
  | .connecting =>
    { d.record [.cancelled (d.nextAttempt - 1)] with connState := .disconnected }
  | .connected =>
    { (d.record (d.attrib.toList.map .attribUnref)).push [.emitState] with
      attrib := none
      iochannel := none
      connState := .disconnected }

/-- The MTU that `connect_cb` gives to `g_attrib_new`: `ATT_DEFAULT_LE_MTU` if `bt_io_get` failed
or the channel is the fixed ATT channel. -/
def attribMtu (getFailed : Bool) (imtu cid : UInt16) : UInt16 :=
  if getFailed ∨ cid = 4 then 23 else imtu

/-- `connect_cb` called with the outcome of an attempt, up to its first event.

This is also the `connect_cb` of `btio.c` around it: when the channel of the attempt has been shut
down its descriptor is invalid (`G_IO_NVAL`), and the outcome is not reported. -/
def connectCb (d : Device) (attempt : Chan) (outcome : Outcome) : Device :=
  if attempt ∈ d.shut then { d with attempts := d.attempts.erase attempt }
  else match outcome with
    | .error message =>
      (d.record [.errorNew attempt .outcome]).push
        [.emit (.errorOccured message), .connectError attempt, .emitState,
          .connectDone attempt true]
    | .success getError imtu cid shutdownError attribFails =>
      if d.connState = .disconnected then
        { (d.record ([.shutdown attempt d.iochannel] ++
            (if shutdownError then
              [.errorNew attempt .shutdown, .errorFree attempt .shutdown] else []) ++
            [.unref attempt d.iochannel])).push [.emitState, .connectDone attempt false] with
          shut := d.shut ++ d.iochannel.toList
          iochannel := none }
      else match getError with
        | none => d.push [.connectEstablish attempt false imtu cid attribFails, .emitState,
            .connectDone attempt false]
        | some message =>
          (d.record [.errorNew attempt .getOptions]).push
            [.emit (.errorOccured message), .connectEstablish attempt true imtu cid attribFails,
              .emitState, .connectDone attempt false]

/-- `channel_watcher` called with a mask: its `switch` compares the whole mask with single
conditions. -/
def channelWatcher (d : Device) (chan : Chan) (cond : GIOCondition) : Device :=
  if cond = .ofHup ∨ cond = .ofErr ∨ cond = .ofNval then
    (d.push [.watcherDone chan]).lbleDisconnect
  else if cond = .ofIn ∨ cond = .ofPri then
    d.push [.emit .dataToRead, .watcherDone chan]
  else if cond = .ofOut then
    d.push [.emit .dataToWrite, .watcherDone chan]
  else d.push [.watcherDone chan]

/-- Run a piece of the code still to be run. -/
def resume (d : Device) : DevTodo → Device
  | .emit event => d.emit event
  | .emitState => d.emit (.stateChanged d.connState)
  | .handler => d
  | .gattConnect attempt failure => d.gattConnect attempt failure
  | .connectFailed attempt =>
    { d.record [.errorFree attempt .synchronous] with connState := .disconnected }
  | .connectReturn => d
  | .connectError attempt =>
    { d.record [.errorFree attempt .outcome, .unref attempt d.iochannel, .dropped attempt] with
      iochannel := none
      connState := .disconnected }
  | .connectEstablish attempt getFailed imtu cid attribFails =>
    { d.record ((if getFailed then [.errorFree attempt .getOptions] else []) ++
        [.watch attempt d.iochannel, .attribNew attempt (attribMtu getFailed imtu cid),
          .established attempt]) with
      watches := d.watches ++ d.iochannel.toList
      attrib := if attribFails then none else some attempt
      connState := .connected }
  | .connectDone attempt failed =>
    { d.record (if failed then [.errorFree attempt .outcome] else []) with
      attempts := d.attempts.erase attempt }
  | .watcherDone chan => { d with watches := d.watches.erase chan }

end Device

/-- The calls of the application that concern the connection. -/
inductive DevCall
  /-- `lble_connect`; `failure` is the message with which `bt_io_connect` will fail, if it does. -/
  | connect (failure : Option String)
  /-- `lble_disconnect` -/
  | disconnect
  /-- `lble_set_event_handler` -/
  | setEventHandler (evh : Bool)
  deriving DecidableEq, Repr

/-- The steps of the connection management. -/
inductive DevLabel
  /-- The application calls the library, at top level or inside the event handler. -/
  | call (call : DevCall)
  /-- The event handler returns. -/
  | ret
  /-- The library runs on to its next event or to the end of a function. -/
  | resume
  /-- The main loop dispatches the outcome of an attempt. -/
  | outcome (attempt : Chan) (outcome : Outcome)
  /-- The main loop dispatches a mask to the watch of a channel. -/
  | condition (chan : Chan) (cond : GIOCondition)
  deriving DecidableEq, Repr

namespace Device

/-- The application is in control: no library code is running, or the event handler is. -/
def AppInControl (d : Device) : Prop := d.todo = [] ∨ d.todo.head? = some .handler

instance (d : Device) : Decidable d.AppInControl := inferInstanceAs (Decidable (_ ∨ _))

/-- A call of the application. -/
def call (d : Device) : DevCall → Device
  | .connect failure => d.lbleConnect failure
  | .disconnect => d.lbleDisconnect
  | .setEventHandler evh => { d with evh := evh }

/-- One step of the connection management. -/
def step (d : Device) : DevLabel → Option Device
  | .call call => if d.AppInControl then some (d.call call) else none
  | .ret => match d.todo with
    | .handler :: todo => some { d with todo := todo }
    | _ => none
  | .resume => match d.todo with
    | .handler :: _ => none
    | code :: todo => some ({ d with todo := todo }.resume code)
    | [] => none
  | .outcome attempt outcome =>
    if d.todo = [] ∧ attempt ∈ d.attempts then some (d.connectCb attempt outcome) else none
  | .condition chan cond =>
    if d.todo = [] ∧ chan ∈ d.watches then some (d.channelWatcher chan cond) else none

/-- The connection management as a labelled machine. -/
def machine : LabelledMachine Device DevLabel := ⟨step⟩

/-! ### What a step is -/

section Steps

variable {d e : Device} {k c : Chan} {outcome : Outcome} {cond : GIOCondition}

/-- The step in which the application calls the library. -/
theorem step_call {call : DevCall} (h : d.step (.call call) = some e) :
    d.AppInControl ∧ e = d.call call := by
  obtain ⟨hcontrol, he⟩ := Option.ite_none_right_eq_some.mp h
  exact ⟨hcontrol, (Option.some.inj he).symm⟩

/-- The step in which the event handler returns. -/
theorem step_ret (h : d.step .ret = some e) :
    ∃ todo, d.todo = .handler :: todo ∧ e = { d with todo := todo } := by
  simp only [step] at h
  split at h
  · rename_i todo htodo
    exact ⟨todo, htodo, (Option.some.inj h).symm⟩
  · cases h

/-- The step in which the library runs on. -/
theorem step_resume (h : d.step .resume = some e) :
    ∃ code todo, d.todo = code :: todo ∧ code ≠ .handler ∧
      e = { d with todo := todo }.resume code := by
  simp only [step] at h
  split at h
  · cases h
  · rename_i code todo hne htodo
    exact ⟨code, todo, htodo, hne, (Option.some.inj h).symm⟩
  · cases h

/-- The step in which the outcome of an attempt is dispatched. -/
theorem step_outcome (h : d.step (.outcome k outcome) = some e) :
    d.todo = [] ∧ k ∈ d.attempts ∧ e = d.connectCb k outcome := by
  obtain ⟨⟨htodo, hk⟩, he⟩ := Option.ite_none_right_eq_some.mp h
  exact ⟨htodo, hk, (Option.some.inj he).symm⟩

/-- The step in which a mask is dispatched to a watch. -/
theorem step_condition (h : d.step (.condition c cond) = some e) :
    d.todo = [] ∧ c ∈ d.watches ∧ e = d.channelWatcher c cond := by
  obtain ⟨⟨htodo, hc⟩, he⟩ := Option.ite_none_right_eq_some.mp h
  exact ⟨htodo, hc, (Option.some.inj he).symm⟩

end Steps

end Device

end Libble

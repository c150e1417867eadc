import Libble.Device.Handle
import Libble.Link.Machine

/-!
# The library as a whole

One handle manages connections one after another, and each successful attempt makes an attribute
client of its own. The code of the handle and of all clients runs in one thread, on one stack: the
event handler, called by a client, may call `lble_disconnect`, which gives the client up while its
own code waits below.

A state of the program holds the handle, the client of each attempt that got one, and the stack.
The code of the library is run by the functions of `Device` and `Link` on a component whose own
`todo` is empty; what they leave in it is put on the stack. The event handler is set, and the
application frees the handle at top level and does not use it afterwards.

## Main definitions

* `Frame`, `Program`: suspended code and the state.
* `Program.runDevice`, `Program.runClient`: a component runs.
* `Program.perform`: what the handle does to the clients.
* `Program.step`, `Program.machine`.
-/

namespace Libble

open Gatt

/-- A piece of code that is still to be run: of the handle, or of the client of a channel. -/
inductive Frame
  | device (code : DevTodo)
  | client (chan : Chan) (code : Link.Code)
  deriving DecidableEq, Repr

namespace Frame

/-- The event handler is running. -/
def isHandler : Frame → Bool
  | device code => code = .handler
  | client _ code => code = .handler

/-- The code, if it belongs to the handle. -/
def deviceCode? : Frame → Option DevTodo
  | device code => some code
  | client .. => none

/-- The code, if it belongs to the client of the channel. -/
def clientCode? (k : Chan) : Frame → Option Link.Code
  | device _ => none
  | client j code => if j = k then some code else none

end Frame

/-- The handle, the attribute clients of the connections, and the code still to be run. -/
structure Program where
  /-- The handle. -/
  device : Device
  /-- The clients by the channel that they were made on. -/
  clients : Chan → Option Link
  /-- The code still to be run, innermost first. -/
  stack : List Frame
  /-- `lble_freedev` was called. -/
  released : Bool

namespace Program

/-- The program after `lble_newdev` and `lble_set_event_handler`. -/
def init : Program where
  device := .newdev true
  clients := fun _ => none
  stack := []
  released := false

/-- The code of the handle that is still to be run. -/
def deviceCodes (p : Program) : List DevTodo := p.stack.filterMap Frame.deviceCode?

/-- The code of a client that is still to be run. -/
def clientCodes (p : Program) (k : Chan) : List Link.Code := p.stack.filterMap (Frame.clientCode? k)

/-- The handle with its code. -/
def handle (p : Program) : Device := { p.device with todo := p.deviceCodes }

/-- The client of a channel with its code. -/
def client? (p : Program) (k : Chan) : Option Link :=
  (p.clients k).map fun s => { s with todo := p.clientCodes k }

/-! ### Running a component -/

/-- A client is in a new state; the code in its `todo` is put on the stack. -/
def setClient (p : Program) (k : Chan) (s : Link) : Program :=
  { p with
    clients := Function.update p.clients k (some s)
    stack := s.todo.map (.client k) ++ p.stack }

/-- The code of a client is run. -/
def runClient (p : Program) (k : Chan) (f : Link → Link) : Program :=
  match p.clients k with
  | some s => p.setClient k (f { s with todo := [] })
  | none => p

/-- `g_attrib_new`, which fails for an MTU that `bt_att_set_mtu` does not accept. -/
def newClient (mtu : UInt16) : Option Link :=
  if h : 23 ≤ mtu.toNat then some (Link.new ⟨mtu, h⟩) else none

/-- What the handle does to the clients: `g_attrib_unref` and `g_attrib_new`. -/
def perform (p : Program) : Act → Program
  | .attribUnref k => p.runClient k .drop
  | .attribNew k mtu =>
    if p.device.attrib = some k then
      { p with clients := Function.update p.clients k (newClient mtu) }
    else p
  | _ => p

/-- The handle is in a new state; the code in its `todo` is put on the stack. -/
def setDevice (p : Program) (d : Device) : Program :=
  { p with device := d, stack := d.todo.map .device ++ p.stack }

/-- The code of the handle is run, and it does what its record then says to the clients. -/
def runDevice (p : Program) (f : Device → Device) : Program :=
  let d := f { p.device with todo := [] }
  (d.log.drop p.device.log.length).foldl perform (p.setDevice d)

/-- `lble_request`, `lble_write`, `lble_discover_hand`, `lble_discover_char` and `lble_listen` do
something only in `STATE_CONNECTED`, and the functions of the client nothing about the null
pointer. -/
def onConnected (p : Program) (f : Link → Link) : Program :=
  match p.device.connState, p.device.attrib with
  | .connected, some k => p.runClient k f
  | _, _ => p

/-! ### Steps -/

/-- The steps of the program. -/
inductive Label
  /-- The application calls `lble_connect`, `lble_disconnect` or `lble_set_event_handler`. -/
  | manage (call : DevCall)
  /-- The application calls `lble_request`, `lble_write`, `lble_discover_hand` or
  `lble_discover_char`. -/
  | call (call : Call)
  /-- The application calls `lble_listen`. -/
  | listen
  /-- The application calls `lble_freedev` at top level. -/
  | freedev
  /-- The event handler returns. -/
  | ret
  /-- The library runs on. -/
  | resume
  /-- The main loop dispatches the outcome of an attempt. -/
  | outcome (attempt : Chan) (outcome : Outcome)
  /-- The main loop dispatches a mask to the watch of a channel. -/
  | condition (chan : Chan) (cond : GIOCondition)
  /-- The main loop dispatches to the client of a channel. -/
  | dispatch (chan : Chan) (label : Link.Label)
  deriving DecidableEq, Repr

/-- The application is in control: no library code is running, or the event handler is. -/
def AppInControl (p : Program) : Prop := p.stack = [] ∨ p.stack.head?.any Frame.isHandler

instance (p : Program) : Decidable p.AppInControl := inferInstanceAs (Decidable (_ ∨ _))

/-- The application is in control and has not freed the handle. -/
def Usable (p : Program) : Prop := p.AppInControl ∧ p.released = false

instance (p : Program) : Decidable p.Usable := inferInstanceAs (Decidable (_ ∧ _))

/-- `g_attrib_new` fails in the outcome if `bt_att_set_mtu` does not accept the MTU. -/
def Consistent : Outcome → Prop
  | .success getError imtu cid _ attribFails =>
    attribFails = true ∨ 23 ≤ (Device.attribMtu getError.isSome imtu cid).toNat
  | .error _ => True

instance (outcome : Outcome) : Decidable (Consistent outcome) :=
  match outcome with
  | .success .. => inferInstanceAs (Decidable (_ ∨ _))
  | .error _ => .isTrue trivial

/-- The dispatches of the main loop to a client. -/
def dispatched : Link.Label → Bool
  | .canWrite _ | .canRead .. | .hup | .timeout => true
  | _ => false

/-- One step of the program. -/
def step (p : Program) : Label → Option Program
  | .manage call =>
    if p.Usable ∧ call ≠ .setEventHandler false then some (p.runDevice (·.call call)) else none
  | .call call =>
    if p.Usable ∧ Link.Admissible call then some (p.onConnected (·.call call)) else none
  | .listen => if p.Usable then some (p.onConnected .listen) else none
  | .freedev =>
    if p.stack = [] ∧ p.released = false then some { p with released := true } else none
  | .ret => match p.stack with
    | frame :: stack => if frame.isHandler then some { p with stack := stack } else none
    | [] => none
  | .resume => match p.stack with
    | .device code :: stack =>
      if code = .handler then none else some (runDevice { p with stack := stack } (·.resume code))
    | .client k code :: stack =>
      if code = .handler then none else some (runClient { p with stack := stack } k (·.run code))
    | [] => none
  | .outcome attempt outcome =>
    if p.stack = [] ∧ attempt ∈ p.device.attempts ∧ Consistent outcome then
      some (p.runDevice (·.connectCb attempt outcome))
    else none
  | .condition chan cond =>
    if p.stack = [] ∧ chan ∈ p.device.watches then some (p.runDevice (·.channelWatcher chan cond))
    else none
  | .dispatch chan label =>
    if p.stack = [] ∧ dispatched label then
      (p.clients chan).bind fun s => (Link.step { s with todo := [] } label).map (p.setClient chan)
    else none

/-- The program as a labelled machine. -/
def machine : LabelledMachine Program Label := ⟨step⟩

/-! ### What a step is -/

section Steps

variable {p q : Program}

theorem step_manage {call : DevCall} (h : p.step (.manage call) = some q) :
    p.Usable ∧ q = p.runDevice (·.call call) := by
  obtain ⟨⟨usable, -⟩, hq⟩ := Option.ite_none_right_eq_some.mp h
  exact ⟨usable, (Option.some.inj hq).symm⟩

theorem step_call {call : Call} (h : p.step (.call call) = some q) :
    p.Usable ∧ Link.Admissible call ∧ q = p.onConnected (·.call call) := by
  obtain ⟨⟨usable, admissible⟩, hq⟩ := Option.ite_none_right_eq_some.mp h
  exact ⟨usable, admissible, (Option.some.inj hq).symm⟩

theorem step_listen (h : p.step .listen = some q) : p.Usable ∧ q = p.onConnected .listen := by
  obtain ⟨usable, hq⟩ := Option.ite_none_right_eq_some.mp h
  exact ⟨usable, (Option.some.inj hq).symm⟩

theorem step_freedev (h : p.step .freedev = some q) :
    p.stack = [] ∧ p.released = false ∧ q = { p with released := true } := by
  obtain ⟨⟨idle, kept⟩, hq⟩ := Option.ite_none_right_eq_some.mp h
  exact ⟨idle, kept, (Option.some.inj hq).symm⟩

/-- The step in which the event handler returns. -/
theorem step_ret (h : p.step .ret = some q) :
    ∃ frame stack, p.stack = frame :: stack ∧ frame.isHandler = true ∧
      q = { p with stack := stack } := by
  simp only [step] at h
  split at h
  · rename_i frame stack hstack
    obtain ⟨handler, hq⟩ := Option.ite_none_right_eq_some.mp h
    exact ⟨frame, stack, hstack, handler, (Option.some.inj hq).symm⟩
  · cases h

/-- The step in which the library runs on, in the handle or in a client. -/
theorem step_resume (h : p.step .resume = some q) :
    (∃ code stack, p.stack = .device code :: stack ∧ code ≠ .handler ∧
      q = runDevice { p with stack := stack } (·.resume code)) ∨
    ∃ k code stack, p.stack = .client k code :: stack ∧ code ≠ .handler ∧
      q = runClient { p with stack := stack } k (·.run code) := by
  simp only [step] at h
  split at h
  · rename_i code stack hstack
    obtain ⟨hne, hq⟩ := Option.ite_none_left_eq_some.mp h
    exact .inl ⟨code, stack, hstack, hne, (Option.some.inj hq).symm⟩
  · rename_i k code stack hstack
    obtain ⟨hne, hq⟩ := Option.ite_none_left_eq_some.mp h
    exact .inr ⟨k, code, stack, hstack, hne, (Option.some.inj hq).symm⟩
  · cases h

theorem step_outcome {k : Chan} {outcome : Outcome} (h : p.step (.outcome k outcome) = some q) :
    p.stack = [] ∧ k ∈ p.device.attempts ∧ Consistent outcome ∧
      q = p.runDevice (·.connectCb k outcome) := by
  obtain ⟨⟨idle, hk, consistent⟩, hq⟩ := Option.ite_none_right_eq_some.mp h
  exact ⟨idle, hk, consistent, (Option.some.inj hq).symm⟩

theorem step_condition {c : Chan} {cond : GIOCondition} (h : p.step (.condition c cond) = some q) :
    p.stack = [] ∧ c ∈ p.device.watches ∧ q = p.runDevice (·.channelWatcher c cond) := by
  obtain ⟨⟨idle, hc⟩, hq⟩ := Option.ite_none_right_eq_some.mp h
  exact ⟨idle, hc, (Option.some.inj hq).symm⟩

/-- The step in which the main loop dispatches to a client. -/
theorem step_dispatch {k : Chan} {label : Link.Label} (h : p.step (.dispatch k label) = some q) :
    p.stack = [] ∧ dispatched label = true ∧ ∃ s t, p.clients k = some s ∧
      Link.step { s with todo := [] } label = some t ∧ q = p.setClient k t := by
  obtain ⟨⟨idle, hlabel⟩, hq⟩ := Option.ite_none_right_eq_some.mp h
  obtain ⟨s, hs, hq⟩ := Option.bind_eq_some_iff.mp hq
  obtain ⟨t, ht, hq⟩ := Option.map_eq_some_iff.mp hq
  exact ⟨idle, hlabel, s, t, hs, ht, hq.symm⟩

end Steps

end Program

end Libble

import Libble.Device.Lifetime
import Libble.Link.Parting
import Libble.Program.Framing
import Libble.Program.Machine

/-!
# The components of the program

The program is one machine with one stack. This file shows that it is composed of the machines that
the rest of the development is about: what the handle goes through in a run of the program is a run
of `Device.machine`, and what a client goes through is a run of `Link.machine`, from the state that
`g_attrib_new` leaves. So what holds in all runs of a component holds of it in the program.

That the application is in control of the program must imply that it is in control of the component
that it calls. It does because of what can be below what on the stack: below code of a client that
may call the event handler there is only code of the same client, and while the connection is up
there is only code of the handle below code of the handle.

## Main definitions

* `Program.Stacked`: what is below what.
* `Program.ClientTurn`: what a step of the program is to a client.
* `Program.Composed`: the components, each reached by a run of its own machine.

## Main results

* `Program.Composed.step`: the invariant.
* `Program.composed`: every run of the program is composed of runs of its components.
-/

namespace Libble

open Gatt

namespace Frame

/-- The client that the code belongs to, if it is not the handle's. -/
def owner : Frame → Option Chan
  | device _ => none
  | client k _ => some k

/-- The code may call the event handler of a client. -/
def loud : Frame → Bool
  | device _ => false
  | client _ code => !code.tidies

/-- The code makes a client. -/
def establishes : Frame → Bool
  | device (.connectEstablish ..) => true
  | _ => false

/-- The code makes a client only with an MTU that is accepted. -/
def Consistent : Frame → Prop
  | device (.connectEstablish _ getFailed imtu cid attribFails) =>
    attribFails = true ∨ 23 ≤ (Device.attribMtu getFailed imtu cid).toNat
  | _ => True

/-- The first piece of code may be above the second one. -/
structure Above (f g : Frame) : Prop where
  loud : f.loud = true → g.owner = f.owner
  establishes : f.establishes = true → g.owner = none

variable {k j : Chan}

theorem filterMap_device (codes : List DevTodo) :
    (codes.map device).filterMap deviceCode? = codes := by
  rw [List.filterMap_map]
  exact List.filterMap_some

theorem filterMap_client (k : Chan) (codes : List Link.Code) :
    (codes.map (client k)).filterMap (clientCode? k) = codes := by
  have same : clientCode? k ∘ client k = some := funext fun _ => if_pos rfl
  rw [List.filterMap_map, same, List.filterMap_some]

theorem filterMap_deviceCode?_eq_nil {stack : List Frame} (h : ∀ f ∈ stack, f.owner ≠ none) :
    stack.filterMap deviceCode? = [] :=
  List.filterMap_eq_nil_iff.mpr fun f hf => by
    cases f with
    | device code => exact absurd rfl (h _ hf)
    | client j code => rfl

theorem filterMap_clientCode?_eq_nil {stack : List Frame} (h : ∀ f ∈ stack, f.owner ≠ some k) :
    stack.filterMap (clientCode? k) = [] :=
  List.filterMap_eq_nil_iff.mpr fun f hf => by
    cases f with
    | device code => rfl
    | client j code => exact if_neg fun heq => h _ hf (congrArg some heq)

theorem owner_of_mem_device {f : Frame} {codes : List DevTodo} (h : f ∈ codes.map device) :
    f.owner = none := by
  obtain ⟨code, -, rfl⟩ := List.mem_map.mp h
  rfl

theorem owner_of_mem_client {f : Frame} {codes : List Link.Code} (h : f ∈ codes.map (client k)) :
    f.owner = some k := by
  obtain ⟨code, -, rfl⟩ := List.mem_map.mp h
  rfl

end Frame

namespace Program

variable {p q : Program} {label : Label} {k j : Chan} {s t : Link} {d : Device}

/-! ### The views -/

theorem handle_setDevice (p : Program) (d : Device) :
    (p.setDevice d).handle = d.atop p.deviceCodes := by
  simp only [handle, deviceCodes, setDevice, Device.atop, List.filterMap_append,
    Frame.filterMap_device]

theorem handle_setClient (p : Program) (k : Chan) (s : Link) :
    (p.setClient k s).handle = p.handle := by
  have none : (s.todo.map (Frame.client k)).filterMap Frame.deviceCode? = [] :=
    Frame.filterMap_deviceCode?_eq_nil fun f hf h =>
      nomatch (Frame.owner_of_mem_client hf).symm.trans h
  simp only [handle, deviceCodes, setClient, List.filterMap_append, none, List.nil_append]

theorem clientCodes_setDevice (p : Program) (d : Device) (k : Chan) :
    (p.setDevice d).clientCodes k = p.clientCodes k := by
  have none : (d.todo.map Frame.device).filterMap (Frame.clientCode? k) = [] :=
    Frame.filterMap_clientCode?_eq_nil fun f hf h =>
      nomatch (Frame.owner_of_mem_device hf).symm.trans h
  simp only [clientCodes, setDevice, List.filterMap_append, none, List.nil_append]

theorem client?_setDevice (p : Program) (d : Device) (k : Chan) :
    (p.setDevice d).client? k = p.client? k := by
  rw [client?, clientCodes_setDevice]
  rfl

theorem client?_setClient (p : Program) (k : Chan) (s : Link) :
    (p.setClient k s).client? k = some (s.atop (p.clientCodes k)) := by
  simp only [client?, clientCodes, setClient, Function.update_self, List.filterMap_append,
    Frame.filterMap_client, Option.map_some, Link.atop]

theorem client?_setClient_of_ne (p : Program) (s : Link) (h : j ≠ k) :
    (p.setClient k s).client? j = p.client? j := by
  have none : (s.todo.map (Frame.client k)).filterMap (Frame.clientCode? j) = [] :=
    Frame.filterMap_clientCode?_eq_nil fun f hf heq =>
      h (Option.some.inj ((Frame.owner_of_mem_client hf).symm.trans heq)).symm
  simp only [client?, clientCodes, setClient, Function.update_of_ne h, List.filterMap_append, none,
    List.nil_append]

theorem handle_runClient (p : Program) (k : Chan) (f : Link → Link) :
    (p.runClient k f).handle = p.handle := by
  rw [runClient]
  split
  · exact handle_setClient ..
  · rfl

theorem handle_perform (p : Program) (act : Act) : (p.perform act).handle = p.handle := by
  cases act with
  | attribUnref k => exact handle_runClient ..
  | attribNew k mtu =>
    simp only [perform]
    split <;> rfl
  | _ => rfl

theorem handle_foldl_perform (acts : List Act) (p : Program) :
    (acts.foldl perform p).handle = p.handle := by
  induction acts generalizing p with
  | nil => rfl
  | cons act acts ih => exact (ih _).trans (handle_perform p act)

/-- The code of the handle does on top of its suspended code what it does alone. -/
def Lifts (p : Program) (f : Device → Device) : Prop :=
  f p.handle = (f { p.device with todo := [] }).atop p.deviceCodes

theorem lifts_of_atop {f : Device → Device} (hf : ∀ d rest, f (d.atop rest) = (f d).atop rest) :
    p.Lifts f := hf { p.device with todo := [] } p.deviceCodes

theorem lifts_of_idle (idle : p.stack = []) (f : Device → Device) : p.Lifts f := by
  have none : p.deviceCodes = [] := by rw [deviceCodes, idle]; rfl
  rw [Lifts, handle, none, Device.atop, List.append_nil]

/-- The handle runs on top of its suspended code. -/
theorem handle_runDevice {f : Device → Device} (hf : p.Lifts f) :
    (p.runDevice f).handle = f p.handle := by
  simp only [runDevice, handle_foldl_perform, handle_setDevice]
  exact hf.symm

/-! ### What the handle does to the clients -/

/-- The act does nothing to a client. -/
def calm : Act → Bool
  | .attribUnref _ | .attribNew .. => false
  | _ => true

/-- The handle does nothing to the clients, and does not come into `STATE_CONNECTED`. -/
structure Calm (d e : Device) : Prop where
  log : ∃ acts, e.log = d.log ++ acts ∧ ∀ a ∈ acts, calm a = true
  attrib : e.attrib = d.attrib
  connected : e.connState = .connected → d.connState = .connected

theorem foldl_perform_of_calm {acts : List Act} (h : ∀ a ∈ acts, calm a = true) (p : Program) :
    acts.foldl perform p = p := by
  induction acts with
  | nil => rfl
  | cons act acts ih =>
    rw [List.forall_mem_cons] at h
    have same : p.perform act = p := by
      cases act <;> first | rfl | cases h.1
    rw [List.foldl_cons, same, ih h.2]

theorem runDevice_of_log {f : Device → Device} {acts : List Act}
    (h : (f { p.device with todo := [] }).log = p.device.log ++ acts) :
    p.runDevice f = acts.foldl perform (p.setDevice (f { p.device with todo := [] })) := by
  simp only [runDevice, h, List.drop_left]

theorem runDevice_of_calm {f : Device → Device}
    (h : Calm { p.device with todo := [] } (f { p.device with todo := [] })) :
    p.runDevice f = p.setDevice (f { p.device with todo := [] }) := by
  obtain ⟨acts, hlog, calm⟩ := h.log
  rw [runDevice_of_log hlog, foldl_perform_of_calm calm]

theorem Calm.refl (d : Device) : Calm d d := ⟨⟨[], (List.append_nil _).symm, nofun⟩, rfl, id⟩

theorem calm_emit (d : Device) (event : Event) : Calm d (d.emit event) := by
  rw [Device.emit]
  split
  · exact ⟨⟨_, rfl, by simp [calm]⟩, rfl, id⟩
  · exact .refl d

theorem calm_lbleConnect (d : Device) (failure : Option String) :
    Calm d (d.lbleConnect failure) := by
  rw [Device.lbleConnect]
  split
  · exact ⟨⟨_, rfl, by simp [calm]⟩, rfl, by simp⟩
  · exact .refl d

/-- `lble_disconnect` without a client. -/
theorem calm_lbleDisconnect (h : d.connState = .connected → d.attrib = none) :
    Calm d d.lbleDisconnect := by
  unfold Device.lbleDisconnect
  cases hconn : d.connState with
  | disconnected => exact .refl d
  | connecting => exact ⟨⟨_, rfl, by simp [calm]⟩, rfl, nofun⟩
  | connected =>
    have attrib := h hconn
    refine ⟨⟨_, rfl, ?_⟩, attrib.symm, nofun⟩
    rw [attrib]
    nofun

/-- `lble_disconnect` of a client. -/
theorem lbleDisconnect_of_client (up : d.connState = .connected) (hk : d.attrib = some k) :
    d.lbleDisconnect = { (d.record [.attribUnref k]).push [.emitState] with
      attrib := none
      iochannel := none
      connState := .disconnected } := by
  simp only [Device.lbleDisconnect, up, hk]
  rfl

theorem calm_resume {code : DevTodo} (h : (Frame.device code).establishes = false) :
    Calm d (d.resume code) := by
  cases code with
  | emit event => exact calm_emit d event
  | emitState => exact calm_emit d _
  | gattConnect k failure =>
    cases failure with
    | none => exact ⟨⟨_, rfl, by simp [calm]⟩, rfl, id⟩
    | some message => exact ⟨⟨_, rfl, by simp [calm]⟩, rfl, id⟩
  | connectFailed k => exact ⟨⟨_, rfl, by simp [calm]⟩, rfl, nofun⟩
  | connectError k => exact ⟨⟨_, rfl, by simp [calm]⟩, rfl, nofun⟩
  | connectDone k failed =>
    refine ⟨⟨_, rfl, ?_⟩, rfl, id⟩
    cases failed <;> simp [calm]
  | connectEstablish => cases h
  | handler => exact .refl d
  | connectReturn => exact .refl d
  | watcherDone c => exact ⟨⟨[], (List.append_nil _).symm, nofun⟩, rfl, id⟩

theorem calm_connectCb (d : Device) (k : Chan) (outcome : Outcome) :
    Calm d (d.connectCb k outcome) := by
  unfold Device.connectCb
  split
  · exact ⟨⟨[], (List.append_nil _).symm, nofun⟩, rfl, id⟩
  · cases outcome with
    | error message => exact ⟨⟨_, rfl, by simp [calm]⟩, rfl, id⟩
    | success getError imtu cid shutdownError attribFails =>
      dsimp only
      split
      · refine ⟨⟨_, rfl, ?_⟩, rfl, id⟩
        cases shutdownError <;> simp [calm]
      · cases getError with
        | none => exact ⟨⟨[], (List.append_nil _).symm, nofun⟩, rfl, id⟩
        | some message => exact ⟨⟨_, rfl, by simp [calm]⟩, rfl, id⟩

/-! ### What is below what -/

/-- What can be below what on the stack. -/
structure Stacked (p : Program) : Prop where
  above : p.stack.Pairwise Frame.Above
  apart : p.device.connState = .connected →
    p.stack.Pairwise fun f g => f.owner = none → g.owner = none
  consistent : ∀ f ∈ p.stack, f.Consistent

namespace Stacked

theorem init : Program.init.Stacked := ⟨.nil, fun _ => .nil, nofun⟩

theorem pop (h : p.Stacked) {frame : Frame} {stack : List Frame}
    (hstack : p.stack = frame :: stack) : Stacked { p with stack := stack } := by
  refine ⟨?_, fun hconn => ?_, fun f hf => ?_⟩
  · exact (List.pairwise_cons.mp (hstack ▸ h.above)).2
  · exact (List.pairwise_cons.mp (hstack ▸ h.apart hconn)).2
  · exact h.consistent f (hstack ▸ List.mem_cons_of_mem _ hf)

/-- Code of the handle is put on the stack. -/
theorem setDevice (h : p.Stacked)
    (below : d.connState = .connected → d.todo ≠ [] → ∀ f ∈ p.stack, f.owner = none)
    (apart : d.connState = .connected →
      p.stack.Pairwise fun f g => f.owner = none → g.owner = none)
    (establishes : ∀ c ∈ d.todo, (Frame.device c).establishes = true → p.stack = [])
    (consistent : ∀ c ∈ d.todo, (Frame.device c).Consistent) : (p.setDevice d).Stacked := by
  have pushed : ∀ {R : Frame → Frame → Prop}, (∀ c e, R (.device c) (.device e)) →
      (d.todo.map Frame.device).Pairwise R := by
    intro R hR
    exact List.pairwise_map.mpr (List.pairwise_of_forall fun c e => hR c e)
  refine ⟨List.pairwise_append.mpr ⟨pushed fun c e => ⟨nofun, fun _ => rfl⟩, h.above, ?_⟩,
    fun hconn => List.pairwise_append.mpr ⟨pushed fun c e _ => rfl, apart hconn, ?_⟩,
    List.forall_mem_append.mpr ⟨List.forall_mem_map.mpr consistent, h.consistent⟩⟩
  · intro f hf g hg
    obtain ⟨c, hc, rfl⟩ := List.mem_map.mp hf
    refine ⟨nofun, fun hest => ?_⟩
    rw [establishes c hc hest] at hg
    cases hg
  · intro f hf g hg _
    obtain ⟨c, hc, rfl⟩ := List.mem_map.mp hf
    exact below hconn (List.ne_nil_of_mem hc) g hg

/-- Code of a client is put on the stack. -/
theorem setClient (h : p.Stacked)
    (loud : ∀ c ∈ s.todo, c.tidies = false → ∀ f ∈ p.stack, f.owner = some k) :
    (p.setClient k s).Stacked := by
  have pushed : ∀ {R : Frame → Frame → Prop}, (∀ c e, R (.client k c) (.client k e)) →
      (s.todo.map (Frame.client k)).Pairwise R := by
    intro R hR
    exact List.pairwise_map.mpr (List.pairwise_of_forall fun c e => hR c e)
  refine ⟨List.pairwise_append.mpr ⟨pushed fun c e => ⟨fun _ => rfl, nofun⟩, h.above, ?_⟩,
    fun hconn => List.pairwise_append.mpr ⟨pushed fun c e => nofun, h.apart hconn, ?_⟩,
    List.forall_mem_append.mpr ⟨List.forall_mem_map.mpr fun c _ => trivial, h.consistent⟩⟩
  · intro f hf g hg
    obtain ⟨c, hc, rfl⟩ := List.mem_map.mp hf
    exact ⟨fun hloud => loud c hc (by simpa [Frame.loud] using hloud) g hg, nofun⟩
  · intro f hf g hg howner
    exact nomatch (Frame.owner_of_mem_client hf).symm.trans howner

/-- The application is in control of the handle when it is in control of the program. -/
theorem handle_appInControl (h : p.Stacked) (control : p.AppInControl) : p.handle.AppInControl := by
  cases hstack : p.stack with
  | nil =>
    refine .inl ?_
    rw [handle, deviceCodes, hstack]
    rfl
  | cons frame stack =>
    have handler : frame.isHandler = true := by
      rcases control with idle | handler
      · exact nomatch hstack.symm.trans idle
      · rw [hstack] at handler
        exact handler
    obtain ⟨above, -⟩ := List.pairwise_cons.mp (hstack ▸ h.above)
    cases frame with
    | device code =>
      obtain rfl : code = .handler := of_decide_eq_true handler
      refine .inr ?_
      rw [handle, deviceCodes, hstack]
      rfl
    | client j code =>
      obtain rfl : code = .handler := of_decide_eq_true handler
      -- the handler of a client is above code of the same client only
      refine .inl ?_
      rw [handle, deviceCodes, hstack]
      refine Frame.filterMap_deviceCode?_eq_nil fun f hf => ?_
      rcases List.mem_cons.mp hf with rfl | hf
      · exact nofun
      · rw [(above f hf).loud rfl]
        exact nofun

/-- The application is in control of every client when it is in control of the program and the
connection is up. -/
theorem client_appInControl (h : p.Stacked) (control : p.AppInControl)
    (hconn : p.device.connState = .connected) (hs : p.client? k = some s) : s.AppInControl := by
  obtain ⟨s, -, rfl⟩ := Option.map_eq_some_iff.mp hs
  have none : (∀ f ∈ p.stack, f.owner ≠ some k) → p.clientCodes k = [] :=
    Frame.filterMap_clientCode?_eq_nil
  cases hstack : p.stack with
  | nil => exact .inl (none (by rw [hstack]; nofun))
  | cons frame stack =>
    have handler : frame.isHandler = true := by
      rcases control with idle | handler
      · exact nomatch hstack.symm.trans idle
      · rw [hstack] at handler
        exact handler
    obtain ⟨above, -⟩ := List.pairwise_cons.mp (hstack ▸ h.above)
    obtain ⟨apart, -⟩ := List.pairwise_cons.mp (hstack ▸ h.apart hconn)
    cases frame with
    | device code =>
      refine .inl (none fun f hf => ?_)
      rw [hstack] at hf
      rcases List.mem_cons.mp hf with rfl | hf
      · exact nofun
      · rw [apart f hf rfl]
        exact nofun
    | client j code =>
      obtain rfl : code = .handler := of_decide_eq_true handler
      by_cases hjk : j = k
      · subst hjk
        refine .inr ?_
        show (p.stack.filterMap (Frame.clientCode? j)).head? = _
        have mine : Frame.clientCode? j (.client j .handler) = some .handler := if_pos rfl
        rw [hstack, List.filterMap_cons_some mine]
        rfl
      · refine .inl (none fun f hf => ?_)
        rw [hstack] at hf
        have owner : f.owner = some j := by
          rcases List.mem_cons.mp hf with rfl | hf
          · rfl
          · exact (above f hf).loud rfl
        rw [owner]
        exact fun heq => hjk (Option.some.inj heq)

end Stacked

/-- The code does not make a client. -/
def Plain (codes : List DevTodo) : Prop := ∀ c ∈ codes, (Frame.device c).establishes = false

theorem plain_nil : Plain [] := nofun

theorem consistent_of_plain {code : DevTodo} (h : (Frame.device code).establishes = false) :
    (Frame.device code).Consistent := by
  cases code <;> trivial

theorem plain_emit (h : Plain d.todo) (event : Event) : Plain (d.emit event).todo := by
  rw [Device.emit]
  split
  · exact List.forall_mem_cons.mpr ⟨rfl, h⟩
  · exact h

theorem plain_lbleConnect (h : Plain d.todo) (failure : Option String) :
    Plain (d.lbleConnect failure).todo := by
  rw [Device.lbleConnect]
  split
  · exact List.forall_mem_append.mpr ⟨by simp [Frame.establishes], h⟩
  · exact h

theorem plain_lbleDisconnect (h : Plain d.todo) : Plain d.lbleDisconnect.todo := by
  unfold Device.lbleDisconnect
  cases d.connState with
  | disconnected => exact h
  | connecting => exact h
  | connected => exact List.forall_mem_cons.mpr ⟨rfl, h⟩

theorem plain_channelWatcher (h : Plain d.todo) (c : Chan) (cond : GIOCondition) :
    Plain (d.channelWatcher c cond).todo := by
  have pushed : ∀ codes, Plain codes → Plain (d.push codes).todo := fun codes hcodes =>
    List.forall_mem_append.mpr ⟨hcodes, h⟩
  unfold Device.channelWatcher
  split_ifs
  · exact plain_lbleDisconnect (pushed _ (by simp [Plain, Frame.establishes]))
  · exact pushed _ (by simp [Plain, Frame.establishes])
  · exact pushed _ (by simp [Plain, Frame.establishes])
  · exact pushed _ (by simp [Plain, Frame.establishes])

theorem plain_resume (h : Plain d.todo) (code : DevTodo) : Plain (d.resume code).todo := by
  cases code with
  | emit event => exact plain_emit h event
  | emitState => exact plain_emit h _
  | gattConnect k failure =>
    cases failure with
    | none => exact h
    | some message => exact List.forall_mem_append.mpr ⟨by simp [Frame.establishes], h⟩
  | _ => exact h

/-- What `connect_cb` will do is consistent with its outcome. -/
theorem consistent_connectCb (h : d.todo = []) {outcome : Outcome}
    (consistent : Program.Consistent outcome) (k : Chan) :
    ∀ c ∈ (d.connectCb k outcome).todo, (Frame.device c).Consistent := by
  unfold Device.connectCb
  split
  · rw [show Device.todo { d with attempts := d.attempts.erase k } = [] from h]
    nofun
  · cases outcome with
    | error message => simp [Device.push, Device.record, h, Frame.Consistent]
    | success getError imtu cid shutdownError attribFails =>
      dsimp only
      have mtu : _ ∨ _ := consistent
      split
      · simp [Device.push, Device.record, h, Frame.Consistent]
      · cases getError with
        | none => simpa [Device.push, h, Frame.Consistent] using mtu
        | some message => simpa [Device.push, Device.record, h, Frame.Consistent] using mtu

/-! ### What a step is to the components -/

/-- The step makes the handle give the client of a channel up. -/
def Parting (p : Program) (k : Chan) : Label → Prop
  | .manage .disconnect => p.device.connState = .connected ∧ p.device.attrib = some k
  | .condition _ cond =>
    cond.IsPureLoss ∧ p.device.connState = .connected ∧ p.device.attrib = some k
  | _ => False

/-- What a step of the program is to a client: nothing, its beginning, or a step. -/
inductive ClientTurn (p : Program) (label : Label) (q : Program) (k : Chan) (t : Link) : Prop
  | same (h : p.client? k = some t)
  | made (h : p.client? k = none) (made : .established k ∈ q.device.log) (mtu : Mtu)
      (ht : t = .new mtu)
  | step {s : Link} {l : Link.Label} (h : p.client? k = some s) (hstep : s.step l = some t)
      (hne : l ≠ .drop)
  | drop {s : Link} (h : p.client? k = some s) (hstep : s.step .drop = some t)
      (parting : p.Parting k label) (gone : q.device.attrib = none)

/-- What a step of the program is to its components. -/
structure Turned (p : Program) (label : Label) (q : Program) : Prop where
  stacked : q.Stacked
  handle : q.handle = p.handle ∨ ∃ l, p.handle.step l = some q.handle
  clients : ∀ k t, q.client? k = some t → ClientTurn p label q k t
  kept : ∀ k s, p.client? k = some s → ∃ t, q.client? k = some t
  attrib : ∀ k, q.device.attrib = some k →
    p.device.attrib = some k ∨ ∃ mtu, q.client? k = some (.new mtu)
  log : p.device.log ⊆ q.device.log

/-- The handle is a step further, and the clients are as they were. -/
theorem Turned.of_calm {b : Program} (hdevice : b.device = p.device)
    (hclients : ∀ k, b.client? k = p.client? k) {f : Device → Device} {l : DevLabel}
    (calm : Calm { b.device with todo := [] } (f { b.device with todo := [] }))
    (hf : b.Lifts f) (hstep : p.handle.step l = some (f b.handle))
    (stacked : (b.setDevice (f { b.device with todo := [] })).Stacked) :
    Turned p label (b.runDevice f) := by
  have hhandle := handle_runDevice (p := b) hf
  rw [runDevice_of_calm calm] at hhandle ⊢
  have same : ∀ k, (b.setDevice (f { b.device with todo := [] })).client? k = p.client? k :=
    fun k => (client?_setDevice ..).trans (hclients k)
  obtain ⟨acts, hlog, -⟩ := calm.log
  refine ⟨stacked, .inr ⟨l, hhandle ▸ hstep⟩, fun k t ht => .same ((same k).symm.trans ht),
    fun k s hs => ⟨s, (same k).trans hs⟩, fun k hk => .inl ?_, fun a ha => ?_⟩
  · have := calm.attrib.symm.trans hk
    rwa [hdevice] at this
  · show a ∈ (f { b.device with todo := [] }).log
    rw [hlog, hdevice]
    exact List.mem_append_left _ ha

/-- A client is a step further, and the handle is as it was. -/
theorem Turned.of_client {b : Program} (hdevice : b.device = p.device)
    (hhandle : b.handle = p.handle) (hclient : ∀ j, j ≠ k → b.client? j = p.client? j)
    {l : Link.Label} (hs : p.client? k = some s)
    (hstep : s.step l = some (t.atop (b.clientCodes k)))
    (hne : l ≠ .drop) (stacked : (b.setClient k t).Stacked) : Turned p label (b.setClient k t) := by
  have hk := client?_setClient b k t
  have others : ∀ j, j ≠ k → (b.setClient k t).client? j = p.client? j := fun j hj =>
    (client?_setClient_of_ne b t hj).trans (hclient j hj)
  refine ⟨stacked, .inl ((handle_setClient ..).trans hhandle), fun j u hu => ?_, fun j u hu => ?_,
    fun j hj => .inl ?_, ?_⟩
  · by_cases hj : j = k
    · subst hj
      obtain rfl := Option.some.inj (hk.symm.trans hu)
      exact .step hs hstep hne
    · exact .same ((others j hj).symm.trans hu)
  · by_cases hj : j = k
    · subst hj
      exact ⟨_, hk⟩
    · exact ⟨u, (others j hj).trans hu⟩
  · rwa [← hdevice]
  · rw [← hdevice]
    exact List.Subset.refl _

/-- The program as the composition of its components: each of them is in a state that its own
machine reaches, a client was made for a connection that was established, and the handle has a
reference to its client. -/
structure Composed (p : Program) : Prop where
  stacked : p.Stacked
  handle : ∃ labels, Device.machine.Run (fun _ _ => True) (.newdev true) labels p.handle
  clients : ∀ k s, p.client? k = some s →
    ∃ mtu labels, Link.machine.Run (fun _ _ => True) (.new mtu) labels s
  held : ∀ k, p.device.attrib = some k → ∃ s, p.client? k = some s ∧ s.app = true
  made : ∀ k s, p.client? k = some s → .established k ∈ p.device.log

theorem composed_init : init.Composed := by
  have none : ∀ k s, init.client? k ≠ some s := fun k s h => by cases h
  have new : init.handle = .newdev true := rfl
  refine ⟨.init, ⟨[], ?_⟩, fun k s h => absurd h (none k s), nofun,
    fun k s h => absurd h (none k s)⟩
  rw [new]
  exact .nil

/-- A client goes on with a run of its own machine. -/
theorem Turned.client_run (turned : Turned p label q) (h : p.Composed) (ht : q.client? k = some t) :
    ∃ mtu labels, Link.machine.Run (fun _ _ => True) (.new mtu) labels t := by
  have further : ∀ {s : Link} {l : Link.Label}, p.client? k = some s → s.step l = some t →
      ∃ mtu labels, Link.machine.Run (fun _ _ => True) (.new mtu) labels t := by
    intro s l hs hstep
    obtain ⟨mtu, labels, run⟩ := h.clients k s hs
    exact ⟨mtu, labels ++ [l], run.snoc trivial hstep⟩
  cases turned.clients k t ht with
  | same hs => exact h.clients k t hs
  | made _ _ mtu ht =>
    subst ht
    exact ⟨mtu, [], .nil⟩
  | @step s l hs hstep => exact further (l := l) hs hstep
  | drop hs hstep => exact further (l := .drop) hs hstep

/-- The handle keeps its reference to its client. -/
theorem Turned.held (turned : Turned p label q) (h : p.Composed) (hk : q.device.attrib = some k) :
    ∃ t, q.client? k = some t ∧ t.app = true := by
  rcases turned.attrib k hk with hk' | ⟨mtu, hnew⟩
  · obtain ⟨s, hs, app⟩ := h.held k hk'
    obtain ⟨t, ht⟩ := turned.kept k s hs
    refine ⟨t, ht, ?_⟩
    cases turned.clients k t ht with
    | same hs' =>
      obtain rfl := Option.some.inj (hs.symm.trans hs')
      exact app
    | made none => cases hs.symm.trans none
    | step hs' hstep hne =>
      obtain rfl := Option.some.inj (hs.symm.trans hs')
      exact (Link.app_eq_of_step hstep hne).trans app
    | drop _ _ _ gone => cases gone.symm.trans hk
  · exact ⟨.new mtu, hnew, rfl⟩

/-- A client was made for a connection that was established. -/
theorem Turned.made (turned : Turned p label q) (h : p.Composed) (ht : q.client? k = some t) :
    .established k ∈ q.device.log := by
  cases turned.clients k t ht with
  | same hs => exact turned.log (h.made k _ hs)
  | made _ made => exact made
  | step hs => exact turned.log (h.made k _ hs)
  | drop hs => exact turned.log (h.made k _ hs)

/-- **Components that take steps of their own machines stay composed.** -/
theorem Composed.of_turned (h : p.Composed) (turned : Turned p label q) : q.Composed := by
  refine ⟨turned.stacked, ?_, fun k t ht => turned.client_run h ht, fun k hk => turned.held h hk,
    fun k t ht => turned.made h ht⟩
  obtain ⟨labels, run⟩ := h.handle
  rcases turned.handle with same | ⟨l, hstep⟩
  · refine ⟨labels, ?_⟩
    rwa [same]
  · exact ⟨labels ++ [l], run.snoc trivial hstep⟩

/-! ### The steps -/

/-- Nothing happens to the components. -/
theorem Turned.of_same (h : p.Composed) (hdevice : q.device = p.device) (hstack : q.stack = p.stack)
    (hclients : q.clients = p.clients) : Turned p label q := by
  have handle : q.handle = p.handle := by
    rw [Program.handle, Program.handle, deviceCodes, deviceCodes, hdevice, hstack]
  have same : ∀ k, q.client? k = p.client? k := fun k => by
    rw [client?, client?, clientCodes, clientCodes, hclients, hstack]
  refine ⟨⟨?_, fun hconn => ?_, ?_⟩, .inl handle, fun k t ht => .same ((same k).symm.trans ht),
    fun k s hs => ⟨s, (same k).trans hs⟩, fun k hk => .inl ?_, ?_⟩
  · rw [hstack]
    exact h.stacked.above
  · rw [hstack]
    exact h.stacked.apart (hdevice ▸ hconn)
  · rw [hstack]
    exact h.stacked.consistent
  · rwa [← hdevice]
  · rw [hdevice]
    exact List.Subset.refl _

/-- A call of the application to the handle that does nothing to a client. -/
theorem Turned.of_call (h : p.Composed) (control : p.AppInControl) (call : DevCall)
    (calm : Calm { p.device with todo := [] } (Device.call { p.device with todo := [] } call)) :
    Turned p label (p.runDevice (·.call call)) := by
  have up : (Device.call { p.device with todo := [] } call).connState = .connected →
      (Device.call { p.device with todo := [] } call).todo = [] := by
    intro hconn
    cases call with
    | connect failure =>
      have up : p.device.connState = .connected := calm.connected hconn
      simp only [Device.call, Device.lbleConnect, up]
      rfl
    | disconnect =>
      have up : p.device.connState = .connected := calm.connected hconn
      simp only [Device.call, Device.lbleDisconnect, up] at hconn
      cases hconn
    | setEventHandler evh => rfl
  have plain : Plain (Device.call { p.device with todo := [] } call).todo := by
    cases call with
    | connect failure => exact plain_lbleConnect plain_nil failure
    | disconnect => exact plain_lbleDisconnect plain_nil
    | setEventHandler evh => exact plain_nil
  refine .of_calm (b := p) (l := .call call) rfl (fun _ => rfl) calm
    (lifts_of_atop fun d rest => d.call_atop rest call)
    (if_pos (h.stacked.handle_appInControl control)) (h.stacked.setDevice ?_ ?_ ?_ ?_)
  · exact fun hconn hne => absurd (up hconn) hne
  · exact fun hconn => h.stacked.apart (calm.connected hconn)
  · exact fun c hc hest => absurd ((plain c hc).symm.trans hest) Bool.false_ne_true
  · exact fun c hc => consistent_of_plain (plain c hc)

/-- The handle gives a client up. -/
theorem runDevice_of_unref {f : Device → Device} (hs : p.client? k = some s)
    (hlog : (f { p.device with todo := [] }).log = p.device.log ++ [.attribUnref k]) :
    (∃ s₀ : Link, p.runDevice f = (p.setDevice (f { p.device with todo := [] })).setClient k
      (Link.drop { s₀ with todo := [] })) ∧ (p.runDevice f).client? k = some s.drop := by
  obtain ⟨s₀, hs₀, rfl⟩ := Option.map_eq_some_iff.mp hs
  have hq : p.runDevice f = (p.setDevice (f { p.device with todo := [] })).setClient k
      (Link.drop { s₀ with todo := [] }) := by
    have hs₀' : (p.setDevice (f { p.device with todo := [] })).clients k = some s₀ := hs₀
    rw [runDevice_of_log hlog]
    show runClient _ k .drop = _
    rw [runClient, hs₀']
  refine ⟨⟨s₀, hq⟩, ?_⟩
  rw [hq, client?_setClient, clientCodes_setDevice]
  rfl

/-- `lble_disconnect` gives the client up. -/
theorem Turned.of_drop (h : p.Composed) (control : p.AppInControl) {f : Device → Device}
    {l : DevLabel} (hconn : p.device.connState = .connected) (hk : p.device.attrib = some k)
    (hlog : (f { p.device with todo := [] }).log = p.device.log ++ [.attribUnref k])
    (hattrib : (f { p.device with todo := [] }).attrib = none)
    (hdown : (f { p.device with todo := [] }).connState = .disconnected)
    (plain : Plain (f { p.device with todo := [] }).todo) (hf : p.Lifts f)
    (hstep : p.handle.step l = some (f p.handle)) (parting : p.Parting k label) :
    Turned p label (p.runDevice f) := by
  obtain ⟨s, hs, app⟩ := h.held k hk
  have hhandle := handle_runDevice hf
  obtain ⟨⟨s₀, hq⟩, hdropped⟩ := runDevice_of_unref hs hlog
  have below : (p.setDevice (f { p.device with todo := [] })).Stacked :=
    h.stacked.setDevice (fun hconn => nomatch hdown.symm.trans hconn)
      (fun hconn => nomatch hdown.symm.trans hconn)
      (fun c hc hest => absurd ((plain c hc).symm.trans hest) Bool.false_ne_true)
      fun c hc => consistent_of_plain (plain c hc)
  have others : ∀ j, j ≠ k → (p.runDevice f).client? j = p.client? j := by
    intro j hj
    rw [hq, client?_setClient_of_ne _ _ hj, client?_setDevice]
  refine ⟨?_, .inr ⟨l, hhandle ▸ hstep⟩, fun j t ht => ?_, fun j u hu => ?_, fun j hj => ?_, ?_⟩
  · rw [hq]
    refine below.setClient fun c hc hloud => ?_
    obtain rfl := List.mem_singleton.mp hc
    cases hloud
  · by_cases hj : j = k
    · subst hj
      obtain rfl := Option.some.inj (hdropped.symm.trans ht)
      refine .drop hs ?_ parting ?_
      · exact if_pos ⟨h.stacked.client_appInControl control hconn hs, app⟩
      · rw [hq]
        exact hattrib
    · exact .same ((others j hj).symm.trans ht)
  · by_cases hj : j = k
    · subst hj
      exact ⟨_, hdropped⟩
    · exact ⟨u, (others j hj).trans hu⟩
  · rw [hq] at hj
    exact nomatch hattrib.symm.trans hj
  · rw [hq]
    show p.device.log ⊆ (f { p.device with todo := [] }).log
    rw [hlog]
    exact List.subset_append_left _ _

/-- A client of the handle is called. -/
theorem Turned.of_onConnected (h : p.Composed) (control : p.AppInControl) {f : Link → Link}
    {l : Link.Label} (hf : ∀ s rest, f (s.atop rest) = (f s).atop rest)
    (hstep : ∀ s, s.AppInControl → s.app = true → Link.step s l = some (f s)) (hne : l ≠ .drop)
    (tidies : ∀ s, s.todo = [] → ∀ c ∈ (f s).todo, c.tidies = true) :
    Turned p label (p.onConnected f) := by
  rw [onConnected]
  split
  · rename_i k hconn hk
    obtain ⟨s, hs, app⟩ := h.held k hk
    obtain ⟨s₀, hs₀, hview⟩ := Option.map_eq_some_iff.mp hs
    have inControl := h.stacked.client_appInControl control hconn hs
    have ran : f s = (f { s₀ with todo := [] }).atop (p.clientCodes k) := by
      rw [← hf, ← hview]
      rfl
    rw [runClient, hs₀]
    refine .of_client (b := p) rfl rfl (fun _ _ => rfl) hs ?_ hne
      (h.stacked.setClient fun c hc hloud => ?_)
    · rw [← ran]
      exact hstep s inControl app
    · exact absurd ((tidies _ rfl c hc).symm.trans hloud) (by decide)
  · exact .of_same h rfl rfl rfl

/-- A call of the application leaves only code that releases something. -/
theorem tidies_call (hidle : s.todo = []) (call : Call) :
    ∀ c ∈ (s.call call).todo, c.tidies = true := by
  have sent : ∀ (s : Link) (owner : Nat) (proc : Proc) (pdu : Att.Pdu),
      (s.gAttribSend owner proc pdu).todo = s.todo := by
    intro s owner proc pdu
    have woken : ∀ t : Link, t.wakeupWriter.todo = t.todo := fun t => by
      rw [Link.wakeupWriter]
      split <;> rfl
    simp only [Link.gAttribSend, Link.btAttSend]
    split_ifs
    · exact woken _
    · exact woken _
    · rfl
  cases call with
  | request handle =>
    simp only [Link.call, Link.gattReadChar]
    split
    · show ∀ c ∈ (Link.gAttribSend ..).todo, _
      rw [sent]
      show ∀ c ∈ s.todo, _
      simp [hidle]
    · show ∀ c ∈ [Link.Code.attribUnref, .recordFree s.nextOwner] ++ (Link.gAttribSend ..).todo, _
      rw [sent]
      show ∀ c ∈ [Link.Code.attribUnref, .recordFree s.nextOwner] ++ s.todo, _
      rw [hidle]
      simp [Link.Code.tidies]
  | write handle data =>
    simp only [Link.call, sent]
    show ∀ c ∈ s.todo, _
    simp [hidle]
  | discoverHand | discoverChar =>
    simp only [Link.call, Link.gattDiscover, sent]
    show ∀ c ∈ s.todo, _
    simp [hidle]

theorem todo_listen (s : Link) : s.listen.todo = s.todo := by
  simp only [Link.listen]
  split <;> rfl

/-- The event handler returns. -/
theorem Turned.of_ret (h : p.Composed) {frame : Frame} {stack : List Frame}
    (hstack : p.stack = frame :: stack) (handler : frame.isHandler = true) :
    Turned p label { p with stack := stack } := by
  have popped := h.stacked.pop hstack
  cases frame with
  | device code =>
    obtain rfl : code = .handler := of_decide_eq_true handler
    have todo : p.handle.todo = .handler :: stack.filterMap Frame.deviceCode? := by
      rw [Program.handle, deviceCodes, hstack]
      rfl
    have same : ∀ k, client? { p with stack := stack } k = p.client? k := fun k => by
      rw [client?, client?, clientCodes, clientCodes, hstack]
      rfl
    refine ⟨popped, .inr ⟨.ret, ?_⟩, fun k t ht => .same ((same k).symm.trans ht),
      fun k s hs => ⟨s, (same k).trans hs⟩, fun k hk => .inl hk, List.Subset.refl _⟩
    simp only [Device.step, todo]
    rfl
  | client k code =>
    obtain rfl : code = .handler := of_decide_eq_true handler
    have codes : p.clientCodes k = .handler :: stack.filterMap (Frame.clientCode? k) := by
      have mine : Frame.clientCode? k (.client k .handler) = some .handler := if_pos rfl
      rw [clientCodes, hstack, List.filterMap_cons_some mine]
    have same : ∀ j, j ≠ k → client? { p with stack := stack } j = p.client? j := fun j hj => by
      have other : Frame.clientCode? j (.client k .handler) = none := if_neg fun heq => hj heq.symm
      rw [client?, client?, clientCodes, clientCodes, hstack, List.filterMap_cons_none other]
    have handle : Program.handle { p with stack := stack } = p.handle := by
      rw [Program.handle, Program.handle, deviceCodes, deviceCodes, hstack]
      rfl
    refine ⟨popped, .inl handle, fun j t ht => ?_, fun j s hs => ?_, fun k hk => .inl hk,
      List.Subset.refl _⟩
    · by_cases hj : j = k
      · subst hj
        obtain ⟨s, hs, rfl⟩ := Option.map_eq_some_iff.mp ht
        refine .step (l := .ret) (s := { s with todo := p.clientCodes j }) ?_ ?_ (by simp)
        · rw [client?, show p.clients j = some s from hs]
          rfl
        · simp only [Link.step, codes]
          rfl
      · exact .same ((same j hj).symm.trans ht)
    · by_cases hj : j = k
      · subst hj
        obtain ⟨s, hs₀, -⟩ := Option.map_eq_some_iff.mp hs
        exact ⟨_, Option.map_eq_some_iff.mpr ⟨s, hs₀, rfl⟩⟩
      · exact ⟨s, (same j hj).trans hs⟩

/-- The code of a client is run. -/
theorem Turned.of_client_resume (h : p.Composed) {code : Link.Code} {stack : List Frame}
    (hstack : p.stack = .client k code :: stack) (hne : code ≠ .handler) :
    Turned p label (runClient { p with stack := stack } k (·.run code)) := by
  have popped := h.stacked.pop hstack
  have codes : p.clientCodes k = code :: stack.filterMap (Frame.clientCode? k) := by
    have mine : Frame.clientCode? k (.client k code) = some code := if_pos rfl
    rw [clientCodes, hstack, List.filterMap_cons_some mine]
  have same : ∀ j, j ≠ k → client? { p with stack := stack } j = p.client? j := fun j hj => by
    have other : Frame.clientCode? j (.client k code) = none := if_neg fun heq => hj heq.symm
    rw [client?, client?, clientCodes, clientCodes, hstack, List.filterMap_cons_none other]
  have handle : Program.handle { p with stack := stack } = p.handle := by
    rw [Program.handle, Program.handle, deviceCodes, deviceCodes, hstack]
    rfl
  rw [runClient]
  cases hs : p.clients k with
  | none =>
    -- code without a client does not occur, but nothing depends on that
    have none : ∀ j, client? { p with stack := stack } j = p.client? j := fun j => by
      by_cases hj : j = k
      · subst hj
        rw [client?, client?, show Program.clients { p with stack := stack } j = none from hs]
        rfl
      · exact same j hj
    exact ⟨popped, .inl handle, fun j t ht => .same ((none j).symm.trans ht),
      fun j s hs => ⟨s, (none j).trans hs⟩, fun k hk => .inl hk, List.Subset.refl _⟩
  | some s =>
    have hview : p.client? k = some { s with todo := p.clientCodes k } := by
      rw [client?, hs]
      rfl
    refine .of_client (b := { p with stack := stack }) (l := .resume) rfl handle same hview ?_ nofun
      (popped.setClient fun c hc hloud => ?_)
    · rw [← Link.run_atop]
      have todo : Link.todo { s with todo := p.clientCodes k } =
          code :: stack.filterMap (Frame.clientCode? k) := codes
      rw [Link.step, todo]
      cases code <;> first | rfl | exact absurd rfl hne
    · by_cases tidies : code.tidies = true
      · obtain ⟨codes, hcodes, more⟩ := (Link.tidies_run (s := { s with todo := [] }) tidies).todo
        rw [hcodes, List.append_nil] at hc
        exact absurd ((more c hc).symm.trans hloud) (by decide)
      · obtain ⟨above, -⟩ := List.pairwise_cons.mp (hstack ▸ h.stacked.above)
        exact fun f hf => (above f hf).loud (by simpa [Frame.loud] using tidies)

/-- The code of the handle is run. -/
theorem Turned.of_device_resume (h : p.Composed) {code : DevTodo} {stack : List Frame}
    (hstack : p.stack = .device code :: stack) (hne : code ≠ .handler)
    (establishes : (Frame.device code).establishes = false) :
    Turned p label (runDevice { p with stack := stack } (·.resume code)) := by
  have popped := h.stacked.pop hstack
  have calm : Calm { p.device with todo := [] } (Device.resume { p.device with todo := [] } code) :=
    calm_resume establishes
  have plain : Plain (Device.resume { p.device with todo := [] } code).todo :=
    plain_resume plain_nil code
  have todo : p.handle.todo = code :: stack.filterMap Frame.deviceCode? := by
    rw [Program.handle, deviceCodes, hstack]
    rfl
  have same : ∀ k, client? { p with stack := stack } k = p.client? k := fun k => by
    rw [client?, client?, clientCodes, clientCodes, hstack]
    rfl
  refine .of_calm (p := p) (b := { p with stack := stack }) (f := (·.resume code)) (l := .resume)
    rfl same calm (lifts_of_atop fun d rest => d.resume_atop rest code) ?_
    (popped.setDevice ?_ ?_ ?_ ?_)
  · rw [Device.step, todo]
    cases code <;> first | rfl | exact absurd rfl hne
  · intro hconn _
    obtain ⟨apart, -⟩ := List.pairwise_cons.mp (hstack ▸ h.stacked.apart (calm.connected hconn))
    exact fun f hf => apart f hf rfl
  · exact fun hconn => popped.apart (calm.connected hconn)
  · exact fun c hc hest => absurd ((plain c hc).symm.trans hest) Bool.false_ne_true
  · exact fun c hc => consistent_of_plain (plain c hc)

/-- `connect_cb` makes a client. -/
theorem Turned.of_establish (h : p.Composed) {getFailed attribFails : Bool} {imtu cid : UInt16}
    {stack : List Frame}
    (hstack : p.stack = .device (.connectEstablish k getFailed imtu cid attribFails) :: stack) :
    Turned p label (runDevice { p with stack := stack }
      (·.resume (.connectEstablish k getFailed imtu cid attribFails))) := by
  have popped := h.stacked.pop hstack
  obtain ⟨above, -⟩ := List.pairwise_cons.mp (hstack ▸ h.stacked.above)
  have below : ∀ f ∈ stack, f.owner = none := fun f hf => (above f hf).establishes rfl
  have consistent := h.stacked.consistent _ (hstack ▸ List.mem_cons_self)
  have todo : p.handle.todo = .connectEstablish k getFailed imtu cid attribFails ::
      stack.filterMap Frame.deviceCode? := by
    rw [Program.handle, deviceCodes, hstack]
    rfl
  have codes : ∀ j, p.clientCodes j = [] := fun j =>
    Frame.filterMap_clientCode?_eq_nil fun f hf => by
      rw [hstack] at hf
      rcases List.mem_cons.mp hf with rfl | hf
      · simp [Frame.owner]
      · rw [below f hf]
        simp
  -- the attempt has not made a connection yet
  have unmade : p.client? k = none := by
    obtain ⟨labels, run⟩ := h.handle
    have life := Device.lifetime run k
    have token : 1 ≤ tally (DevTodo.establishes k) p.handle.todo := by
      rw [todo, tally_cons, DevTodo.establishes, isOne_self]
      exact Nat.le_add_right _ _
    by_contra hsome
    obtain ⟨s, hs⟩ := Option.ne_none_iff_exists'.mp hsome
    have made : 0 < p.handle.log.count (.established k) := List.count_pos_iff.mpr (h.made k s hs)
    have removes := life.removes_le
    have established := life.established_le
    have opened := life.opened_le
    split at opened <;> omega
  have hlog : (Device.resume { p.device with todo := [] }
      (.connectEstablish k getFailed imtu cid attribFails)).log = p.device.log ++
        ((if getFailed then [.errorFree k .getOptions] else []) ++
          [.watch k p.device.iochannel, .attribNew k (Device.attribMtu getFailed imtu cid),
            .established k]) := rfl
  have freed : ∀ b : Program,
      (if getFailed then [Act.errorFree k .getOptions] else []).foldl perform b = b :=
    fun b => foldl_perform_of_calm (by cases getFailed <;> simp [calm]) b
  have hhandle := handle_runDevice (p := { p with stack := stack })
    (f := (·.resume (.connectEstablish k getFailed imtu cid attribFails)))
    (lifts_of_atop fun d rest => d.resume_atop rest _)
  have hstep : p.handle.step .resume = some (Device.resume
      (Program.handle { p with stack := stack })
      (.connectEstablish k getFailed imtu cid attribFails)) := by
    rw [Device.step, todo]
    rfl
  have stacked : (setDevice { p with stack := stack } (Device.resume { p.device with todo := [] }
      (.connectEstablish k getFailed imtu cid attribFails))).Stacked := by
    refine popped.setDevice (fun _ hne => absurd rfl hne) (fun _ => ?_) ?_ ?_
    · exact List.pairwise_of_forall_mem_list fun f _ g hg _ => below g hg
    · rintro - ⟨⟩
    · rintro - ⟨⟩
  have hq : runDevice { p with stack := stack }
      (·.resume (.connectEstablish k getFailed imtu cid attribFails)) =
        perform (setDevice { p with stack := stack } (Device.resume { p.device with todo := [] }
          (.connectEstablish k getFailed imtu cid attribFails)))
          (.attribNew k (Device.attribMtu getFailed imtu cid)) := by
    rw [runDevice_of_log hlog, List.foldl_append, freed]
    rfl
  rw [hq] at hhandle ⊢
  have same : ∀ j, client? { p with stack := stack } j = p.client? j := fun j => by
    rw [client?, client?, clientCodes, clientCodes, hstack]
    rfl
  have log : p.device.log ⊆ (Device.resume { p.device with todo := [] }
      (.connectEstablish k getFailed imtu cid attribFails)).log := by
    rw [hlog]
    exact List.subset_append_left _ _
  cases attribFails with
  | true =>
    -- `g_attrib_new` failed
    have nothing : ∀ j, (setDevice { p with stack := stack } (Device.resume
        { p.device with todo := [] } (.connectEstablish k getFailed imtu cid true))).client? j =
          p.client? j := fun j => (client?_setDevice ..).trans (same j)
    refine ⟨stacked, .inr ⟨.resume, hhandle ▸ hstep⟩,
      fun j t ht => .same ((nothing j).symm.trans ht), fun j s hs => ⟨s, (nothing j).trans hs⟩,
      ?_, log⟩
    rintro j ⟨⟩
  | false =>
    have accepted : 23 ≤ (Device.attribMtu getFailed imtu cid).toNat :=
      consistent.resolve_left (by simp)
    have performed : perform (setDevice { p with stack := stack } (Device.resume
        { p.device with todo := [] } (.connectEstablish k getFailed imtu cid false)))
          (.attribNew k (Device.attribMtu getFailed imtu cid)) =
        { setDevice { p with stack := stack } (Device.resume { p.device with todo := [] }
            (.connectEstablish k getFailed imtu cid false)) with
          clients := Function.update p.clients k (some (.new ⟨_, accepted⟩)) } := by
      simp only [perform, newClient, dif_pos accepted]
      exact if_pos rfl
    rw [performed] at hhandle ⊢
    have hnew : client? { setDevice { p with stack := stack } (Device.resume
        { p.device with todo := [] } (.connectEstablish k getFailed imtu cid false)) with
          clients := Function.update p.clients k (some (.new ⟨_, accepted⟩)) } k =
        some (.new ⟨_, accepted⟩) := by
      have none : stack.filterMap (Frame.clientCode? k) = [] :=
        Frame.filterMap_clientCode?_eq_nil fun f hf => by
          rw [below f hf]
          simp
      show Option.map _ (Function.update p.clients k _ k) = _
      rw [Function.update_self]
      show some { Link.new _ with todo := ([] ++ stack).filterMap (Frame.clientCode? k) } = _
      rw [List.nil_append, none]
      rfl
    have others : ∀ j, j ≠ k → client? { setDevice { p with stack := stack } (Device.resume
        { p.device with todo := [] } (.connectEstablish k getFailed imtu cid false)) with
          clients := Function.update p.clients k (some (.new ⟨_, accepted⟩)) } j = p.client? j := by
      intro j hj
      rw [← same j]
      show Option.map _ (Function.update p.clients k _ j) = _
      rw [Function.update_of_ne hj]
      rfl
    refine ⟨⟨stacked.above, stacked.apart, stacked.consistent⟩, .inr ⟨.resume, hhandle ▸ hstep⟩,
      fun j t ht => ?_, fun j s hs => ?_, fun j hj => ?_, log⟩
    · by_cases hj : j = k
      · subst hj
        refine .made unmade ?_ _ (Option.some.inj (ht.symm.trans hnew))
        show _ ∈ p.device.log ++ _
        simp
      · exact .same ((others j hj).symm.trans ht)
    · by_cases hj : j = k
      · subst hj
        exact absurd (unmade.symm.trans hs) (by simp)
      · exact ⟨s, (others j hj).trans hs⟩
    · obtain rfl : k = j := Option.some.inj hj
      exact .inr ⟨_, hnew⟩

theorem handle_of_idle (idle : p.stack = []) : p.handle = { p.device with todo := [] } := by
  rw [handle, deviceCodes, idle]
  rfl

/-- The outcome of an attempt is dispatched. -/
theorem Turned.of_outcome (h : p.Composed) (idle : p.stack = []) (hk : k ∈ p.device.attempts)
    {outcome : Outcome} (consistent : Program.Consistent outcome) :
    Turned p label (p.runDevice (·.connectCb k outcome)) := by
  have calm := calm_connectCb { p.device with todo := [] } k outcome
  refine .of_calm (b := p) (l := .outcome k outcome) rfl (fun _ => rfl) calm
    (lifts_of_idle idle _) ?_ (h.stacked.setDevice ?_ ?_ ?_ ?_)
  · rw [handle_of_idle idle]
    exact if_pos ⟨rfl, hk⟩
  · intro _ _ f hf
    rw [idle] at hf
    cases hf
  · exact fun hconn => h.stacked.apart (calm.connected hconn)
  · exact fun _ _ _ => idle
  · exact consistent_connectCb rfl consistent k

/-- The main loop dispatches to a client. -/
theorem Turned.of_dispatch (h : p.Composed) (idle : p.stack = []) {l : Link.Label}
    (hl : dispatched l = true) (hs : p.clients k = some s)
    (hstep : Link.step { s with todo := [] } l = some t) : Turned p label (p.setClient k t) := by
  have codes : p.clientCodes k = [] := by
    rw [clientCodes, idle]
    rfl
  have hview : p.client? k = some { s with todo := [] } := by
    rw [client?, hs, codes]
    rfl
  refine .of_client (b := p) (l := l) rfl rfl (fun _ _ => rfl) hview ?_ ?_
    (h.stacked.setClient fun _ _ _ f hf => ?_)
  · rw [codes, Link.atop, List.append_nil]
    exact hstep
  · rintro rfl
    cases hl
  · rw [idle] at hf
    cases hf

/-- The main loop dispatches a mask to a watch. -/
theorem Turned.of_condition (h : p.Composed) (idle : p.stack = []) {c : Chan} {cond : GIOCondition}
    (hc : c ∈ p.device.watches) :
    Turned p (.condition c cond) (p.runDevice (·.channelWatcher c cond)) := by
  have hstep : p.handle.step (.condition c cond) = some (p.handle.channelWatcher c cond) := by
    rw [handle_of_idle idle]
    exact if_pos ⟨rfl, hc⟩
  have plain : Plain (Device.channelWatcher { p.device with todo := [] } c cond).todo :=
    plain_channelWatcher plain_nil c cond
  have loses : cond.IsPureLoss → Device.channelWatcher { p.device with todo := [] } c cond =
      Device.lbleDisconnect { p.device with todo := [.watcherDone c] } := fun loss => if_pos loss
  have calmly : Calm { p.device with todo := [] }
      (Device.channelWatcher { p.device with todo := [] } c cond) →
      Turned p (.condition c cond) (p.runDevice (·.channelWatcher c cond)) := by
    intro calm
    refine .of_calm (b := p) (l := .condition c cond) rfl (fun _ => rfl) calm
      (lifts_of_idle idle _) hstep (h.stacked.setDevice ?_ ?_ ?_ ?_)
    · intro _ _ f hf
      rw [idle] at hf
      cases hf
    · exact fun hconn => h.stacked.apart (calm.connected hconn)
    · exact fun c hc hest => absurd ((plain c hc).symm.trans hest) Bool.false_ne_true
    · exact fun c hc => consistent_of_plain (plain c hc)
  by_cases loss : cond.IsPureLoss
  · by_cases up : p.device.connState = .connected
    · cases hk : p.device.attrib with
      | none =>
        refine calmly ?_
        rw [loses loss]
        have calm := calm_lbleDisconnect (d := { p.device with todo := [.watcherDone c] })
          fun _ => hk
        exact ⟨calm.log, calm.attrib, calm.connected⟩
      | some k =>
        have disconnected :=
          lbleDisconnect_of_client (d := { p.device with todo := [.watcherDone c] }) up hk
        refine .of_drop h (.inl idle) up hk ?_ ?_ ?_ plain (lifts_of_idle idle _) hstep
          ⟨loss, up, hk⟩
        · rw [loses loss, disconnected]
          rfl
        · rw [loses loss, disconnected]
        · rw [loses loss, disconnected]
    · refine calmly ?_
      rw [loses loss]
      have calm := calm_lbleDisconnect (d := { p.device with todo := [.watcherDone c] })
        fun hconn => absurd hconn up
      exact ⟨calm.log, calm.attrib, calm.connected⟩
  · refine calmly ?_
    have other : ∀ codes : List DevTodo, Calm { p.device with todo := [] }
        (Device.push { p.device with todo := [] } codes) := fun codes =>
      ⟨⟨[], (List.append_nil _).symm, nofun⟩, rfl, id⟩
    rw [Device.channelWatcher, if_neg (show ¬ (_ ∨ _ ∨ _) from loss)]
    split_ifs
    · exact other _
    · exact other _
    · exact other _

/-- **Every step of the program is a step of its components.** -/
theorem Composed.turned (h : p.Composed) (hstep : p.step label = some q) : Turned p label q := by
  cases label with
  | manage call =>
    obtain ⟨⟨control, -⟩, rfl⟩ := step_manage hstep
    cases call with
    | connect failure => exact .of_call h control _ (calm_lbleConnect _ failure)
    | setEventHandler evh =>
      exact .of_call h control _ ⟨⟨[], (List.append_nil _).symm, by simp⟩, rfl, id⟩
    | disconnect =>
      by_cases up : p.device.connState = .connected
      · cases hk : p.device.attrib with
        | none => exact .of_call h control _ (calm_lbleDisconnect fun _ => hk)
        | some k =>
          have disconnected := lbleDisconnect_of_client (d := { p.device with todo := [] }) up hk
          refine .of_drop h control (f := (·.call .disconnect)) (l := .call .disconnect) up hk
            ?_ ?_ ?_ (plain_lbleDisconnect plain_nil)
            (lifts_of_atop fun d rest => d.lbleDisconnect_atop rest)
            (if_pos (h.stacked.handle_appInControl control)) ⟨up, hk⟩
          · rw [Device.call, disconnected]
            rfl
          · rw [Device.call, disconnected]
          · rw [Device.call, disconnected]
      · exact .of_call h control _ (calm_lbleDisconnect fun hconn => absurd hconn up)
  | call call =>
    obtain ⟨⟨control, -⟩, admissible, rfl⟩ := step_call hstep
    exact .of_onConnected h control (l := .call call) (fun s rest => s.call_atop rest call)
      (fun s inControl app => if_pos ⟨inControl, app, admissible⟩) (by simp)
      fun s idle => tidies_call idle call
  | listen =>
    obtain ⟨⟨control, -⟩, rfl⟩ := step_listen hstep
    refine .of_onConnected h control (l := .listen) (fun s rest => s.listen_atop rest)
      (fun s inControl app => if_pos ⟨inControl, app⟩) (by simp) fun s idle => ?_
    simp [todo_listen, idle]
  | freedev =>
    obtain ⟨-, -, rfl⟩ := step_freedev hstep
    exact .of_same h rfl rfl rfl
  | ret =>
    obtain ⟨frame, stack, hstack, handler, rfl⟩ := step_ret hstep
    exact .of_ret h hstack handler
  | resume =>
    rcases step_resume hstep with
      ⟨code, stack, hstack, hne, rfl⟩ | ⟨k, code, stack, hstack, hne, rfl⟩
    · by_cases establishes : (Frame.device code).establishes = true
      · cases code with
        | connectEstablish => exact .of_establish h hstack
        | _ => cases establishes
      · exact .of_device_resume h hstack hne (Bool.eq_false_iff.mpr establishes)
    · exact .of_client_resume h hstack hne
  | outcome k outcome =>
    obtain ⟨idle, hk, consistent, rfl⟩ := step_outcome hstep
    exact .of_outcome h idle hk consistent
  | condition c cond =>
    obtain ⟨idle, hc, rfl⟩ := step_condition hstep
    exact .of_condition h idle hc
  | dispatch k l =>
    obtain ⟨idle, hl, s, t, hs, ht, rfl⟩ := step_dispatch hstep
    exact .of_dispatch h idle hl hs ht

theorem Composed.step (h : p.Composed) (hstep : p.step label = some q) : q.Composed :=
  h.of_turned (h.turned hstep)

/-- **The program is composed of its components**: in every run, the handle is in a state that a
run of its own machine reaches, every client is in a state that a run of its own machine reaches
from the state that `g_attrib_new` leaves, and while the handle refers to a client the reference
that it holds to it is counted. -/
theorem composed {labels : List Label}
    (run : machine.Run (fun _ _ => True) init labels p) : p.Composed :=
  run.invariant composed_init fun h _ hstep => h.step hstep

end Program

end Libble

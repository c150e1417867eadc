import Libble.Foundation.ProcedureCourse
import Libble.Link.Overlap

/-!
# What a step does to the operations

The pipeline of a connection describes its operations while nothing goes wrong. This file says what
every step does to them, also when requests time out, the link is lost, or the connection is given
up: it does nothing, or it starts one, or the callback of one is called, or requests are lost in
the teardown. What waits for an operation is counted with an arbitrary weight, so that a step that
moves a request from one place to another changes nothing.

## Main definitions

* `Link.load`: what the requests weigh that wait for an answer.
* `Link.told`, `Link.releases`: the events of an operation, and the releases of its `request_t`,
  that have happened or are about to.
* `Link.Still`, `Link.Sends`, `Link.Reacts`, `Link.Removes`, `Link.Loses`: what code does.
* `Link.Effect`: what a step does.

## Main results

* `Link.effect_of_step`: every step has an effect.
* `Link.Effect.calls_eq`: every step has the calls in the log that it makes.
-/

namespace Libble

open Att Gatt

namespace Link

variable {s t u : Link} {rest codes : List Code} {r : Nat} {f g : Task Pdu Proc → Nat}

/-! ### What is counted -/

/-- What the request of an operation weighs. -/
def Op.weigh (f : Task Pdu Proc → Nat) (op : Op) : Nat := op.task.elim 0 f

/-- What the request weighs that the code will have answered. -/
def Code.weigh (f : Task Pdu Proc → Nat) : Code → Nat
  | discOp op => op.weigh f
  | _ => 0

/-- What the requests weigh that wait for an answer. -/
def load (s : Link) (f : Task Pdu Proc → Nat) : Nat :=
  tally (Op.weigh f) s.reqQueue + tally (Op.weigh f) s.writeQueue +
    (if tally Code.ends s.todo = 0 then tally (Op.weigh f) s.pendingReq.toList else 0) +
    tally (Code.weigh f) s.todo

/-- The events of an operation that have been delivered or are about to be. -/
def told (s : Link) (r : Nat) : List Event :=
  s.log.filterMap (Act.eventOf r) ++ s.todo.filterMap (Code.eventOf r)

/-- The releases of the `request_t` of an operation that have been made or are about to be. -/
def releases (s : Link) (r : Nat) : Nat :=
  tally (isOne (.freeRequest r)) s.todo + s.freed.count (.request r)

/-- No request waits and no event is delivered because of the code. -/
def Code.idle : Code → Bool
  | emit (.procedure _) _ | freeRequest _ | discOp _ | rspDone | discPending | discDone => false
  | _ => true

/-- The code may lose requests. -/
def Code.loses : Code → Bool
  | cancelAll | cancelPending | attFree => true
  | _ => false

/-- The act is no call and no event of an operation. -/
def Act.idle : Act → Bool
  | called .. | event (.procedure _) _ => false
  | _ => true

namespace Code

variable {code : Code}

theorem weigh_of_idle (h : code.idle = true) (f : Task Pdu Proc → Nat) : code.weigh f = 0 := by
  cases code <;> first | rfl | cases h

theorem ends_of_idle (h : code.idle = true) : code.ends = 0 := by
  cases code <;> first | rfl | cases h

theorem clears_of_idle (h : code.idle = true) : code.clears = 0 := by
  cases code <;> first | rfl | cases h

theorem eventOf_of_idle (h : code.idle = true) (r : Nat) : code.eventOf r = none := by
  cases code with
  | emit source event => cases source <;> first | rfl | cases h
  | _ => rfl

theorem isOne_freeRequest_of_idle (h : code.idle = true) (r : Nat) :
    isOne (.freeRequest r) code = 0 := by
  cases code <;> first | rfl | cases h

end Code

theorem Act.call_of_idle {act : Act} (h : act.idle = true) : act.call = none := by
  cases act <;> first | rfl | cases h

theorem Act.eventOf_of_idle {act : Act} (h : act.idle = true) (r : Nat) : act.eventOf r = none := by
  cases act with
  | event source event => cases source <;> first | rfl | cases h
  | _ => rfl

/-- The pending request is cleared once, requests are requests, and nothing else is waited for. -/
structure Orderly (s : Link) : Prop where
  clears_le : tally Code.clears s.todo ≤ 1
  requests : ∀ op ∈ s.pendingReq.toList ++ s.reqQueue, op.type = .req
  writes : ∀ op ∈ s.writeQueue, op.cb = none ∧ op.type ≠ .req

namespace Orderly

theorem new (mtu : Mtu) : (Link.new mtu).Orderly := ⟨Nat.zero_le _, nofun, nofun⟩

/-- The queues have not got more. -/
theorem mono (h : s.Orderly)
    (clears : tally Code.clears s.todo ≤ 1 → tally Code.clears t.todo ≤ 1)
    (requests : ∀ op ∈ t.pendingReq.toList ++ t.reqQueue, op ∈ s.pendingReq.toList ++ s.reqQueue)
    (writes : ∀ op ∈ t.writeQueue, op ∈ s.writeQueue) : t.Orderly :=
  ⟨clears h.clears_le, fun op hop => h.requests op (requests op hop),
    fun op hop => h.writes op (writes op hop)⟩

end Orderly

/-! ### Nothing happens to the operations -/

/-- Nothing happens to the operations. -/
structure Still (s t : Link) : Prop where
  mtu_eq : t.mtu = s.mtu
  nextOwner_eq : t.nextOwner = s.nextOwner
  calls_eq : t.calls = s.calls
  load_eq : ∀ f, t.load f = s.load f
  told_eq : ∀ r, t.told r = s.told r
  releases_eq : ∀ r, t.releases r = s.releases r
  orderly : s.Orderly → t.Orderly

theorem Still.refl (s : Link) : Still s s :=
  ⟨rfl, rfl, rfl, fun _ => rfl, fun _ => rfl, fun _ => rfl, id⟩

theorem Still.trans (h : Still s t) (h' : Still t u) : Still s u :=
  ⟨h'.mtu_eq.trans h.mtu_eq, h'.nextOwner_eq.trans h.nextOwner_eq,
    h'.calls_eq.trans h.calls_eq, fun f => (h'.load_eq f).trans (h.load_eq f),
    fun r => (h'.told_eq r).trans (h.told_eq r),
    fun r => (h'.releases_eq r).trans (h.releases_eq r), h'.orderly ∘ h.orderly⟩

/-- The queues are as before, and what is added to the log and to the code is idle. -/
structure Calm (s t : Link) : Prop where
  mtu_eq : t.mtu = s.mtu
  nextOwner_eq : t.nextOwner = s.nextOwner
  attached_eq : t.attached = s.attached
  reqQueue_eq : t.reqQueue = s.reqQueue
  pendingReq_eq : t.pendingReq = s.pendingReq
  writes_eq : ∃ ops, t.writeQueue = s.writeQueue ++ ops ∧
    ∀ op ∈ ops, op.cb = none ∧ op.type ≠ .req
  freed_eq : ∀ r, t.freed.count (.request r) = s.freed.count (.request r)
  log : ∃ acts, t.log = s.log ++ acts ∧ ∀ a ∈ acts, a.idle = true
  todo : ∃ codes, t.todo = codes ++ s.todo ∧ ∀ c ∈ codes, c.idle = true

namespace Calm

theorem refl (s : Link) : Calm s s :=
  ⟨rfl, rfl, rfl, rfl, rfl, ⟨[], (List.append_nil _).symm, nofun⟩, fun _ => rfl,
    ⟨[], (List.append_nil _).symm, nofun⟩, [], rfl, nofun⟩

theorem trans (h : Calm s t) (h' : Calm t u) : Calm s u := by
  obtain ⟨acts, hlog, hacts⟩ := h.log
  obtain ⟨acts', hlog', hacts'⟩ := h'.log
  obtain ⟨codes, htodo, hcodes⟩ := h.todo
  obtain ⟨codes', htodo', hcodes'⟩ := h'.todo
  obtain ⟨ops, hwrites, hops⟩ := h.writes_eq
  obtain ⟨ops', hwrites', hops'⟩ := h'.writes_eq
  refine ⟨h'.mtu_eq.trans h.mtu_eq, h'.nextOwner_eq.trans h.nextOwner_eq,
    h'.attached_eq.trans h.attached_eq, h'.reqQueue_eq.trans h.reqQueue_eq,
    h'.pendingReq_eq.trans h.pendingReq_eq, ⟨ops ++ ops', ?_, ?_⟩,
    fun r => (h'.freed_eq r).trans (h.freed_eq r), ⟨acts ++ acts', ?_, ?_⟩, codes' ++ codes, ?_, ?_⟩
  · rw [hwrites', hwrites, List.append_assoc]
  · exact List.forall_mem_append.mpr ⟨hops, hops'⟩
  · rw [hlog', hlog, List.append_assoc]
  · exact List.forall_mem_append.mpr ⟨hacts, hacts'⟩
  · rw [htodo', htodo, List.append_assoc]
  · exact List.forall_mem_append.mpr ⟨hcodes', hcodes⟩

theorem push (s : Link) (codes : List Code) (h : ∀ c ∈ codes, c.idle = true) :
    Calm s (s.push codes) := { refl s with todo := ⟨codes, rfl, h⟩ }

theorem record (s : Link) (acts : List Act) (h : ∀ a ∈ acts, a.idle = true) :
    Calm s (s.record acts) := { refl s with log := ⟨acts, rfl, h⟩ }

/-- Fields that are not counted change. -/
theorem fields (s : Link) (app : Bool) (attribRef attRef : Int) (callbacks notifyList : List Cb)
    (recordRef : Nat → Int) (inReq writerActive : Bool) (nextAddr : Nat)
    (allocated faults : List Obj) :
    Calm s { s with
      app := app, attribRef := attribRef, callbacks := callbacks, recordRef := recordRef,
      attRef := attRef, notifyList := notifyList, inReq := inReq, writerActive := writerActive,
      nextAddr := nextAddr, allocated := allocated, faults := faults } :=
  { refl s with }

theorem use (s : Link) (o : Obj) : Calm s (s.use o) := fields ..

/-- An object other than a `request_t` is released. -/
theorem free (s : Link) {o : Obj} (h : ∀ r, o ≠ .request r) : Calm s (s.free o) :=
  { refl s with
    freed_eq := fun r => by
      simp [Link.free, Link.use, List.count_append, h r] }

theorem wakeupWriter (s : Link) : Calm s s.wakeupWriter := by
  rw [Link.wakeupWriter]
  split
  · exact fields ..
  · exact refl s

theorem respondNotSupported (s : Link) (opcode : UInt8) :
    Calm s (s.respondNotSupported opcode) := by
  rw [Link.respondNotSupported, btAttSend]
  split
  · refine Calm.trans ?_ (wakeupWriter _)
    refine { refl s with writes_eq := ⟨[_], rfl, List.forall_mem_singleton.mpr ⟨rfl, ?_⟩⟩ }
    show getOpType opErrorRsp ≠ .req
    decide
  · exact refl s

theorem notifyEnd (s : Link) (pdu : Pdu) (found : Bool) : Calm s (s.notifyEnd pdu found) := by
  have ended : ∀ u : Link, Calm u (u.push [.attUnref]) := fun u => push u _ (by simp [Code.idle])
  simp only [Link.notifyEnd]
  split
  · exact (respondNotSupported s _).trans (ended _)
  · exact ended s

theorem notifyNext (s : Link) (entry : Option Nat) (pdu : Pdu) (found : Bool) :
    Calm s (s.notifyNext entry pdu found) := by
  simp only [Link.notifyNext]
  split
  · exact notifyEnd s pdu found
  · split
    · exact notifyEnd s pdu found
    · split
      · refine Calm.trans ?_ (push _ _ (List.forall_mem_map.mpr fun _ _ => rfl))
        refine Calm.trans ?_ (use _ _)
        exact push s _ (by simp [Code.idle])
      · exact push s _ (by simp [Code.idle])

theorem callbacksDestroy (cb : Cb) : ∀ c ∈ Link.callbacksDestroy cb, c.idle = true :=
  List.forall_mem_append.mpr ⟨List.forall_mem_map.mpr fun _ _ => rfl, by simp [Code.idle]⟩

theorem callbacksRemove (s : Link) (cb : Cb) : Calm s (s.callbacksRemove cb) := by
  simp only [Link.callbacksRemove]
  split
  · exact (push s _ (callbacksDestroy cb)).trans (fields ..)
  · exact fields ..

/-- Code that is idle and does not lose requests. -/
theorem run {code : Code} (idle : code.idle = true) (keeps : code.loses = false) :
    Calm s (s.run code) := by
  cases code with
  | emit source event =>
    cases source with
    | procedure owner => cases idle
    | notification =>
      exact (record s _ (by simp [Act.idle])).trans (push _ _ (by simp [Code.idle]))
  | handler => exact refl s
  | destroyOp op => exact push s _ (List.forall_mem_map.mpr fun _ _ => rfl)
  | chanFree =>
    refine Calm.trans ?_ (push _ _ (by simp [Code.idle]))
    exact ((use s .att).trans (free (o := .chan) _ (by simp))).trans (fields ..)
  | timeoutDone => exact (use s .chan).trans (record _ _ (by simp [Act.idle]))
  | notifyNext entry pdu found => exact notifyNext s entry pdu found
  | notifyCheck entry pdu =>
    simp only [Link.run]
    split
    · exact notifyEnd s pdu true
    · exact notifyNext s entry pdu true
  | callbacksRemove cb => exact callbacksRemove s cb
  | callbacksFree cb => exact (use s .attrib).trans (free (o := .callbacks cb.addr) _ (by simp))
  | recordUnref r =>
    simp only [Link.run, Link.recordUnref]
    split
    · exact fields ..
    · refine Calm.trans ?_ (push _ [.attribUnref, .recordFree r] (by simp [Code.idle]))
      exact fields ..
  | recordFree r => exact free (o := .record r) s (by simp)
  | attribUnref =>
    simp only [Link.run, Link.attribUnref]
    split
    · refine Calm.trans ?_ (push _ [.attUnref, .callbacksDestroy, .attribFree]
        (by simp [Code.idle]))
      exact fields ..
    · exact fields ..
  | callbacksDestroy =>
    refine (push s (s.callbacks.flatMap Link.callbacksDestroy) ?_).trans (fields ..)
    rintro c hc
    obtain ⟨cb, -, hc⟩ := List.mem_flatMap.mp hc
    exact callbacksDestroy cb c hc
  | attribFree => exact free (o := .attrib) s (by simp)
  | attUnref =>
    simp only [Link.run, Link.attUnref]
    split
    · refine Calm.trans ?_ (push _ [.unregisterAll, .cancelAll, .attFree] (by simp [Code.idle]))
      exact fields ..
    · exact fields ..
  | unregisterAll =>
    exact (push s _ (List.forall_mem_map.mpr fun _ _ => rfl)).trans (fields ..)
  | cancelAll | cancelPending | attFree => cases keeps
  | freeRequest | discOp | rspDone | discPending | discDone => cases idle

theorem tally_todo (h : Calm s t) {w : Code → Nat} (hw : ∀ c, c.idle = true → w c = 0) :
    tally w t.todo = tally w s.todo := by
  obtain ⟨codes, htodo, hcodes⟩ := h.todo
  rw [htodo, tally_append, tally_eq_zero fun c hc => hw c (hcodes c hc), Nat.zero_add]

/-- Nothing happens to the operations when everything added is idle. -/
theorem still (h : Calm s t) : Still s t := by
  obtain ⟨acts, hlog, hacts⟩ := h.log
  obtain ⟨codes, htodo, hcodes⟩ := h.todo
  obtain ⟨ops, hwrites, hops⟩ := h.writes_eq
  refine ⟨h.mtu_eq, h.nextOwner_eq, ?_, fun f => ?_, fun r => ?_, fun r => ?_,
    fun orderly => ?_⟩
  · have hnil : acts.filterMap Act.call = [] :=
      List.filterMap_eq_nil_iff.mpr fun a ha => Act.call_of_idle (hacts a ha)
    rw [calls, calls, hlog, List.filterMap_append, hnil, List.append_nil]
  · have hzero : tally (Op.weigh f) ops = 0 :=
      tally_eq_zero fun op hop => by simp [Op.weigh, Op.task, (hops op hop).1]
    rw [load, load, h.tally_todo fun c => Code.ends_of_idle,
      h.tally_todo fun c hc => Code.weigh_of_idle hc f, h.reqQueue_eq, h.pendingReq_eq, hwrites,
      tally_append, hzero, Nat.add_zero]
  · have hnil : acts.filterMap (Act.eventOf r) = [] :=
      List.filterMap_eq_nil_iff.mpr fun a ha => Act.eventOf_of_idle (hacts a ha) r
    have hnil' : codes.filterMap (Code.eventOf r) = [] :=
      List.filterMap_eq_nil_iff.mpr fun c hc => Code.eventOf_of_idle (hcodes c hc) r
    rw [told, told, hlog, htodo, List.filterMap_append, List.filterMap_append, hnil, hnil',
      List.append_nil, List.nil_append]
  · rw [releases, releases, h.tally_todo fun c hc => Code.isOne_freeRequest_of_idle hc r,
      h.freed_eq]
  · refine ⟨?_, ?_, ?_⟩
    · rw [h.tally_todo fun c => Code.clears_of_idle]
      exact orderly.clears_le
    · rw [h.pendingReq_eq, h.reqQueue_eq]
      exact orderly.requests
    · rw [hwrites]
      exact List.forall_mem_append.mpr ⟨orderly.writes, hops⟩

end Calm

namespace Still

/-- Idle code is taken from the stack. -/
theorem pop {code : Code} (htodo : s.todo = code :: rest) (idle : code.idle = true) :
    Still s { s with todo := rest } := by
  have zero : ∀ {w : Code → Nat}, w code = 0 → tally w rest = tally w s.todo := by
    intro w hw
    rw [htodo, tally_cons, hw, Nat.zero_add]
  refine ⟨rfl, rfl, rfl, fun f => ?_, fun r => ?_, fun r => ?_, ?_⟩
  · simp only [load, zero (Code.ends_of_idle idle), zero (Code.weigh_of_idle idle f)]
  · simp only [told, htodo, List.filterMap_cons_none (Code.eventOf_of_idle idle r)]
  · simp only [releases, zero (Code.isOne_freeRequest_of_idle idle r)]
  · refine fun orderly => orderly.mono ?_ (fun _ => id) fun _ => id
    simp only [zero (Code.clears_of_idle idle)]
    exact id

/-- An event is delivered. -/
theorem emit {owner : Nat} {event : Event}
    (htodo : s.todo = .emit (.procedure owner) event :: rest) :
    Still s ({ s with todo := rest }.run (.emit (.procedure owner) event)) := by
  refine ⟨rfl, rfl, ?_, fun f => ?_, fun r => ?_, fun r => ?_, ?_⟩
  · simp [calls, run, Link.push, Link.record, Act.call]
  · simp [load, htodo, run, Link.push, Link.record, Code.ends, Code.weigh]
  · simp only [told, htodo, run, Link.push, Link.record, List.filterMap_append, List.append_assoc]
    congr 1
    by_cases howner : owner = r
    · simp [Act.eventOf, Code.eventOf, howner]
    · simp [Act.eventOf, Code.eventOf, howner]
  · simp [releases, htodo, run, Link.push, Link.record, isOne]
  · refine fun orderly => orderly.mono ?_ (fun _ => id) fun _ => id
    simp [htodo, run, Link.push, Link.record, Code.clears]

/-- A `request_t` is released. -/
theorem freeRequest {owner : Nat} (htodo : s.todo = .freeRequest owner :: rest) :
    Still s ({ s with todo := rest }.run (.freeRequest owner)) := by
  refine ⟨rfl, rfl, rfl, fun f => ?_, fun r => ?_, fun r => ?_, ?_⟩
  · simp only [load, htodo, run, Link.free, Link.use, tally_cons, Code.ends, Code.weigh,
      Nat.zero_add]
    rfl
  · simp [told, htodo, run, Link.free, Link.use, Code.eventOf, List.filterMap_cons]
  · have hcount : [Obj.request owner].count (.request r) =
        isOne (Code.freeRequest r) (Code.freeRequest owner) := by
      simp [isOne, List.count_singleton]
    simp only [releases, htodo, run, Link.free, Link.use, List.count_append, tally_cons, hcount]
    omega
  · refine fun orderly => orderly.mono ?_ (fun _ => id) fun _ => id
    simp [htodo, run, Link.free, Link.use, Code.clears]

/-- The pending request, which has been answered, is cleared. -/
theorem pendingClear {code : Code} (htodo : s.todo = code :: rest) (hends : code.ends = 1) :
    Still s { s with todo := rest, pendingReq := none } := by
  have hcode : code = .rspDone ∨ code = .discDone := by
    cases code <;> simp [Code.ends] at hends ⊢
  refine ⟨rfl, rfl, rfl, fun f => ?_, fun r => ?_, fun r => ?_, fun orderly => ?_⟩
  · rcases hcode with rfl | rfl
    · simp [load, htodo, Code.ends, Code.weigh]
    · simp [load, htodo, Code.ends, Code.weigh]
  · rcases hcode with rfl | rfl
    · simp [told, htodo, Code.eventOf, List.filterMap_cons]
    · simp [told, htodo, Code.eventOf, List.filterMap_cons]
  · rcases hcode with rfl | rfl
    · simp [releases, htodo, isOne]
    · simp [releases, htodo, isOne]
  · refine orderly.mono (fun hle => ?_) (fun op hop => List.mem_append_right _ hop) fun _ => id
    rw [htodo, tally_cons] at hle
    exact Nat.le_trans (Nat.le_add_left _ _) hle

/-- `disconnect_cb` gets to the pending request. -/
theorem discPending (htodo : s.todo = .discPending :: rest) (orderly : s.Orderly) :
    Still s ({ s with todo := rest }.run .discPending) := by
  have hle := orderly.clears_le
  have hclears : tally Code.clears rest = 0 := by
    rw [htodo, tally_cons, Code.clears] at hle
    omega
  have hends : tally Code.ends rest = 0 := by
    have := tally_mono (f := Code.ends) (g := Code.clears) (l := rest)
      fun c _ => Code.ends_le_clears c
    omega
  refine ⟨rfl, rfl, rfl, fun f => ?_, fun r => ?_, fun r => ?_, fun _ => ?_⟩
  · cases hp : s.pendingReq with
    | none => simp [load, htodo, run, Link.push, hp, hends, Code.ends, Code.weigh]
    | some op =>
      simp [load, htodo, run, Link.push, hp, hends, Code.ends, Code.weigh]
      omega
  · cases s.pendingReq <;>
      simp [told, htodo, run, Link.push, Code.eventOf, List.filterMap_cons]
  · cases s.pendingReq <;> simp [releases, htodo, run, Link.push, isOne]
  · refine orderly.mono (fun _ => ?_) (fun _ => id) fun _ => id
    cases s.pendingReq <;> simp [run, Link.push, hclears, Code.clears]

/-- The link is lost. -/
theorem disconnectCb (hidle : s.todo = []) : Still s s.disconnectCb := by
  refine ⟨rfl, rfl, rfl, fun f => ?_, fun r => ?_, fun r => ?_, fun orderly => ?_⟩
  · have hweigh : ∀ ops : List Op,
        tally (Code.weigh f) (ops.map .discOp) = tally (Op.weigh f) ops :=
      fun ops => tally_map ..
    have hends : ∀ ops : List Op, tally Code.ends (ops.map .discOp) = 0 :=
      fun ops => (tally_map ..).trans (tally_eq_zero fun _ _ => rfl)
    simp only [load, Link.disconnectCb, Link.push, hidle, tally_append, hweigh, hends, tally_cons,
      tally_nil, Code.ends, Code.weigh, List.append_nil, if_true, Nat.zero_add, Nat.add_zero]
    omega
  · have hnil : ∀ ops : List Op, (ops.map Code.discOp).filterMap (Code.eventOf r) = [] :=
      fun ops => List.filterMap_eq_nil_iff.mpr (List.forall_mem_map.mpr fun _ _ => rfl)
    simp [told, Link.disconnectCb, Link.push, hidle, hnil, Code.eventOf]
  · have hzero : ∀ ops : List Op, tally (isOne (.freeRequest r)) (ops.map Code.discOp) = 0 :=
      fun ops => (tally_map ..).trans (tally_eq_zero fun _ _ => rfl)
    simp [releases, Link.disconnectCb, Link.push, hidle, hzero, isOne]
  · have hzero : ∀ ops : List Op, tally Code.clears (ops.map Code.discOp) = 0 :=
      fun ops => (tally_map ..).trans (tally_eq_zero fun _ _ => rfl)
    refine orderly.mono (fun _ => ?_) (fun op hop => ?_) ?_
    · simp [Link.disconnectCb, Link.push, hidle, hzero, Code.clears]
    · simp only [Link.disconnectCb, Link.push, List.append_nil] at hop
      exact List.mem_append_left _ hop
    · rintro - ⟨⟩

end Still

/-! ### Sending and calling back -/

/-- A request is sent, and accepted while the channel is attached. -/
structure Sends (s t : Link) (task : Task Pdu Proc) : Prop where
  mtu_eq : t.mtu = s.mtu
  nextOwner_eq : t.nextOwner = s.nextOwner
  calls_eq : t.calls = s.calls
  load_eq : ∀ f, t.load f = s.load f + if s.attached then f task else 0
  told_eq : ∀ r, t.told r = s.told r
  releases_eq : ∀ r, t.releases r = s.releases r
  orderly : s.Orderly → t.Orderly

namespace Sends

variable {owner : Nat} {proc : Proc} {pdu : Pdu} {task : Task Pdu Proc}

theorem gAttribSend (isRequest : IsRequest s.mtu.buflen pdu) (owner : Nat) (proc : Proc) :
    Sends s (s.gAttribSend owner proc pdu) ⟨owner, pdu, proc⟩ := by
  cases attached : s.attached with
  | true =>
    rw [gAttribSend_attached attached isRequest]
    refine ⟨rfl, rfl, rfl, fun f => ?_, fun _ => rfl, fun r => rfl, fun orderly => ?_⟩
    · have hweigh : Op.weigh f ⟨pdu, .req, some ⟨s.nextAddr, .result owner proc⟩⟩ =
          f ⟨owner, pdu, proc⟩ := rfl
      simp only [load, tally_append, tally_cons, tally_nil, hweigh, attached, if_true]
      omega
    · refine ⟨orderly.clears_le, fun op hop => ?_, orderly.writes⟩
      rw [← List.append_assoc] at hop
      rcases List.mem_append.mp hop with hop | hop
      · exact orderly.requests op hop
      · rw [List.mem_singleton.mp hop]
  | false =>
    rw [gAttribSend_detached attached]
    refine ⟨rfl, rfl, rfl, fun f => ?_, fun _ => rfl, fun _ => rfl, fun orderly => ?_⟩
    · rw [attached]
      rfl
    · exact orderly.mono id (fun _ => id) fun _ => id

theorem after_calm (h : Calm s u) (sends : Sends u t task) : Sends s t task := by
  have still := h.still
  refine ⟨sends.mtu_eq.trans still.mtu_eq, sends.nextOwner_eq.trans still.nextOwner_eq,
    sends.calls_eq.trans still.calls_eq, fun f => ?_,
    fun r => (sends.told_eq r).trans (still.told_eq r),
    fun r => (sends.releases_eq r).trans (still.releases_eq r), sends.orderly ∘ still.orderly⟩
  rw [sends.load_eq, still.load_eq, h.attached_eq]

theorem before_still (sends : Sends s u task) (still : Still u t) : Sends s t task :=
  ⟨still.mtu_eq.trans sends.mtu_eq, still.nextOwner_eq.trans sends.nextOwner_eq,
    still.calls_eq.trans sends.calls_eq,
    fun f => (still.load_eq f).trans (sends.load_eq f),
    fun r => (still.told_eq r).trans (sends.told_eq r),
    fun r => (still.releases_eq r).trans (sends.releases_eq r), still.orderly ∘ sends.orderly⟩

end Sends

/-- What the callback of a request does: it sends the next request or has events delivered. -/
structure Reacts (s t : Link) (task : Task Pdu Proc) (turn : Turn Pdu Proc Event) : Prop where
  mtu_eq : t.mtu = s.mtu
  nextOwner_eq : t.nextOwner = s.nextOwner
  calls_eq : t.calls = s.calls
  load_eq : ∀ f, t.load f = s.load f + if s.attached then tally f (turn.tasks task.owner) else 0
  told_self : s.told task.owner = [] → t.told task.owner = turn.phase.outputs
  told_other : ∀ r, r ≠ task.owner → t.told r = s.told r
  releases_self : ∀ events, turn = .done events → task.cont.isRead = true →
    t.releases task.owner = s.releases task.owner + 1
  releases_next : ∀ req cont, turn = .next req cont →
    t.releases task.owner = s.releases task.owner
  releases_other : ∀ r, r ≠ task.owner → t.releases r = s.releases r
  orderly : s.Orderly → t.Orderly

theorem exists_cb_of_task {op : Op} {task : Task Pdu Proc} (htask : op.task = some task) :
    ∃ addr, op.cb = some ⟨addr, .result task.owner task.cont⟩ := by
  rcases hcb : op.cb with - | ⟨addr, ⟨owner, proc⟩ | -⟩
  · simp [Op.task, hcb] at htask
  · simp only [Op.task, hcb, Option.some.injEq] at htask
    subst htask
    exact ⟨addr, rfl⟩
  · simp [Op.task, hcb] at htask

namespace Reacts

variable {task : Task Pdu Proc}

/-- The next request is sent. -/
theorem of_sends {req : Pdu} {next : Proc} (h : Sends s t ⟨task.owner, req, next⟩) :
    Reacts s t task (.next req next) := by
  refine ⟨h.mtu_eq, h.nextOwner_eq, h.calls_eq, fun f => ?_, fun hnil => (h.told_eq _).trans hnil,
    fun r _ => h.told_eq r, nofun, fun _ _ _ => h.releases_eq _, fun r _ => h.releases_eq r,
    h.orderly⟩
  rw [h.load_eq]
  rfl

/-- The events are delivered, and the `request_t` of a read is released. -/
theorem of_finish (s : Link) (task : Task Pdu Proc) (events : List Event) :
    Reacts s (s.push (events.map (.emit (.procedure task.owner)) ++
      if task.cont.isRead then [.freeRequest task.owner] else [])) task (.done events) := by
  have weightless : ∀ {w : Code → Nat}, (∀ e, w (.emit (.procedure task.owner) e) = 0) →
      w (.freeRequest task.owner) = 0 →
      tally w (events.map (.emit (.procedure task.owner)) ++
        (if task.cont.isRead then [.freeRequest task.owner] else []) ++ s.todo) =
        tally w s.todo := by
    intro w hemit hfree
    have hzero : tally w (events.map (.emit (.procedure task.owner))) = 0 :=
      (tally_map ..).trans (tally_eq_zero fun e _ => hemit e)
    rw [tally_append, tally_append, hzero]
    split
    · simp [hfree]
    · simp
  have emitted : ∀ r, (events.map (Code.emit (.procedure task.owner))).filterMap (Code.eventOf r) =
      if task.owner = r then events else [] := by
    intro r
    by_cases hr : task.owner = r
    · simp [List.filterMap_map, Function.comp_def, Code.eventOf, hr]
    · simp [List.filterMap_map, Function.comp_def, Code.eventOf, hr]
  have silent : ∀ r, (if task.cont.isRead then [Code.freeRequest task.owner] else []).filterMap
      (Code.eventOf r) = [] := by
    intro r
    split <;> rfl
  refine ⟨rfl, rfl, rfl, fun f => ?_, fun hnil => ?_, fun r hr => ?_, fun _ _ isRead => ?_, by simp,
    fun r hr => ?_, ?_⟩
  · have hends := weightless (w := Code.ends) (fun _ => rfl) rfl
    have hweigh := weightless (w := Code.weigh f) (fun _ => rfl) rfl
    simp only [load, Link.push, hends, hweigh, Turn.tasks, tally_nil, ite_self, Nat.add_zero]
  · have hlog : s.log.filterMap (Act.eventOf task.owner) = [] := (List.append_eq_nil_iff.mp hnil).1
    have htodo : s.todo.filterMap (Code.eventOf task.owner) = [] :=
      (List.append_eq_nil_iff.mp hnil).2
    simp only [told, Link.push, List.filterMap_append, emitted, silent, hlog, htodo, if_true,
      List.nil_append, List.append_nil]
    rfl
  · simp only [told, Link.push, List.filterMap_append, emitted, silent, if_neg (Ne.symm hr),
      List.nil_append, List.append_nil]
  · have hzero : tally (isOne (.freeRequest task.owner))
        (events.map (Code.emit (.procedure task.owner))) = 0 :=
      (tally_map ..).trans (tally_eq_zero fun _ _ => rfl)
    simp only [releases, Link.push, tally_append, hzero, isRead, if_true, tally_cons, tally_nil,
      isOne_self]
    omega
  · have hfree : isOne (.freeRequest r) (Code.freeRequest task.owner) = 0 :=
      if_neg fun h => hr (Code.freeRequest.inj h).symm
    have hrel := weightless (w := isOne (.freeRequest r)) (fun _ => rfl) hfree
    simp only [releases, Link.push, hrel]
  · have hclears := weightless (w := Code.clears) (fun _ => rfl) rfl
    refine fun orderly => orderly.mono ?_ (fun _ => id) fun _ => id
    simp only [Link.push, hclears]
    exact id

end Reacts

/-- The callback of an operation is called. -/
theorem reacts_runCallback (s : Link) {op : Op} {task : Task Pdu Proc} (htask : op.task = some task)
    (opcode : UInt8) (pdu : Pdu) :
    Reacts s (s.runCallback op opcode pdu) task
      (turnOf (react s.mtu.buflen task.cont (statusOf opcode pdu) (opcode :: pdu))) := by
  obtain ⟨addr, hcb⟩ := exists_cb_of_task htask
  generalize htarget : s.runCallback op opcode pdu = t
  have called := calledBack s op opcode pdu
  rw [htarget] at called
  clear htarget
  cases called with
  | nobody h => exact absurd hcb (h addr task.owner task.cont)
  | @goesOn addr' owner proc next req hcb' hreact continues =>
    obtain ⟨rfl, rfl, rfl⟩ : addr' = addr ∧ owner = task.owner ∧ proc = task.cont := by
      simpa using hcb'.symm.trans hcb
    obtain ⟨faults, huse⟩ := useResult_eq (s := s) addr' task.owner task.cont
    have used : Calm s { s with faults := faults } := .fields ..
    have sends : Sends s (({ s with faults := faults } : Link).gAttribSend task.owner next req)
        ⟨task.owner, req, next⟩ :=
      .after_calm used (.gAttribSend (s := { s with faults := faults }) continues.isRequest
        task.owner next)
    rw [hreact, huse]
    dsimp only
    split
    · exact .of_sends (sends.before_still (Calm.fields ..).still)
    · exact .of_sends sends
  | @isOver addr' owner proc events hcb' hreact =>
    obtain ⟨rfl, rfl, rfl⟩ : addr' = addr ∧ owner = task.owner ∧ proc = task.cont := by
      simpa using hcb'.symm.trans hcb
    obtain ⟨faults, huse⟩ := useResult_eq (s := s) addr' task.owner task.cont
    rw [hreact, huse]
    have reacts := Reacts.of_finish { s with faults := faults } task events
    exact ⟨reacts.mtu_eq, reacts.nextOwner_eq, reacts.calls_eq, reacts.load_eq,
      reacts.told_self, reacts.told_other, reacts.releases_self, reacts.releases_next,
      reacts.releases_other, reacts.orderly ∘ (Calm.fields ..).still.orderly⟩

/-- The callback of an operation that belongs to nobody is not called. -/
theorem still_runCallback (s : Link) {op : Op} (htask : op.task = none) (opcode : UInt8)
    (pdu : Pdu) : s.runCallback op opcode pdu = s := by
  have called := calledBack s op opcode pdu
  generalize s.runCallback op opcode pdu = t at called
  cases called with
  | nobody => rfl
  | goesOn hcb | isOver hcb => simp [Op.task, hcb] at htask

/-! ### What a step does -/

/-- The operation does not wait any more. -/
structure Removes (s u : Link) (op : Op) : Prop where
  mtu_eq : u.mtu = s.mtu
  nextOwner_eq : u.nextOwner = s.nextOwner
  calls_eq : u.calls = s.calls
  attached_eq : u.attached = s.attached
  load_eq : ∀ f, u.load f + op.weigh f = s.load f
  told_eq : ∀ r, u.told r = s.told r
  releases_eq : ∀ r, u.releases r = s.releases r
  orderly : s.Orderly → u.Orderly

namespace Removes

variable {op : Op}

theorem after_calm (h : Calm s t) (removes : Removes t u op) : Removes s u op := by
  have still := h.still
  exact ⟨removes.mtu_eq.trans still.mtu_eq, removes.nextOwner_eq.trans still.nextOwner_eq,
    removes.calls_eq.trans still.calls_eq,
    removes.attached_eq.trans h.attached_eq, fun f => (removes.load_eq f).trans (still.load_eq f),
    fun r => (removes.told_eq r).trans (still.told_eq r),
    fun r => (removes.releases_eq r).trans (still.releases_eq r), removes.orderly ∘ still.orderly⟩

theorem before_calm (removes : Removes s u op) (h : Calm u t) : Removes s t op := by
  have still := h.still
  exact ⟨still.mtu_eq.trans removes.mtu_eq, still.nextOwner_eq.trans removes.nextOwner_eq,
    still.calls_eq.trans removes.calls_eq,
    h.attached_eq.trans removes.attached_eq,
    fun f => (congrArg (· + op.weigh f) (still.load_eq f)).trans (removes.load_eq f),
    fun r => (still.told_eq r).trans (removes.told_eq r),
    fun r => (still.releases_eq r).trans (removes.releases_eq r),
    still.orderly ∘ removes.orderly⟩

/-- An operation that belongs to nobody. -/
theorem still (removes : Removes s u op) (htask : op.task = none) : Still s u := by
  refine ⟨removes.mtu_eq, removes.nextOwner_eq, removes.calls_eq, fun f => ?_,
    removes.told_eq, removes.releases_eq, removes.orderly⟩
  have hzero : op.weigh f = 0 := by
    rw [Op.weigh, htask]
    rfl
  have hload := removes.load_eq f
  rwa [hzero] at hload

end Removes

/-- The step has the callback of the operation called with an error that the library makes up:
the link is lost, the request times out, or it cannot be written. -/
inductive Fails (s : Link) : Label → Op → Prop
  | disconnected {op : Op} (h : s.todo.head? = some (.discOp op)) : Fails s .resume op
  | timedOut {op : Op} (h : s.pendingReq = some op) : Fails s .timeout op
  | unwritten {op : Op} {t : Link} (h : s.pickNextSendOp = some (op, t)) : Fails s (.canWrite 0) op

/-- Where the turn of an operation comes from: an error that the library makes up, or a response
of the peer that is no reason to send the request again. -/
inductive TurnSource (s : Link) (label : Label) (task : Task Pdu Proc) :
    Turn Pdu Proc Event → Prop
  | failed {op : Op} (fails : Fails s label op) (htask : op.task = some task) :
    TurnSource s label task (turnOf (react s.mtu.buflen task.cont 0x0e [opErrorRsp]))
  | answered {bytes : Pdu} {security : Int} {setOk : Bool} {op : Op}
      (hlabel : label = .canRead bytes security setOk) (hne : bytes ≠ [])
      (hpending : s.pendingReq = some op) (htask : op.task = some task)
      (attached : s.attached = true) (hlength : bytes.length ≤ s.mtu.buflen)
      (hretries : retries (byteAt bytes 0) (bytes.drop 1) security setOk = false) :
    TurnSource s label task (reactTo s.mtu.buflen task.req task.cont bytes)

/-- Requests may be lost, and nothing is told of them. -/
structure Loses (s t : Link) : Prop where
  mtu_eq : t.mtu = s.mtu
  nextOwner_eq : t.nextOwner = s.nextOwner
  calls_eq : t.calls = s.calls
  load_le : ∀ f, t.load f ≤ s.load f
  told_eq : ∀ r, t.told r = s.told r
  releases_eq : ∀ r, t.releases r = s.releases r
  orderly : s.Orderly → t.Orderly

/-- A call takes the next name. -/
def named (s : Link) (call : Call) : Link :=
  { s.record [.called s.nextOwner call] with nextOwner := s.nextOwner + 1 }

/-- What a step does to the operations. -/
inductive Effect (s t : Link) (label : Label) : Prop
  /-- Nothing. -/
  | still (h : Still s t)
  /-- An operation is started. -/
  | started {call : Call} (hlabel : label = .call call)
      (sends : Sends (s.named call) t
        ⟨s.nextOwner, (call.begin s.mtu.buflen).1, (call.begin s.mtu.buflen).2⟩)
  /-- The callback of a request is called. -/
  | reacted {u : Link} {op : Op} {task : Task Pdu Proc} {turn : Turn Pdu Proc Event}
      (removes : Removes s u op) (htask : op.task = some task)
      (source : TurnSource s label task turn) (reacts : Reacts u t task turn)
  /-- Requests may be lost in the teardown. -/
  | lost {code : Code} (mem : code ∈ s.todo) (loses : code.loses = true) (removed : Loses s t)

/-- The record of a refused read request is released again. -/
theorem sends_gattReadChar (s : Link) (owner : Nat) (proc : Proc) {pdu : Pdu}
    (isRequest : IsRequest s.mtu.buflen pdu) :
    Sends s (s.gattReadChar owner proc pdu) ⟨owner, pdu, proc⟩ := by
  have made : Calm s (s.makeRecord owner) := .fields ..
  have sends := Sends.after_calm made (.gAttribSend (s := s.makeRecord owner) isRequest owner proc)
  simp only [gattReadChar]
  split
  · exact sends.before_still (Calm.fields ..).still
  · exact sends.before_still (Calm.push _ [.attribUnref, .recordFree owner]
      (by simp [Code.idle])).still

/-- A call sends its first request. -/
theorem sends_call (s : Link) (call : Call) :
    Sends (s.named call) (s.call call)
      ⟨s.nextOwner, (call.begin s.mtu.buflen).1, (call.begin s.mtu.buflen).2⟩ := by
  have isRequest := isRequest_begin s.mtu.le_buflen call
  have calm : Calm (s.named call) (s.prepared call) := by
    cases call with
    | write handle data => exact .refl _
    | request handle => exact .fields ..
    | discoverHand | discoverChar => exact .fields ..
  have sends : Sends (s.named call) ((s.prepared call).gAttribSend s.nextOwner
      (call.begin s.mtu.buflen).2 (call.begin s.mtu.buflen).1) _ :=
    .after_calm calm (.gAttribSend (calm.mtu_eq.symm ▸ isRequest) _ _)
  cases call with
  | write handle data => rwa [call_eq (.inr (by simp))]
  | discoverHand | discoverChar => rwa [call_eq (.inr (by simp))]
  | request handle =>
    have allocated : Calm (s.named (.request handle))
        ((s.named (.request handle)).alloc (.request s.nextOwner)) := .fields ..
    exact .after_calm allocated (sends_gattReadChar _ _ _ isRequest)

namespace Loses

theorem of_still (h : Still s t) : Loses s t :=
  ⟨h.mtu_eq, h.nextOwner_eq, h.calls_eq, fun f => Nat.le_of_eq (h.load_eq f), h.told_eq,
    h.releases_eq, h.orderly⟩

theorem trans (h : Loses s t) (h' : Loses t u) : Loses s u :=
  ⟨h'.mtu_eq.trans h.mtu_eq, h'.nextOwner_eq.trans h.nextOwner_eq, h'.calls_eq.trans h.calls_eq,
    fun f => Nat.le_trans (h'.load_le f) (h.load_le f), fun r => (h'.told_eq r).trans (h.told_eq r),
    fun r => (h'.releases_eq r).trans (h.releases_eq r), h'.orderly ∘ h.orderly⟩

/-- The queues are emptied. -/
theorem queues (s : Link) : Loses s { s with reqQueue := [], writeQueue := [] } := by
  refine ⟨rfl, rfl, rfl, fun f => ?_, fun _ => rfl, fun _ => rfl, fun orderly => ?_⟩
  · simp only [load, tally_nil]
    omega
  · exact orderly.mono id
      (fun op hop => List.mem_append_left _ (by simpa only [List.append_nil] using hop)) nofun

/-- The pending request forgets its callback. -/
theorem callback {op : Op} (hp : s.pendingReq = some op) :
    Loses s { s with pendingReq := some { op with cb := none } } := by
  refine ⟨rfl, rfl, rfl, fun f => ?_, fun _ => rfl, fun _ => rfl, fun orderly => ?_⟩
  · have hzero : Op.weigh f { op with cb := none } = 0 := rfl
    simp only [load, Option.toList_some, tally_cons, tally_nil, hzero]
    split <;> omega
  · refine ⟨orderly.clears_le, fun o ho => ?_, orderly.writes⟩
    rcases List.mem_cons.mp ho with rfl | ho
    · exact orderly.requests op (List.mem_append_left _ (by simp [hp]))
    · exact orderly.requests o (List.mem_append_right _ ho)

/-- The channel is freed. -/
theorem channel (s : Link) : Loses s { s with attached := false, pendingReq := none } := by
  refine ⟨rfl, rfl, rfl, fun f => ?_, fun _ => rfl, fun _ => rfl, fun orderly => ?_⟩
  · simp only [load, Option.toList_none, tally_nil, ite_self]
    omega
  · exact orderly.mono id (fun op hop => List.mem_append_right _ hop) fun _ => id

end Loses

/-- Code that loses requests. -/
theorem loses_run {code : Code} (htodo : s.todo = code :: rest) (loses : code.loses = true) :
    Loses s ({ s with todo := rest }.run code) := by
  have idle : code.idle = true := by
    cases code <;> first | rfl | cases loses
  refine (Loses.of_still (Still.pop htodo idle)).trans ?_
  cases code with
  | cancelAll =>
    have pushed := Calm.push { s with todo := rest }
      ((s.reqQueue ++ s.writeQueue).map .destroyOp ++ [.cancelPending])
      (List.forall_mem_append.mpr ⟨List.forall_mem_map.mpr fun _ _ => rfl, by simp [Code.idle]⟩)
    exact (Loses.of_still pushed.still).trans (.queues _)
  | cancelPending =>
    simp only [Link.run, Link.cancelPending]
    split
    · rename_i op _ hp
      have pushed := Calm.push { s with todo := rest } (op.cb.toList.map .callbacksRemove)
        (List.forall_mem_map.mpr fun _ _ => rfl)
      exact (Loses.of_still pushed.still).trans (.callback hp)
    · exact .of_still (.refl _)
  | attFree =>
    simp only [Link.run, Link.attFree]
    refine Loses.trans ?_ (.of_still (Calm.free (o := .att) _ (by simp)).still)
    split
    · have pushed := Calm.push { s with todo := rest } (s.pendingReq.toList.map .destroyOp)
        (List.forall_mem_map.mpr fun _ _ => rfl)
      exact (Loses.of_still (pushed.trans (.free (o := .chan) _ (by simp))).still).trans
        (.channel _)
    · exact .of_still (.refl _)
  | _ => cases loses

/-- The callback of an operation is called with an error that the library makes up. -/
theorem effect_failed {op : Op} {label : Label} (removes : Removes s u op)
    (fails : Fails s label op) : Effect s (u.runCallback op opErrorRsp []) label := by
  cases htask : op.task with
  | none =>
    rw [still_runCallback u htask]
    exact .still (removes.still htask)
  | some task =>
    have reacts := reacts_runCallback u htask opErrorRsp []
    rw [removes.mtu_eq] at reacts
    exact .reacted removes htask (.failed fails htask) reacts

/-- What `disconnect_cb` does to an operation. -/
theorem effect_discOp {op : Op} (htodo : s.todo = .discOp op :: rest) :
    Effect s ({ s with todo := rest }.run (.discOp op)) .resume := by
  have removes : Removes s { s with todo := rest } op := by
    refine ⟨rfl, rfl, rfl, rfl, fun f => ?_, fun r => ?_, fun r => ?_, fun orderly => ?_⟩
    · simp only [load, htodo, tally_cons, Code.ends, Code.weigh, Nat.zero_add]
      omega
    · simp [told, htodo, Code.eventOf, List.filterMap_cons]
    · simp [releases, htodo, isOne]
    · refine orderly.mono ?_ (fun _ => id) fun _ => id
      simp [htodo, Code.clears]
  exact effect_failed (removes.before_calm (.push _ [.destroyOp op] (by simp [Code.idle])))
    (.disconnected (by rw [htodo]; rfl))

/-- The library runs on. -/
theorem effect_of_resume (orderly : s.Orderly) {code : Code} (htodo : s.todo = code :: rest) :
    Effect s ({ s with todo := rest }.run code) .resume := by
  by_cases loses : code.loses = true
  · exact .lost (htodo ▸ List.mem_cons_self) loses (loses_run htodo loses)
  · by_cases idle : code.idle = true
    · exact .still ((Still.pop htodo idle).trans
        (Calm.run idle (Bool.eq_false_iff.mpr loses)).still)
    · cases code with
      | emit source event =>
        cases source with
        | procedure owner => exact .still (.emit htodo)
        | notification => exact absurd rfl idle
      | freeRequest owner => exact .still (.freeRequest htodo)
      | rspDone => exact .still ((Still.pendingClear htodo rfl).trans (Calm.fields ..).still)
      | discDone => exact .still (.pendingClear htodo rfl)
      | discPending => exact .still (.discPending htodo orderly)
      | discOp op => exact effect_discOp htodo
      | _ => exact absurd rfl idle

/-- An operation is picked from a queue. -/
theorem removes_picked {op : Op} (h : s.pickNextSendOp = some (op, u)) : Removes s u op := by
  rcases pickNextSendOp_cases h with ⟨ops, hops, rfl⟩ | ⟨-, -, ops, hops, rfl⟩
  · refine ⟨rfl, rfl, rfl, rfl, fun f => ?_, fun _ => rfl, fun _ => rfl, fun orderly => ?_⟩
    · simp only [load, hops, tally_cons]
      omega
    · exact orderly.mono id (fun _ => id) fun o ho => hops ▸ List.mem_cons_of_mem _ ho
  · refine ⟨rfl, rfl, rfl, rfl, fun f => ?_, fun _ => rfl, fun _ => rfl, fun orderly => ?_⟩
    · simp only [load, hops, tally_cons]
      omega
    · refine orderly.mono id (fun o ho => ?_) fun _ => id
      rw [hops]
      rcases List.mem_append.mp ho with ho | ho
      · exact List.mem_append_left _ ho
      · exact List.mem_append_right _ (List.mem_cons_of_mem _ ho)

/-- The operation that was removed becomes the pending request. -/
theorem Removes.pend {op : Op} (removes : Removes s u op) (hpending : u.pendingReq = none)
    (hidle : u.todo = []) (htype : op.type = .req) : Still s { u with pendingReq := some op } := by
  refine ⟨removes.mtu_eq, removes.nextOwner_eq, removes.calls_eq, fun f => ?_,
    removes.told_eq, removes.releases_eq, fun orderly => ?_⟩
  · rw [← removes.load_eq f]
    simp only [load, hidle, hpending, tally_nil, Option.toList_some, Option.toList_none, tally_cons,
      if_true]
    omega
  · have orderly := removes.orderly orderly
    refine ⟨orderly.clears_le, List.forall_mem_cons.mpr ⟨htype, fun o ho => ?_⟩, orderly.writes⟩
    exact orderly.requests o (List.mem_append_right _ ho)

/-- `can_write_data` -/
theorem effect_canWrite (orderly : s.Orderly) (hidle : s.todo = []) (ret : Int) :
    Effect s (s.canWriteData ret) (.canWrite ret) := by
  simp only [Link.canWriteData]
  split
  · exact .still (Calm.fields ..).still
  · rename_i op t hpick
    have removes := removes_picked hpick
    have done : ∀ v : Link, Calm v (v.push [.destroyOp op]) := fun v =>
      .push v _ (by simp [Code.idle])
    split
    · subst ret
      exact effect_failed (removes.before_calm (done t)) (.unwritten hpick)
    · obtain ⟨v, hv, written⟩ : ∃ v, (if 0 < ret then t.record [.sent op.owner op.pdu] else t) = v ∧
          Calm t v := by
        refine ⟨_, rfl, ?_⟩
        split
        · exact .record _ _ (by simp [Act.idle])
        · exact .refl t
      rw [hv]
      have sent := removes.before_calm written
      rcases pickNextSendOp_cases hpick with ⟨ops, hops, rfl⟩ | ⟨hpending, -, ops, hops, rfl⟩
      · -- what is in the write queue belongs to nobody
        obtain ⟨hcb, htype⟩ := orderly.writes op (hops ▸ List.mem_cons_self)
        have still := (sent.still (by simp [Op.task, hcb])).trans (done v).still
        split
        · exact absurd ‹_› htype
        · exact .still (still.trans (Calm.fields ..).still)
        · exact .still still
      · have htype := orderly.requests op
          (List.mem_append_right _ (hops ▸ List.mem_cons_self))
        simp only [htype]
        refine .still (sent.pend (written.pendingReq_eq.trans hpending) ?_ htype)
        rw [← hv]
        split
        · exact hidle
        · exact hidle

/-- The pending request is to be sent again. -/
theorem still_requeue {op : Op} (hp : s.pendingReq = some op) (ends : tally Code.ends s.todo = 0) :
    Still s { s with pendingReq := none, reqQueue := op :: s.reqQueue } := by
  refine ⟨rfl, rfl, rfl, fun f => ?_, fun _ => rfl, fun _ => rfl, fun orderly => ?_⟩
  · simp only [load, hp, ends, tally_cons, Option.toList_some, Option.toList_none, tally_nil,
      if_true]
    omega
  · exact orderly.mono id (fun o ho => by simpa [hp] using ho) fun _ => id

/-- The pending request has been answered. -/
theorem removes_pending {op : Op} (hp : s.pendingReq = some op) (ends : tally Code.ends s.todo = 0)
    (clears : tally Code.clears s.todo = 0) : Removes s (s.push [.destroyOp op, .rspDone]) op := by
  refine ⟨rfl, rfl, rfl, rfl, fun f => ?_, fun r => ?_, fun r => ?_, fun orderly => ?_⟩
  · simp [load, Link.push, hp, ends, Code.ends, Code.weigh]
    omega
  · simp [told, Link.push, Code.eventOf, List.filterMap_cons]
  · simp [releases, Link.push, isOne]
  · refine orderly.mono (fun _ => ?_) (fun _ => id) fun _ => id
    simp [Link.push, clears, Code.clears]

/-- What `handle_rsp` does when a request is pending: it is sent again, or its callback is
called. -/
theorem handleRsp_pending (hidle : s.todo = []) {op : Op} {opcode : UInt8} {pdu : Pdu}
    {security : Int} {setOk : Bool} (h : Calm s u) (hpending : s.pendingReq = some op) :
    (retries opcode pdu security setOk = true ∧ Still s (u.handleRsp opcode pdu security setOk)) ∨
      (retries opcode pdu security setOk = false ∧ ∃ v, Removes s v op ∧
        u.handleRsp opcode pdu security setOk =
          v.runCallback op (responseOf (byteAt op.pdu 0) opcode pdu).1
            (responseOf (byteAt op.pdu 0) opcode pdu).2) := by
  have ends : tally Code.ends u.todo = 0 :=
    (h.tally_todo fun _ => Code.ends_of_idle).trans (by rw [hidle]; rfl)
  have clears : tally Code.clears u.todo = 0 :=
    (h.tally_todo fun _ => Code.clears_of_idle).trans (by rw [hidle]; rfl)
  have hp : u.pendingReq = some op := h.pendingReq_eq.trans hpending
  have read := h.trans (.record u [.answered op.owner op.pdu (opcode :: pdu)]
    (by simp [Act.idle]))
  simp only [Link.handleRsp, hp]
  split
  · rename_i hretries
    have requeued := read.still.trans (still_requeue
      (s := u.record [.answered op.owner op.pdu (opcode :: pdu)]) hp ends)
    exact .inl ⟨hretries, requeued.trans (Calm.fields ..).still⟩
  · rename_i hretries
    exact .inr ⟨Bool.eq_false_iff.mpr hretries, _,
      Removes.after_calm read (removes_pending hp ends clears), rfl⟩

/-- `can_read_data` has read a PDU. -/
theorem calm_received (s : Link) (bytes : Pdu) :
    Calm s { (s.record [.received bytes]).push [.attUnref] with attRef := s.attRef + 1 } :=
  ((Calm.record s _ (by simp [Act.idle])).trans (.push _ _ (by simp [Code.idle]))).trans
    (.fields ..)

/-- `can_read_data` of a response. -/
theorem canReadData_rsp {opcode : UInt8} (type : getOpType opcode = .rsp) (s : Link) (pdu : Pdu)
    (security : Int) (setOk : Bool) :
    s.canReadData (opcode :: pdu) security setOk =
      handleRsp { (s.record [.received (opcode :: pdu)]).push [.attUnref] with
        attRef := s.attRef + 1 } opcode pdu security setOk := by
  simp only [canReadData, handlePdu, type]

/-- `can_read_data` of a PDU that is no response. -/
theorem still_canReadData (s : Link) {bytes : Pdu}
    (type : bytes ≠ [] → getOpType (byteAt bytes 0) ≠ .rsp) (security : Int) (setOk : Bool) :
    Still s (s.canReadData bytes security setOk) := by
  cases bytes with
  | nil => exact .refl s
  | cons opcode pdu =>
    have type : getOpType opcode ≠ .rsp := type (List.cons_ne_nil _ _)
    have notified : ∀ (u : Link) (bytes : Pdu), Calm u (u.handleNotify bytes) := fun u bytes =>
      (Calm.push u [.notifyNext _ bytes false] (by simp [Code.idle])).trans (.fields ..)
    have read := calm_received s (opcode :: pdu)
    simp only [Link.canReadData, Link.handlePdu]
    split
    · exact absurd ‹_› type
    · exact (read.trans (.record _ _ (by simp [Act.idle]))).still
    · split
      · exact (read.trans (.record _ _ (by simp [Act.idle]))).still
      · exact (read.trans ((Calm.fields ..).trans (notified _ _))).still
    · exact (read.trans (notified _ _)).still

/-- `can_read_data` of a response when nothing is pending. -/
theorem still_canReadData_none (hpending : s.pendingReq = none) {opcode : UInt8}
    (type : getOpType opcode = .rsp) (pdu : Pdu) (security : Int) (setOk : Bool) :
    Still s (s.canReadData (opcode :: pdu) security setOk) := by
  have read := calm_received s (opcode :: pdu)
  have ended : ∀ u : Link, Calm s u →
      u.handleRsp opcode pdu security setOk = u.record [.ioShutdown] := fun u h => by
    simp only [handleRsp, h.pendingReq_eq.trans hpending]
  rw [canReadData_rsp type, ended _ read]
  exact (read.trans (.record _ _ (by simp [Act.idle]))).still

/-- `can_read_data` -/
theorem effect_canRead (hidle : s.todo = []) (attached : s.attached = true) {bytes : Pdu}
    (hlength : bytes.length ≤ s.mtu.buflen) (security : Int) (setOk : Bool) :
    Effect s (s.canReadData bytes security setOk) (.canRead bytes security setOk) := by
  by_cases type : bytes ≠ [] → getOpType (byteAt bytes 0) ≠ .rsp
  · exact .still (still_canReadData s type security setOk)
  · rw [Classical.not_imp, not_not] at type
    obtain ⟨hne, type⟩ := type
    obtain ⟨opcode, pdu, rfl⟩ := List.exists_cons_of_ne_nil hne
    have type : getOpType opcode = .rsp := type
    cases hpending : s.pendingReq with
    | none => exact .still (still_canReadData_none hpending type pdu security setOk)
    | some op =>
      rw [canReadData_rsp type]
      rcases handleRsp_pending hidle (calm_received s (opcode :: pdu)) hpending with ⟨-, still⟩ |
        ⟨hretries, v, removes, heq⟩
      · exact .still still
      · rw [heq]
        cases htask : op.task with
        | none =>
          rw [still_runCallback _ htask]
          exact .still (removes.still htask)
        | some task =>
          have reacts := reacts_runCallback v htask
            (responseOf (byteAt op.pdu 0) opcode pdu).1 (responseOf (byteAt op.pdu 0) opcode pdu).2
          have source : TurnSource s (.canRead (opcode :: pdu) security setOk) task _ :=
            .answered rfl hne hpending htask attached hlength hretries
          rw [removes.mtu_eq] at reacts
          rw [reactTo, ← pdu_of_task htask] at source
          exact .reacted removes htask source reacts

/-- `timeout_cb` -/
theorem effect_timeout {op : Op} (hidle : s.todo = []) (hp : s.pendingReq = some op) :
    Effect s (s.timeoutCb op) .timeout := by
  have removes : Removes s { s with pendingReq := none } op := by
    refine ⟨rfl, rfl, rfl, rfl, fun f => ?_, fun _ => rfl, fun _ => rfl, fun orderly => ?_⟩
    · simp only [load, hp, hidle, Option.toList_some, Option.toList_none, tally_cons, tally_nil,
        if_true]
      omega
    · exact orderly.mono id (fun o ho => List.mem_append_right _ ho) fun _ => id
  exact effect_failed (removes.before_calm (.push _ [.destroyOp op, .timeoutDone]
    (by simp [Code.idle]))) (.timedOut hp)

/-- **What a step does to the operations.** Every step does nothing to them, or starts one, or has
the callback of one called, or loses requests in the teardown. -/
theorem effect_of_step {label : Label} (orderly : s.Orderly) (h : s.step label = some t) :
    Effect s t label := by
  cases label with
  | call call =>
    obtain ⟨-, -, -, rfl⟩ := step_call h
    exact .started rfl (sends_call s call)
  | listen =>
    obtain ⟨-, -, rfl⟩ := step_listen h
    simp only [Link.listen]
    split <;> exact .still (Calm.fields ..).still
  | drop =>
    obtain ⟨-, -, rfl⟩ := step_drop h
    have pushed := Calm.push s [.attribUnref] (by simp [Code.idle])
    exact .still (pushed.trans (.fields ..)).still
  | ret =>
    obtain ⟨todo, htodo, rfl⟩ := step_ret h
    exact .still (.pop htodo rfl)
  | resume =>
    obtain ⟨code, todo, htodo, -, rfl⟩ := step_resume h
    exact effect_of_resume orderly htodo
  | canWrite ret =>
    obtain ⟨⟨hidle, -⟩, -, rfl⟩ := step_canWrite h
    exact effect_canWrite orderly hidle ret
  | canRead bytes security setOk =>
    obtain ⟨⟨hidle, attached⟩, hlength, rfl⟩ := step_canRead h
    exact effect_canRead hidle attached hlength security setOk
  | hup =>
    obtain ⟨⟨hidle, -⟩, rfl⟩ := step_hup h
    exact .still (.disconnectCb hidle)
  | timeout =>
    obtain ⟨op, hp, ⟨hidle, -⟩, rfl⟩ := step_timeout h
    exact effect_timeout hidle hp

/-- The calls that a step makes. -/
def Label.calls : Label → List Call
  | .call c => [c]
  | _ => []

/-- Every step has the calls in the log that it makes, and names them. -/
theorem Effect.calls_eq {label : Label} (effect : Effect s t label)
    (hstep : s.step label = some t) :
    t.calls = s.calls ++ label.calls ∧ t.nextOwner = s.nextOwner + label.calls.length ∧
      t.mtu = s.mtu := by
  by_cases hcall : ∃ call, label = .call call
  · obtain ⟨call, rfl⟩ := hcall
    obtain ⟨-, -, -, rfl⟩ := step_call hstep
    have sends := sends_call s call
    refine ⟨sends.calls_eq.trans ?_, sends.nextOwner_eq, sends.mtu_eq⟩
    simp [calls, named, Link.record, Act.call, Label.calls]
  · have hnil : label.calls = [] := by
      cases label with
      | call call => exact absurd ⟨call, rfl⟩ hcall
      | _ => rfl
    rw [hnil, List.append_nil]
    cases effect with
    | still still => exact ⟨still.calls_eq, still.nextOwner_eq, still.mtu_eq⟩
    | started hlabel => exact absurd ⟨_, hlabel⟩ hcall
    | reacted removes _ _ reacts =>
      exact ⟨reacts.calls_eq.trans removes.calls_eq, reacts.nextOwner_eq.trans removes.nextOwner_eq,
        reacts.mtu_eq.trans removes.mtu_eq⟩
    | lost _ _ removed => exact ⟨removed.calls_eq, removed.nextOwner_eq, removed.mtu_eq⟩

theorem Effect.orderly {label : Label} (effect : Effect s t label) (orderly : s.Orderly) :
    t.Orderly := by
  cases effect with
  | still still => exact still.orderly orderly
  | started _ sends => exact sends.orderly (orderly.mono id (fun _ => id) fun _ => id)
  | reacted removes _ _ reacts => exact reacts.orderly (removes.orderly orderly)
  | lost _ _ removed => exact removed.orderly orderly

end Link

end Libble

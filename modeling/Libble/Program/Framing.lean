import Libble.Device.Handle
import Libble.Link.Machine

/-!
# Running code on top of suspended code

The functions of the library put code in front of the code that is still to be run, and do not look
at that code. So what they do on top of suspended code is what they do without it. This is what
lets the code of the handle and of several connections share one stack.

## Main definitions

* `Device.atop`, `Link.atop`: the state with code suspended below its own.

## Main results

* `Device.resume_atop`, `Device.call_atop`: the code of the handle.
* `Link.run_atop`, `Link.call_atop`, `Link.listen_atop`: the code of a connection.
-/

namespace Libble

open Att Gatt

namespace Device

variable (d : Device) (rest : List DevTodo)

/-- The handle with code suspended below its own. -/
def atop : Device := { d with todo := d.todo ++ rest }

theorem record_atop (acts : List Act) : (d.atop rest).record acts = (d.record acts).atop rest := rfl

theorem push_atop (codes : List DevTodo) :
    (d.atop rest).push codes = (d.push codes).atop rest := by
  simp only [push, atop, List.append_assoc]

theorem emit_atop (event : Event) : (d.atop rest).emit event = (d.emit event).atop rest := by
  have same : (d.atop rest).evh = d.evh := rfl
  rw [emit, emit, same, record_atop, push_atop, apply_ite (atop · rest)]

theorem lbleConnect_atop (failure : Option String) :
    (d.atop rest).lbleConnect failure = (d.lbleConnect failure).atop rest := by
  have same : (d.atop rest).connState = d.connState := rfl
  rw [lbleConnect, lbleConnect, same]
  split <;> rfl

theorem lbleDisconnect_atop : (d.atop rest).lbleDisconnect = (d.lbleDisconnect).atop rest := by
  obtain ⟨connState⟩ := d
  cases connState <;> rfl

theorem call_atop (call : DevCall) : (d.atop rest).call call = (d.call call).atop rest := by
  cases call with
  | connect failure => exact d.lbleConnect_atop rest failure
  | disconnect => exact d.lbleDisconnect_atop rest
  | setEventHandler evh => rfl

theorem resume_atop (code : DevTodo) :
    (d.atop rest).resume code = (d.resume code).atop rest := by
  cases code with
  | emit event => exact d.emit_atop rest event
  | emitState => exact d.emit_atop rest _
  | gattConnect k failure => cases failure <;> rfl
  | _ => rfl

end Device

namespace Link

variable (s : Link) (rest : List Code)

/-- The connection with code suspended below its own. -/
def atop : Link := { s with todo := s.todo ++ rest }

theorem push_atop (codes : List Code) :
    (s.atop rest).push codes = (s.push codes).atop rest := by
  simp only [push, atop, List.append_assoc]

variable {s rest} in
/-- Both ways to go on are on top of the same code. -/
theorem ite_atop {c : Prop} [Decidable c] {a b t : Link} (ha : a = s.atop rest)
    (hb : b = t.atop rest) : (if c then a else b) = (if c then s else t).atop rest := by
  rw [ha, hb, apply_ite (atop · rest)]

theorem mtu_atop : (s.atop rest).mtu = s.mtu := rfl

theorem attached_atop : (s.atop rest).attached = s.attached := rfl

theorem wakeupWriter_atop : (s.atop rest).wakeupWriter = s.wakeupWriter.atop rest := by
  rw [wakeupWriter, wakeupWriter, attached_atop]
  split <;> rfl

theorem btAttSend_atop (pdu : Pdu) (cb : Option Cb) :
    (s.atop rest).btAttSend pdu cb = (s.btAttSend pdu cb).atop rest := by
  have woken : ∀ reqQueue writeQueue : List Op,
      wakeupWriter { s.atop rest with reqQueue := reqQueue, writeQueue := writeQueue } =
        (wakeupWriter { s with reqQueue := reqQueue, writeQueue := writeQueue }).atop rest :=
    fun reqQueue writeQueue =>
      wakeupWriter_atop { s with reqQueue := reqQueue, writeQueue := writeQueue } rest
  by_cases accepts : s.Accepts pdu
  · have accepts' : (s.atop rest).Accepts pdu := accepts
    rw [btAttSend, btAttSend, if_pos accepts, if_pos accepts']
    dsimp only
    split
    · exact woken _ _
    · exact woken _ _
  · have refuses : ¬ (s.atop rest).Accepts pdu := accepts
    rw [btAttSend, btAttSend, if_neg accepts, if_neg refuses]

theorem gAttribSend_atop (owner : Nat) (proc : Proc) (pdu : Pdu) :
    (s.atop rest).gAttribSend owner proc pdu = (s.gAttribSend owner proc pdu).atop rest :=
  btAttSend_atop (use { (s.use .attrib).alloc (.callbacks s.nextAddr) with
    callbacks := ⟨s.nextAddr, .result owner proc⟩ :: s.callbacks
    nextAddr := s.nextAddr + 1 } .att) rest pdu _

theorem useResult_atop (addr owner : Nat) (proc : Proc) :
    (s.atop rest).useResult addr owner proc = (s.useResult addr owner proc).atop rest := by
  rw [useResult, useResult]
  split <;> rfl

theorem runCallback_atop (op : Op) (opcode : UInt8) (pdu : Pdu) :
    (s.atop rest).runCallback op opcode pdu = (s.runCallback op opcode pdu).atop rest := by
  rw [runCallback, runCallback]
  split
  · simp only [useResult_atop, mtu_atop, gAttribSend_atop, push_atop]
    split
    · split <;> rfl
    · rfl
  · rfl

theorem notifyEnd_atop (pdu : Pdu) (found : Bool) :
    (s.atop rest).notifyEnd pdu found = (s.notifyEnd pdu found).atop rest := by
  simp only [notifyEnd, respondNotSupported, btAttSend_atop]
  split
  · exact push_atop _ rest _
  · exact push_atop _ rest _

theorem notifyNext_atop (entry : Option Nat) (pdu : Pdu) (found : Bool) :
    (s.atop rest).notifyNext entry pdu found = (s.notifyNext entry pdu found).atop rest := by
  have same : (s.atop rest).notifyList = s.notifyList := rfl
  simp only [notifyNext, notifyEnd_atop, same]
  split
  · rfl
  · split
    · rfl
    · split
      · rw [push_atop]
        exact push_atop (use _ _) rest _
      · exact push_atop _ rest _

theorem callbacksRemove_atop (cb : Cb) :
    (s.atop rest).callbacksRemove cb = (s.callbacksRemove cb).atop rest := by
  simp only [callbacksRemove]
  refine ite_atop ?_ rfl
  have pushed := push_atop ((s.use (.callbacks cb.addr)).use .attrib) rest (callbacksDestroy cb)
  exact congrArg (fun t : Link => { t with callbacks := s.callbacks.erase cb }) pushed

theorem recordUnref_atop (r : Nat) :
    (s.atop rest).recordUnref r = (s.recordUnref r).atop rest := by
  simp only [recordUnref]
  exact ite_atop rfl rfl

theorem attribUnref_atop : (s.atop rest).attribUnref = s.attribUnref.atop rest := by
  simp only [attribUnref]
  exact ite_atop rfl rfl

theorem attUnref_atop : (s.atop rest).attUnref = s.attUnref.atop rest := by
  simp only [attUnref]
  exact ite_atop rfl rfl

theorem cancelPending_atop : (s.atop rest).cancelPending = s.cancelPending.atop rest := by
  have attached : (s.atop rest).attached = s.attached := rfl
  have same : (s.atop rest).pendingReq = s.pendingReq := rfl
  rw [cancelPending, cancelPending, attached, same]
  split
  · simp only [push_atop]
    rfl
  · rfl

theorem attFree_atop : (s.atop rest).attFree = s.attFree.atop rest := by
  have same : (s.atop rest).pendingReq = s.pendingReq := rfl
  simp only [attFree, attached_atop, same, push_atop]
  split <;> rfl

/-- What suspended code does on top of other code. -/
theorem run_atop (code : Code) : (s.atop rest).run code = (s.run code).atop rest := by
  cases code with
  | emit | rspDone | timeoutDone | handler | freeRequest | discDone | chanFree | callbacksFree |
    recordFree | attribFree => rfl
  | destroyOp | discPending | callbacksDestroy | unregisterAll | cancelAll =>
    simp only [run, push, atop, List.append_assoc]
  | discOp op =>
    simp only [run, push_atop]
    exact runCallback_atop _ rest op _ _
  | notifyNext entry pdu found => exact s.notifyNext_atop rest entry pdu found
  | notifyCheck entry pdu =>
    have same : (s.atop rest).notifyList = s.notifyList := rfl
    simp only [run, same, notifyEnd_atop, notifyNext_atop]
    split <;> rfl
  | callbacksRemove cb => exact s.callbacksRemove_atop rest cb
  | recordUnref r => exact s.recordUnref_atop rest r
  | attribUnref => exact s.attribUnref_atop rest
  | attUnref => exact s.attUnref_atop rest
  | cancelPending => exact s.cancelPending_atop rest
  | attFree => exact s.attFree_atop rest

/-! ### The calls of the application -/

theorem gattReadChar_atop (owner : Nat) (proc : Proc) (pdu : Pdu) :
    (s.atop rest).gattReadChar owner proc pdu = (s.gattReadChar owner proc pdu).atop rest := by
  have made : (s.atop rest).makeRecord owner = (s.makeRecord owner).atop rest := rfl
  have same : ((s.makeRecord owner).atop rest).Accepts pdu = (s.makeRecord owner).Accepts pdu := rfl
  by_cases accepts : (s.makeRecord owner).Accepts pdu
  · have accepts' : ((s.makeRecord owner).atop rest).Accepts pdu := accepts
    simp only [gattReadChar, made, if_pos accepts, if_pos accepts', gAttribSend_atop]
    rfl
  · have refuses : ¬ ((s.makeRecord owner).atop rest).Accepts pdu := accepts
    simp only [gattReadChar, made, if_neg accepts, if_neg refuses, gAttribSend_atop, push_atop]

theorem alloc_atop (o : Obj) : (s.atop rest).alloc o = (s.alloc o).atop rest := rfl

theorem call_atop (call : Call) : (s.atop rest).call call = (s.call call).atop rest := by
  have named : ∀ (acts : List Act) (owner : Nat),
      ({ (s.atop rest).record acts with nextOwner := owner } : Link) =
        atop { s.record acts with nextOwner := owner } rest := fun _ _ => rfl
  have same : (s.atop rest).nextOwner = s.nextOwner := rfl
  have recorded : ∀ (t : Link) (owner : Nat), ((t.atop rest).makeRecord owner).recordInc owner =
      ((t.makeRecord owner).recordInc owner).atop rest := fun _ _ => rfl
  cases call with
  | request handle =>
    simp only [Link.call, mtu_atop, same, named, alloc_atop, gattReadChar_atop]
  | write handle data => simp only [Link.call, mtu_atop, same, named, gAttribSend_atop]
  | discoverHand | discoverChar =>
    simp only [Link.call, mtu_atop, same, named, gattDiscover, recorded, gAttribSend_atop]

theorem listen_atop : (s.atop rest).listen = s.listen.atop rest := by
  have same : ((s.atop rest).alloc (.callbacks s.nextAddr)).attached = s.attached := rfl
  simp only [listen]
  exact ite_atop rfl rfl

end Link

end Libble

import Libble.Link.Teardown

/-!
# Who removes the records

A record lives while an `attrib_callbacks` refers to it, and an `attrib_callbacks` is removed with
the operation that it was made for. A request that is refused has no operation; so this file shows
that an `attrib_callbacks` with a record is held by an operation that waits, or by code that
removes it, as long as the calls that make records are made on an attached channel. The operations
of a channel that is lost are all ended, so no record is left when the library code has returned.

## Main definitions

* `Cb.burden`, `Link.carried`: the records that are referred to, and those that will be removed.
* `Link.Emptied`: nothing waits on a channel that was lost.
* `Link.Custody`: the invariant; `Link.Carries`: what code does to it.

## Main results

* `Link.Custody.step`: every step keeps it, except that the handle gives its reference back.
* `Link.Custody.attribRef_eq`: the handle has the only reference when the channel was lost.
-/

namespace Libble

open Att Gatt

namespace Link

variable {s t u : Link} {label : Label} {codes rest : List Code} {code : Code} {cb : Cb}
  {owner : Nat} {proc : Proc} {pdu : Pdu}

/-! ### What is counted -/

/-- The `attrib_callbacks` has a record. -/
def Cb.burden (cb : Cb) : Nat := if cb.record = none then 0 else 1

/-- The callback of the operation has a record. -/
def Op.burden (op : Op) : Nat := tally Cb.burden op.cb.toList

/-- The code will remove an `attrib_callbacks` with a record. -/
def Code.burden : Code → Nat
  | destroyOp op | discOp op => op.burden
  | callbacksRemove cb => cb.burden
  | _ => 0

/-- How many records the operations and the code that is still to be run will remove. -/
def carried (s : Link) : Nat :=
  tally Op.burden s.reqQueue +
    (if tally Code.ends s.todo = 0 then tally Op.burden s.pendingReq.toList else 0) +
    tally Code.burden s.todo

/-- Nothing waits on a channel that was lost, or the pending request is about to be cleared. -/
def Emptied (s : Link) : Prop :=
  s.attached = false →
    s.reqQueue = [] ∧ (s.pendingReq = none ∨ 0 < tally Code.clears s.todo)

/-- Whoever refers to a record will be removed, and nothing waits on a channel that was lost. -/
structure Custody (s : Link) : Prop where
  orderly : s.Orderly
  covered : tally Cb.burden s.callbacks ≤ s.carried
  emptied : s.Emptied

theorem burden_destroyOp (op : Op) :
    tally Code.burden (op.cb.toList.map .callbacksRemove) = op.burden := tally_map ..

theorem burden_of_idle (h : code.idle = true) (destroys : ∀ op, code ≠ .destroyOp op)
    (removes : ∀ cb, code ≠ .callbacksRemove cb) : code.burden = 0 := by
  cases code with
  | destroyOp op => exact absurd rfl (destroys op)
  | callbacksRemove cb => exact absurd rfl (removes cb)
  | discOp op => cases h
  | _ => rfl

/-! ### The list `callbacks` -/

@[simp] theorem callbacks_wakeupWriter (s : Link) : s.wakeupWriter.callbacks = s.callbacks := by
  rw [wakeupWriter]
  split <;> rfl

@[simp] theorem callbacks_btAttSend (s : Link) (pdu : Pdu) (cb : Option Cb) :
    (s.btAttSend pdu cb).callbacks = s.callbacks := by
  simp only [btAttSend]
  split_ifs
  · exact callbacks_wakeupWriter _
  · exact callbacks_wakeupWriter _
  · rfl

@[simp] theorem callbacks_notifyEnd (s : Link) (pdu : Pdu) (found : Bool) :
    (s.notifyEnd pdu found).callbacks = s.callbacks := by
  simp only [notifyEnd]
  split
  · exact callbacks_btAttSend ..
  · rfl

@[simp] theorem callbacks_notifyNext (s : Link) (entry : Option Nat) (pdu : Pdu) (found : Bool) :
    (s.notifyNext entry pdu found).callbacks = s.callbacks := by
  simp only [notifyNext]
  split
  · exact callbacks_notifyEnd ..
  · split
    · exact callbacks_notifyEnd ..
    · split <;> rfl

/-- Only `attrib_callbacks_remove` and `g_attrib_unref` take something from the list. -/
theorem callbacks_run (s : Link) (idle : code.idle = true) (standing : code.standing = true)
    (removes : ∀ cb, code ≠ .callbacksRemove cb) : (s.run code).callbacks = s.callbacks := by
  cases code with
  | callbacksRemove cb => exact absurd rfl (removes cb)
  | notifyNext entry pdu found => exact callbacks_notifyNext ..
  | notifyCheck entry pdu =>
    simp only [run]
    split
    · exact callbacks_notifyEnd ..
    · exact callbacks_notifyNext ..
  | recordUnref | attribUnref | attUnref =>
    simp only [run, recordUnref, attribUnref, attUnref]
    split <;> rfl
  | callbacksDestroy | cancelPending | attFree => cases standing
  | discOp => cases idle
  | _ => rfl

/-! ### What keeps the records covered -/

/-- The records stay covered, and a channel that was lost stays quiet. -/
structure Carries (s t : Link) : Prop where
  carried_le : tally Cb.burden t.callbacks + s.carried ≤ tally Cb.burden s.callbacks + t.carried
  emptied : s.Emptied → t.Emptied

namespace Carries

theorem trans (h : Carries s t) (h' : Carries t u) : Carries s u := by
  have hle := h.carried_le
  have hle' := h'.carried_le
  exact ⟨by omega, h'.emptied ∘ h.emptied⟩

/-- Code is pushed that does not clear the pending request. -/
theorem pushed (callbacks : t.callbacks = s.callbacks) (attached : t.attached = s.attached)
    (reqQueue : t.reqQueue = s.reqQueue) (pendingReq : t.pendingReq = s.pendingReq)
    (codes : List Code) (todo : t.todo = codes ++ s.todo) (ends : ∀ c ∈ codes, c.ends = 0) :
    Carries s t := by
  refine ⟨?_, fun emptied detached => ?_⟩
  · rw [carried, carried, callbacks, reqQueue, pendingReq, todo, tally_append, tally_append,
      tally_eq_zero ends, Nat.zero_add]
    omega
  · obtain ⟨empty, cleared⟩ := emptied (attached ▸ detached)
    rw [reqQueue, pendingReq, todo, tally_append]
    exact ⟨empty, cleared.imp_right fun pos => by omega⟩

/-- Nothing changes that is counted. -/
theorem of_eq (callbacks : t.callbacks = s.callbacks) (attached : t.attached = s.attached)
    (reqQueue : t.reqQueue = s.reqQueue) (pendingReq : t.pendingReq = s.pendingReq)
    (todo : t.todo = s.todo) : Carries s t :=
  pushed callbacks attached reqQueue pendingReq [] todo (List.forall_mem_nil _)

theorem of_calm (h : Calm s t) (callbacks : t.callbacks = s.callbacks) : Carries s t := by
  obtain ⟨codes, todo, idle⟩ := h.todo
  exact pushed callbacks h.attached_eq h.reqQueue_eq h.pendingReq_eq codes todo
    fun c hc => Code.ends_of_idle (idle c hc)

/-- Code is taken from the stack, and what it removes is removed or handed on. -/
theorem exchanged (codes : List Code) (htodo : s.todo = code :: rest)
    (todo : t.todo = codes ++ rest) (attached : t.attached = s.attached)
    (reqQueue : t.reqQueue = s.reqQueue) (pendingReq : t.pendingReq = s.pendingReq)
    (clears : code.clears = 0)
    (ends : ∀ c ∈ codes, c.ends = 0)
    (burden : tally Cb.burden t.callbacks + code.burden ≤
      tally Cb.burden s.callbacks + tally Code.burden codes) : Carries s t := by
  have hends : code.ends = 0 := Nat.le_zero.mp (clears ▸ Code.ends_le_clears code)
  refine ⟨?_, fun emptied detached => ?_⟩
  · rw [carried, carried, htodo, todo, reqQueue, pendingReq, tally_cons, tally_cons, tally_append,
      tally_append, hends, tally_eq_zero ends]
    omega
  · obtain ⟨empty, cleared⟩ := emptied (attached ▸ detached)
    rw [htodo, tally_cons, clears, Nat.zero_add] at cleared
    rw [reqQueue, pendingReq, todo, tally_append]
    exact ⟨empty, cleared.imp_right fun pos => by omega⟩

/-- Code is taken from the stack that removes nothing. -/
theorem pop (htodo : s.todo = code :: rest) (idle : code.idle = true)
    (destroys : ∀ op, code ≠ .destroyOp op) (removes : ∀ cb, code ≠ .callbacksRemove cb) :
    Carries s { s with todo := rest } := by
  refine exchanged [] htodo rfl rfl rfl rfl (Code.clears_of_idle idle)
    (List.forall_mem_nil _) ?_
  rw [burden_of_idle idle destroys removes]
  exact Nat.le_refl _

/-- A request is sent: it is accepted, or its `attrib_callbacks` has no record. -/
theorem gAttribSend (isRequest : IsRequest s.mtu.buflen pdu)
    (accepted : s.attached = true ∨ proc.hasRecord = false) :
    Carries s (s.gAttribSend owner proc pdu) := by
  cases attached : s.attached with
  | true =>
    rw [gAttribSend_attached attached isRequest]
    refine ⟨?_, fun _ detached => absurd (attached.symm.trans detached) (by simp)⟩
    simp only [carried, tally_cons, tally_append, tally_nil, Op.burden, Option.toList_some]
    omega
  | false =>
    rw [gAttribSend_detached attached]
    have none : Cb.burden ⟨s.nextAddr, .result owner proc⟩ = 0 := by
      have hasRecord := accepted.resolve_left (by rw [attached]; simp)
      simp [Cb.burden, Cb.record, hasRecord]
    refine ⟨?_, id⟩
    simp only [carried, tally_cons, none, Nat.zero_add]
    exact Nat.le_refl _

/-- The callback of an operation is called, while there is a channel or with an error. -/
theorem runCallback (op : Op) {opcode : UInt8}
    (h : s.attached = true ∨ statusOf opcode pdu ≠ 0) :
    Carries s (s.runCallback op opcode pdu) := by
  have called := calledBack s op opcode pdu
  generalize s.runCallback op opcode pdu = t at called
  cases called with
  | nobody => exact of_eq rfl rfl rfl rfl rfl
  | @goesOn addr owner proc next req hcb hreact continues =>
    obtain ⟨faults, huse⟩ := useResult_eq (s := s) addr owner proc
    have attached : s.attached = true := h.resolve_right fun hne => by
      obtain ⟨events, hevents⟩ := react_of_error hne
      exact absurd (hreact.symm.trans hevents) (by simp)
    have used : Carries s (s.useResult addr owner proc) := by
      rw [huse]
      exact of_eq rfl rfl rfl rfl rfl
    have hmtu : (s.useResult addr owner proc).mtu = s.mtu := by rw [huse]
    have attached' : (s.useResult addr owner proc).attached = true := by
      rw [huse]
      exact attached
    have sent : Carries s ((s.useResult addr owner proc).gAttribSend owner next req) :=
      used.trans (gAttribSend (hmtu.symm ▸ continues.isRequest) (.inl attached'))
    dsimp only
    split
    · exact sent.trans (of_eq rfl rfl rfl rfl rfl)
    · exact sent
  | @isOver addr owner proc events hcb hreact =>
    obtain ⟨faults, huse⟩ := useResult_eq (s := s) addr owner proc
    rw [huse]
    refine pushed rfl rfl rfl rfl _ rfl fun c hc => ?_
    rcases List.mem_append.mp hc with hc | hc
    · obtain ⟨e, -, rfl⟩ := List.mem_map.mp hc
      rfl
    · split at hc
      · obtain rfl := List.mem_singleton.mp hc
        rfl
      · cases hc

end Carries

/-! ### The code that is still to be run -/

/-- The end of the pending request clears it. -/
theorem carries_pendingClear (htodo : s.todo = code :: rest) (hends : code.ends = 1) :
    Carries s { s with todo := rest, pendingReq := none } := by
  have hburden : code.burden = 0 := by
    cases code <;> first | rfl | cases hends
  refine ⟨?_, fun emptied detached => ⟨(emptied detached).1, .inl rfl⟩⟩
  have hne : ¬ tally Code.ends s.todo = 0 := by
    rw [htodo, tally_cons, hends]
    omega
  rw [carried, carried, if_neg hne, htodo, tally_cons, hburden]
  simp

/-- `disconnect_cb` gets to the pending request. -/
theorem carries_discPending (orderly : s.Orderly) (htodo : s.todo = .discPending :: rest) :
    Carries s ({ s with todo := rest }.run .discPending) := by
  have hclears : tally Code.clears rest = 0 := by
    have hle := orderly.clears_le
    rw [htodo, tally_cons, Code.clears] at hle
    omega
  have hends : tally Code.ends rest = 0 := by
    have := tally_mono (f := Code.ends) (g := Code.clears) (l := rest)
      fun c _ => Code.ends_le_clears c
    omega
  cases hp : s.pendingReq with
  | none =>
    refine ⟨?_, fun emptied detached => ⟨(emptied detached).1, .inl rfl⟩⟩
    simp [carried, htodo, run, Link.push, hp, Code.burden]
  | some op =>
    refine ⟨?_, fun emptied detached => ⟨(emptied detached).1, .inr ?_⟩⟩
    · simp [carried, htodo, run, Link.push, hp, hends, Code.ends, Code.burden]
      omega
    · simp [run, Link.push, Code.clears]

/-- `attrib_callbacks_remove` of an `attrib_callbacks` that is there. -/
theorem carries_callbacksRemove (htodo : s.todo = .callbacksRemove cb :: rest)
    (there : cb ∈ s.callbacks) : Carries s ({ s with todo := rest }.run (.callbacksRemove cb)) := by
  have hrun : { s with todo := rest }.run (.callbacksRemove cb) =
      { (({ s with todo := rest }.use (.callbacks cb.addr)).use .attrib).push
        (Link.callbacksDestroy cb) with callbacks := s.callbacks.erase cb } := if_pos there
  rw [hrun]
  refine .exchanged (Link.callbacksDestroy cb) htodo rfl rfl rfl rfl rfl
    (fun c hc => Code.ends_of_idle (Calm.callbacksDestroy cb c hc)) ?_
  have herase := tally_erase (f := Cb.burden) there
  simp only [Code.burden]
  omega

/-- The code of a procedure, and what ends the operations of a channel that was lost. -/
theorem carries_busy (orderly : s.Orderly) (htodo : s.todo = code :: rest)
    (idle : ¬ code.idle = true) : Carries s ({ s with todo := rest }.run code) := by
  cases code with
  | emit source event =>
    exact .exchanged [.handler] htodo rfl rfl rfl rfl rfl (by simp [Code.ends]) (Nat.le_refl _)
  | freeRequest owner =>
    exact .exchanged [] htodo rfl rfl rfl rfl rfl (List.forall_mem_nil _) (Nat.le_refl _)
  | rspDone =>
    have cleared := carries_pendingClear htodo rfl
    exact cleared.trans (.of_eq rfl rfl rfl rfl rfl)
  | discDone => exact carries_pendingClear htodo rfl
  | discPending => exact carries_discPending orderly htodo
  | discOp op =>
    have taken : Carries s ({ s with todo := rest }.push [.destroyOp op]) :=
      .exchanged [.destroyOp op] htodo rfl rfl rfl rfl rfl (by simp [Code.ends]) (Nat.le_refl _)
    exact taken.trans (.runCallback op (.inr (by decide)))
  | _ => exact absurd rfl idle

/-- **Suspended code keeps the records covered.** -/
theorem carries_run (alive : s.Alive) (orderly : s.Orderly) (htodo : s.todo = code :: rest) :
    Carries s ({ s with todo := rest }.run code) := by
  have standing : code.standing = true := alive.standing code (htodo ▸ List.mem_cons_self)
  by_cases idle : code.idle = true
  · by_cases destroys : ∃ op, code = .destroyOp op
    · obtain ⟨op, rfl⟩ := destroys
      refine .exchanged (op.cb.toList.map .callbacksRemove) htodo rfl rfl rfl rfl rfl
        (List.forall_mem_map.mpr fun _ _ => rfl) ?_
      rw [burden_destroyOp]
      exact Nat.le_refl _
    · by_cases removes : ∃ cb, code = .callbacksRemove cb
      · obtain ⟨cb, rfl⟩ := removes
        exact carries_callbacksRemove htodo
          ((alive.ledger htodo).mem_callbacks Ledger.holds_pos)
      · rw [not_exists] at destroys removes
        have keeps : code.loses = false := by
          cases code <;> first | rfl | cases standing
        exact (Carries.pop htodo idle destroys removes).trans
          (.of_calm (.run idle keeps) (callbacks_run _ idle standing removes))
  · exact carries_busy orderly htodo idle

/-! ### The dispatches -/

/-- An operation is taken from a queue, and destroyed or made the pending request. -/
theorem carries_picked (orderly : s.Orderly) {op : Op} (hpick : s.pickNextSendOp = some (op, u))
    (hidle : s.todo = []) : Carries s (u.push [.destroyOp op]) ∧
      (op.type = .req → Carries s { u with pendingReq := some op }) := by
  rcases pickNextSendOp_cases hpick with ⟨ops, hops, rfl⟩ | ⟨hpending, -, ops, hops, rfl⟩
  · obtain ⟨-, htype⟩ := orderly.writes op (hops ▸ List.mem_cons_self)
    exact ⟨.pushed rfl rfl rfl rfl [.destroyOp op] rfl (by simp [Code.ends]),
      fun h => absurd h htype⟩
  · have emptied : ∀ {v : Link}, v.attached = s.attached → s.Emptied → v.Emptied := by
      intro v hattached emptied detached
      have empty := (emptied (hattached ▸ detached)).1
      rw [hops] at empty
      cases empty
    refine ⟨⟨?_, emptied rfl⟩, fun _ => ⟨?_, emptied rfl⟩⟩
    · simp [carried, hops, hpending, hidle, Link.push, Code.ends, Code.burden]
      omega
    · simp [carried, hops, hpending, hidle]
      omega

/-- `can_write_data` -/
theorem carries_canWriteData (orderly : s.Orderly) (hidle : s.todo = []) (ret : Int) :
    Carries s (s.canWriteData ret) := by
  simp only [canWriteData]
  split
  · exact .of_eq rfl rfl rfl rfl rfl
  · rename_i op u hpick
    obtain ⟨destroyed, pended⟩ := carries_picked orderly hpick hidle
    -- what is written is recorded in the log, which is not counted
    have recorded : ∀ v : Link, (∃ acts, v = u.record acts) → Carries s (v.push [.destroyOp op]) ∧
        (op.type = .req → Carries s { v with pendingReq := some op }) := by
      rintro v ⟨acts, rfl⟩
      exact ⟨destroyed.trans (.of_eq rfl rfl rfl rfl rfl),
        fun htype => (pended htype).trans (.of_eq rfl rfl rfl rfl rfl)⟩
    split
    · exact destroyed.trans (.runCallback op (.inr (by decide)))
    · obtain ⟨destroyed, pended⟩ := recorded
        (if 0 < ret then u.record [.sent op.owner op.pdu] else u) (by
          split
          · exact ⟨_, rfl⟩
          · exact ⟨[], by simp [Link.record]⟩)
      split
      · exact pended ‹_›
      · exact destroyed.trans (.of_eq rfl rfl rfl rfl rfl)
      · exact destroyed

/-- `handle_rsp` -/
theorem carries_handleRsp (attached : s.attached = true) (ends : tally Code.ends s.todo = 0)
    (opcode : UInt8) (pdu : Pdu) (security : Int) (setOk : Bool) :
    Carries s (s.handleRsp opcode pdu security setOk) := by
  have noisy : ∀ {v : Link}, v.attached = s.attached → s.Emptied → v.Emptied :=
    fun hattached _ detached =>
      absurd (attached.symm.trans (hattached.symm.trans detached)) (by simp)
  simp only [handleRsp]
  split
  · exact .of_eq rfl rfl rfl rfl rfl
  · rename_i op hp
    split
    · refine ⟨?_, noisy rfl⟩
      simp [carried, wakeupChanWriter, Link.record, hp, ends]
      omega
    · have ended : Carries s ((s.record [.answered op.owner op.pdu (opcode :: pdu)]).push
          [.destroyOp op, .rspDone]) := by
        refine ⟨?_, noisy rfl⟩
        simp [carried, Link.push, Link.record, hp, ends, Code.ends, Code.burden]
        omega
      exact ended.trans (.runCallback op (.inl attached))

/-- `can_read_data` -/
theorem carries_canReadData (attached : s.attached = true) (hidle : s.todo = []) (bytes : Pdu)
    (security : Int) (setOk : Bool) : Carries s (s.canReadData bytes security setOk) := by
  cases bytes with
  | nil => exact .of_eq rfl rfl rfl rfl rfl
  | cons opcode pdu =>
    have read : Carries s { (s.record [.received (opcode :: pdu)]).push [.attUnref] with
        attRef := s.attRef + 1 } := .of_calm (calm_received s (opcode :: pdu)) rfl
    simp only [canReadData, handlePdu]
    split
    · refine read.trans (carries_handleRsp (s := { (s.record _).push [.attUnref] with attRef := _ })
        attached ?_ _ _ _ _)
      simp [push, record, hidle, Code.ends]
    · exact read.trans (.of_eq rfl rfl rfl rfl rfl)
    · split
      · exact read.trans (.of_eq rfl rfl rfl rfl rfl)
      · exact read.trans (.pushed rfl rfl rfl rfl [.notifyNext _ _ _] rfl (by simp [Code.ends]))
    · exact read.trans (.pushed rfl rfl rfl rfl [.notifyNext _ _ _] rfl (by simp [Code.ends]))

/-- `disconnect_cb` -/
theorem carries_disconnectCb (hidle : s.todo = []) : Carries s s.disconnectCb := by
  have hburden : ∀ ops : List Op, tally Code.burden (ops.map .discOp) = tally Op.burden ops :=
    fun ops => tally_map ..
  have hends : ∀ ops : List Op, tally Code.ends (ops.map .discOp) = 0 :=
    fun ops => (tally_map ..).trans (tally_eq_zero fun _ _ => rfl)
  refine ⟨?_, fun _ _ => ⟨rfl, .inr ?_⟩⟩
  · simp only [carried, disconnectCb, Link.push, hidle, List.append_nil, tally_append, hburden,
      hends, tally_cons, tally_nil, Code.ends, Code.burden, if_true]
    omega
  · simp only [disconnectCb, Link.push, tally_append, tally_cons, Code.clears]
    omega

/-- `timeout_cb` -/
theorem carries_timeoutCb {op : Op} (attached : s.attached = true) (hidle : s.todo = [])
    (hp : s.pendingReq = some op) : Carries s (s.timeoutCb op) := by
  have ended : Carries s ({ s with pendingReq := none }.push [.destroyOp op, .timeoutDone]) := by
    refine ⟨?_, fun _ detached => absurd (attached.symm.trans detached) (by simp)⟩
    simp [carried, Link.push, hidle, hp, Code.ends, Code.burden]
  exact ended.trans (.runCallback op (.inl attached))

/-! ### The calls -/

theorem hasRecord_write (buflen : Nat) (handle : UInt16) (data : List UInt8) :
    ((Call.write handle data).begin buflen).2.hasRecord = false := by
  simp only [Call.begin, gattWriteChar]
  split
  · rfl
  · rfl

/-- A call is made on an attached channel, or it makes no record. -/
theorem carries_call {call : Call}
    (accepted : s.attached = true ∨ ∃ handle data, call = .write handle data) :
    Carries s (s.call call) := by
  have isRequest := isRequest_begin s.mtu.le_buflen call
  have prepared : Carries s (s.prepared call) := by
    cases call with
    | write handle data => exact .of_eq rfl rfl rfl rfl rfl
    | request handle => exact .of_eq rfl rfl rfl rfl rfl
    | discoverHand | discoverChar => exact .of_eq rfl rfl rfl rfl rfl
  have same : (s.prepared call).attached = s.attached ∧ (s.prepared call).mtu = s.mtu := by
    cases call <;> exact ⟨rfl, rfl⟩
  rw [call_eq (accepted.imp_right fun ⟨handle, data, heq⟩ _ => by simp [heq])]
  refine prepared.trans (.gAttribSend (same.2 ▸ isRequest) ?_)
  rw [same.1]
  refine accepted.imp_right fun ⟨handle, data, heq⟩ => ?_
  subst heq
  exact hasRecord_write s.mtu.buflen handle data

theorem carries_listen (s : Link) : Carries s s.listen := by
  have none : Cb.burden ⟨s.nextAddr, .notify⟩ = 0 := rfl
  have made : ∀ notifyList, Carries s { s.alloc (.callbacks s.nextAddr) with
      callbacks := ⟨s.nextAddr, .notify⟩ :: s.callbacks
      nextAddr := s.nextAddr + 1
      notifyList := notifyList } := by
    refine fun notifyList => ⟨?_, id⟩
    simp only [carried, alloc, tally_cons, none, Nat.zero_add]
    exact Nat.le_refl _
  simp only [listen]
  split
  · exact made _
  · exact made s.notifyList

/-! ### Runs -/

namespace Custody

theorem new (mtu : Mtu) : (Link.new mtu).Custody := ⟨.new mtu, Nat.zero_le _, nofun⟩

/-- **Every step keeps custody of the records** while the handle has its reference and the calls
that make records are made on an attached channel. -/
theorem step (h : s.Custody) (alive : s.Alive) (hstep : s.step label = some t)
    (hdrop : label ≠ .drop) (accepted : ∀ call, label = .call call →
      s.attached = true ∨ ∃ handle data, call = .write handle data) : t.Custody := by
  have carries : Carries s t := by
    cases label with
    | call call =>
      obtain ⟨-, -, -, rfl⟩ := step_call hstep
      exact carries_call (accepted call rfl)
    | listen =>
      obtain ⟨-, -, rfl⟩ := step_listen hstep
      exact carries_listen s
    | drop => exact absurd rfl hdrop
    | ret =>
      obtain ⟨todo, htodo, rfl⟩ := step_ret hstep
      exact .pop htodo rfl (by simp) (by simp)
    | resume =>
      obtain ⟨code, todo, htodo, -, rfl⟩ := step_resume hstep
      exact carries_run alive h.orderly htodo
    | canWrite ret =>
      obtain ⟨⟨hidle, -⟩, -, rfl⟩ := step_canWrite hstep
      exact carries_canWriteData h.orderly hidle ret
    | canRead bytes security setOk =>
      obtain ⟨⟨hidle, attached⟩, -, rfl⟩ := step_canRead hstep
      exact carries_canReadData attached hidle bytes security setOk
    | hup =>
      obtain ⟨⟨hidle, -⟩, rfl⟩ := step_hup hstep
      exact carries_disconnectCb hidle
    | timeout =>
      obtain ⟨op, hp, ⟨hidle, attached⟩, rfl⟩ := step_timeout hstep
      exact carries_timeoutCb attached hidle hp
  have hle := carries.carried_le
  have covered := h.covered
  exact ⟨(effect_of_step h.orderly hstep).orderly h.orderly, by omega, carries.emptied h.emptied⟩

/-- Nothing is pending on a channel that was lost when the library code has returned. -/
theorem pendingReq_eq (h : s.Custody) (hidle : s.todo = []) (detached : s.attached = false) :
    s.pendingReq = none := by
  refine (h.emptied detached).2.resolve_right ?_
  rw [hidle]
  exact Nat.lt_irrefl 0

/-- No record is left when the channel was lost and the library code has returned. -/
theorem plain (h : s.Custody) (hidle : s.todo = []) (detached : s.attached = false) :
    ∀ cb ∈ s.callbacks, cb.record = none := by
  have covered := h.covered
  rw [carried, (h.emptied detached).1, h.pendingReq_eq hidle detached, hidle] at covered
  intro cb hcb
  by_contra hrecord
  have hone : Cb.burden cb = 1 := if_neg hrecord
  have hle := le_tally_of_mem (f := Cb.burden) hcb
  simp at covered
  omega

/-- **The handle has the only reference** to the `GAttrib` when the channel was lost and the
library code has returned. -/
theorem attribRef_eq (h : s.Custody) (balanced : s.Balanced) (app : s.app = true)
    (hidle : s.todo = []) (detached : s.attached = false) : s.attribRef = 1 := by
  have plain := h.plain hidle detached
  rw [Balanced, hidle] at balanced
  obtain ⟨live, -, hlive, hrefs⟩ := balanced.attribRef_eq
  have none : live = [] := by
    refine List.eq_nil_iff_forall_not_mem.mpr fun r hr => ?_
    have pos := (hlive r).mp hr
    have none : tally (Cb.refers r) s.callbacks = 0 :=
      tally_eq_zero fun cb hcb => if_neg (by rw [plain cb hcb]; simp)
    have href := balanced.ref_eq r
    rw [none, tally_nil] at href
    omega
  rw [hrefs, app, none]
  rfl

end Custody

end Link

end Libble

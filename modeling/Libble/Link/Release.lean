import Libble.Link.Custody

/-!
# The release of the records of a connection

What a call allocates is released through three reference counts, the list `callbacks` of the
`GAttrib` and destroy functions that run nested inside each other. While the `GAttrib` has
references the accounts of `Link.Ledger` say that everything that is used is still there. The end
is safe as well if the handle gives the last reference back and no library code is suspended: then
no record is left, and the teardown is a straight line.

It is not if a record holds the last reference, which is then given back from inside
`attrib_callbacks_destroy`, which goes on with the `GAttrib`. Nor is it if the handler gives a
reference back while the library code that called it goes on with the callbacks. A read request
that is refused releases its record although the `attrib_callbacks` that refers to it stays; and a
discovery whose request is refused keeps its record, and with it the `GAttrib`, for ever.

## Main definitions

* `Link.Released`: everything is released once, in the end, and not used afterwards.
* `Link.Unburdened`: the guard.
* `Link.Sound`: nothing was used after its release.
* `Link.Stage`, `Link.Closing`: how far the teardown is.
* `Link.Safe`: the invariant.

## Main results

* `Link.Sound.run`, `Link.Sound.step`: what is used has not been released.
* `Link.records_released`: the records and the `GAttrib` are released exactly once.
* `Link.not_released_pendingRun`: a connection that is given up while a read waits.
-/

namespace Libble

open Att Gatt

namespace Link

variable {s t u : Link} {label : Label} {codes rest : List Code} {code : Code} {cb : Cb}
  {owner : Nat} {proc : Proc}

/-- The records of the calls, what refers to them, and the `GAttrib`. -/
def Obj.owned : Obj → Bool
  | callbacks _ | record _ | attrib => true
  | _ => false

/-- Nothing is used after its release, and everything is released once: the `bt_att` is gone when
the handle has given its reference back and no code is left, and with it everything else. -/
structure Released (s : Link) : Prop where
  unused : ∀ o ∈ s.faults, o.owned = false
  once : ∀ o, o.owned = true → s.freed.count o ≤ 1
  gone : s.app = false → s.todo = [] → .att ∈ s.freed
  complete : .att ∈ s.freed → s.todo = [] → ∀ o ∈ s.allocated, o.owned = true → s.freed.count o = 1

/-- Nothing was used after its release. -/
def Sound (s : Link) : Prop := ∀ o ∈ s.faults, o.owned = false

/-! ### What has not been released -/

namespace Ledger

/-- What is in `callbacks` has not been released. -/
theorem notMem_callbacks (h : s.Ledger codes) (mem : cb ∈ s.callbacks) :
    .callbacks cb.addr ∉ s.freed := by
  have hat : Cb.at cb.addr cb = 1 := isOne_self _
  have hle := le_tally_of_mem (f := Cb.at cb.addr) mem
  have heq := h.addr_eq cb.addr
  have hone := h.addr_le cb.addr
  exact List.count_eq_zero.mp (by omega)

theorem notMem_of_dies (h : s.Ledger (.callbacksFree cb :: rest)) :
    .callbacks cb.addr ∉ s.freed := by
  have hdies : Code.dies cb.addr (.callbacksFree cb) = 1 := isOne_self _
  have heq := h.addr_eq cb.addr
  have hone := h.addr_le cb.addr
  rw [tally_cons, hdies] at heq
  exact List.count_eq_zero.mp (by omega)

/-- A record that is referred to has not been released. -/
theorem notMem_record {r : Nat} (h : s.Ledger codes) (pos : 0 < s.recordRef r) :
    .record r ∉ s.freed := by
  have heq := h.record_eq r
  have hone := h.record_le r
  rw [positive_of_pos pos] at heq
  exact List.count_eq_zero.mp (by omega)

theorem notMem_of_frees {r : Nat} (h : s.Ledger (.recordFree r :: rest)) :
    .record r ∉ s.freed := by
  have hfrees : Code.frees r (.recordFree r) = 1 := isOne_self _
  have heq := h.record_eq r
  have hone := h.record_le r
  rw [tally_cons, hfrees] at heq
  exact List.count_eq_zero.mp (by omega)

theorem notMem_of_unrefs {r : Nat} (h : s.Ledger (.recordUnref r :: rest)) :
    .record r ∉ s.freed := by
  have hunrefs : Code.unrefs r (.recordUnref r) = 1 := isOne_self _
  have heq := h.ref_eq r
  rw [tally_cons, hunrefs] at heq
  exact h.notMem_record (by omega)

/-- The `GAttrib` has not been released while it has references. -/
theorem notMem_attrib (h : s.Ledger codes) (pos : 0 < s.attribRef) : .attrib ∉ s.freed := by
  have heq := h.attrib_eq
  rw [positive_of_pos pos] at heq
  exact List.count_eq_zero.mp (by omega)

/-- Nor before the end of `g_attrib_unref`. -/
theorem notMem_attrib_of_mem (h : s.Ledger codes) (mem : .attribFree ∈ codes) :
    .attrib ∉ s.freed := by
  have hle := le_tally_of_mem (f := isOne .attribFree) mem
  rw [isOne_self] at hle
  have heq := h.attrib_eq
  exact List.count_eq_zero.mp (by omega)

/-- The `bt_att` has been released when no reference is left to anything and no code is left. -/
theorem att_freed (h : s.Ledger []) (none : s.attribRef = 0) : .att ∈ s.freed := by
  have href := h.attRef_eq
  have heq := h.att_eq
  rw [none, positive_of_not_pos (by omega), tally_nil] at href
  rw [positive_of_not_pos (by omega), tally_nil] at heq
  exact List.count_pos_iff.mp (by omega)

end Ledger

/-! ### What is used -/

namespace Sound

theorem congr (h : s.Sound) (heq : t.faults = s.faults) : t.Sound := by
  rw [Sound, heq]
  exact h

theorem use (h : s.Sound) {o : Obj} (there : o.owned = true → o ∉ s.freed) : (s.use o).Sound := by
  refine List.forall_mem_append.mpr ⟨h, fun x hx => ?_⟩
  split at hx
  · obtain rfl := List.mem_singleton.mp hx
    exact Bool.eq_false_iff.mpr fun owned => there owned ‹_›
  · cases hx

theorem free (h : s.Sound) {o : Obj} (there : o.owned = true → o ∉ s.freed) : (s.free o).Sound :=
  h.use there

theorem btAttSend (h : s.Sound) (pdu : Pdu) (cb : Option Cb) : (s.btAttSend pdu cb).Sound := by
  have awake : ∀ t : Link, t.wakeupWriter.faults = t.faults := by
    intro t
    rw [wakeupWriter]
    split <;> rfl
  simp only [Link.btAttSend]
  split
  · split
    · exact h.congr (awake _)
    · exact h.congr (awake _)
  · exact h

theorem gAttribSend (h : s.Sound) (attrib : .attrib ∉ s.freed) (owner : Nat) (proc : Proc)
    (pdu : Pdu) : (s.gAttribSend owner proc pdu).Sound := by
  have used : (s.use .attrib).Sound := h.use fun _ => attrib
  exact btAttSend (use (s := { (s.use .attrib).alloc (.callbacks s.nextAddr) with
    callbacks := ⟨s.nextAddr, .result owner proc⟩ :: s.callbacks
    nextAddr := s.nextAddr + 1 }) used (o := .att) nofun) pdu _

/-- What an operation that is held refers to is there. -/
theorem useResult (h : s.Sound) (ledger : s.Ledger codes) {addr : Nat}
    (held : 0 < s.holds codes ⟨addr, .result owner proc⟩) :
    (s.useResult addr owner proc).Sound := by
  have used : (s.use (.callbacks addr)).Sound :=
    h.use fun _ => ledger.notMem_callbacks (ledger.mem_callbacks held)
  rw [Link.useResult]
  split
  · rename_i hasRecord
    exact used.use fun _ => ledger.notMem_record (ledger.recordRef_pos held hasRecord)
  · exact used

/-- The callback of an operation that is destroyed afterwards is called. -/
theorem runCallback {op : Op} (h : s.Sound) (attrib : .attrib ∉ s.freed)
    (ledger : s.Ledger (.destroyOp op :: rest)) (opcode : UInt8) (pdu : Pdu) :
    (s.runCallback op opcode pdu).Sound := by
  have called := calledBack s op opcode pdu
  generalize s.runCallback op opcode pdu = t at called
  cases called with
  | nobody => exact h
  | @goesOn addr owner proc next req hcb =>
    have used := h.useResult ledger (Ledger.holds_destroyOp hcb)
    obtain ⟨faults, huse⟩ := useResult_eq (s := s) addr owner proc
    have hfreed : (s.useResult addr owner proc).freed = s.freed := by rw [huse]
    have sent := used.gAttribSend (hfreed ▸ attrib) owner next req
    dsimp only
    split
    · exact sent.congr rfl
    · exact sent
  | @isOver addr owner proc events hcb =>
    exact (h.useResult ledger (Ledger.holds_destroyOp hcb)).congr rfl

theorem notifyEnd (h : s.Sound) (pdu : Pdu) (found : Bool) : (s.notifyEnd pdu found).Sound := by
  simp only [Link.notifyEnd]
  split
  · exact (h.btAttSend _ _).congr rfl
  · exact h.congr rfl

/-- A subscription that is in `notify_list` is there. -/
theorem notifyNext (h : s.Sound) (ledger : s.Ledger codes) (entry : Option Nat) (pdu : Pdu)
    (found : Bool) : (s.notifyNext entry pdu found).Sound := by
  simp only [Link.notifyNext]
  split
  · exact h.notifyEnd pdu found
  · split
    · exact h.notifyEnd pdu found
    · rename_i cb hentry
      split
      · have held : 0 < s.holds codes cb := by
          have hle := le_tally_of_mem (f := isOne cb) (List.mem_of_getElem? hentry)
          rw [isOne_self] at hle
          rw [holds]
          omega
        have used := h.use (o := .callbacks cb.addr)
          fun _ => ledger.notMem_callbacks (ledger.mem_callbacks held)
        exact used.congr rfl
      · exact h.congr rfl

/-- **What suspended code uses is there.** -/
theorem run (h : s.Sound) (ledger : s.Ledger (code :: s.todo)) (attrib : .attrib ∉ s.freed) :
    (s.run code).Sound := by
  have used : (s.use .attrib).Sound := h.use fun _ => attrib
  cases code with
  | freeRequest owner => exact h.free (by simp [Obj.owned])
  | discOp op =>
    exact runCallback (s := s.push [.destroyOp op]) h attrib (ledger.discOp.pushed _) _ _
  | rspDone => exact (h.use (o := .chan) (by simp [Obj.owned])).congr rfl
  | chanFree =>
    have used : (s.use .att).Sound := h.use (by simp [Obj.owned])
    exact (used.free (o := .chan) (by simp [Obj.owned])).congr rfl
  | timeoutDone => exact (h.use (o := .chan) (by simp [Obj.owned])).congr rfl
  | notifyNext entry pdu found => exact h.notifyNext ledger entry pdu found
  | notifyCheck entry pdu =>
    simp only [Link.run]
    split
    · exact h.notifyEnd pdu true
    · exact h.notifyNext ledger entry pdu true
  | callbacksRemove cb =>
    have there : cb ∈ s.callbacks := ledger.mem_callbacks Ledger.holds_pos
    have removed : ((s.use (.callbacks cb.addr)).use .attrib).Sound :=
      (h.use fun _ => ledger.notMem_callbacks there).use fun _ => attrib
    simp only [Link.run, Link.callbacksRemove]
    split
    · exact removed.congr rfl
    · exact removed
  | callbacksFree cb => exact used.free fun _ => ledger.notMem_of_dies
  | recordUnref r =>
    have used : (s.use (.record r)).Sound := h.use fun _ => ledger.notMem_of_unrefs
    simp only [Link.run, Link.recordUnref]
    split
    · exact used.congr rfl
    · exact used.congr rfl
  | recordFree r => exact h.free fun _ => ledger.notMem_of_frees
  | attribUnref =>
    simp only [Link.run, Link.attribUnref]
    split
    · exact used.congr rfl
    · exact used.congr rfl
  | attribFree => exact h.free fun _ => attrib
  | attUnref =>
    simp only [Link.run, Link.attUnref]
    split
    · exact (h.use (o := .att) (by simp [Obj.owned])).congr rfl
    · exact (h.use (o := .att) (by simp [Obj.owned])).congr rfl
  | cancelPending =>
    simp only [Link.run, Link.cancelPending]
    split
    · exact h.congr rfl
    · exact h
  | attFree =>
    simp only [Link.run, Link.attFree]
    split
    · exact free (s := { (s.push _).free .chan with attached := false, pendingReq := none })
        (free (s := s.push _) h (o := .chan) (by simp [Obj.owned])) (by simp [Obj.owned])
    · exact h.free (by simp [Obj.owned])
  | _ => exact h.congr rfl

/-- A call that is not a refused read request. -/
theorem call {call : Call} (h : s.Sound) (attrib : .attrib ∉ s.freed)
    (accepted : s.attached = true ∨ ∀ handle, call ≠ .request handle) : (s.call call).Sound := by
  have prepared : (s.prepared call).faults = s.faults ∧ (s.prepared call).freed = s.freed := by
    cases call <;> exact ⟨rfl, rfl⟩
  rw [call_eq accepted]
  exact (h.congr prepared.1).gAttribSend (prepared.2 ▸ attrib) _ _ _

theorem listen (h : s.Sound) : s.listen.Sound := by
  simp only [Link.listen]
  split
  · exact h.congr rfl
  · exact h.congr rfl

/-- `can_write_data` -/
theorem canWriteData (h : s.Sound) (balanced : s.Balanced) (attrib : .attrib ∉ s.freed)
    (ret : Int) : (s.canWriteData ret).Sound := by
  simp only [Link.canWriteData]
  split
  · exact h.congr rfl
  · rename_i op t hpick
    have ledger := (balanced.picked hpick).1
    have same : t.faults = s.faults ∧ t.freed = s.freed := by
      rcases pickNextSendOp_cases hpick with ⟨ops, -, rfl⟩ | ⟨-, -, ops, -, rfl⟩
      · exact ⟨rfl, rfl⟩
      · exact ⟨rfl, rfl⟩
    have picked : t.Sound := h.congr same.1
    split
    · exact runCallback (s := t.push [.destroyOp op]) picked (same.2 ▸ attrib) (ledger.pushed _) _ _
    · have written : (if 0 < ret then t.record [.sent op.owner op.pdu] else t).Sound := by
        split
        · exact picked
        · exact picked
      split <;> exact written.congr rfl

/-- `handle_rsp` -/
theorem handleRsp (h : s.Sound) (balanced : s.Balanced) (attrib : .attrib ∉ s.freed)
    (idle : tally Code.ends s.todo = 0) (opcode : UInt8) (pdu : Pdu) (security : Int)
    (setOk : Bool) : (s.handleRsp opcode pdu security setOk).Sound := by
  simp only [Link.handleRsp]
  split
  · exact h.congr rfl
  · rename_i op hp
    split
    · exact h.congr rfl
    · have ended : s.Ledger (.destroyOp op :: .rspDone :: s.todo) := balanced.ending hp idle rfl
      exact runCallback (s := (s.record _).push [.destroyOp op, .rspDone]) h attrib
        (ended.congr _ _ _ _ _ _) _ _

/-- `can_read_data` -/
theorem canReadData (h : s.Sound) (balanced : s.Balanced) (attrib : .attrib ∉ s.freed)
    (idle : tally Code.ends s.todo = 0) (pos : 0 < s.attRef) (bytes : Pdu) (security : Int)
    (setOk : Bool) : (s.canReadData bytes security setOk).Sound := by
  cases bytes with
  | nil => exact h
  | cons opcode pdu =>
    have held : Balanced { (s.record [.received (opcode :: pdu)]).push [.attUnref] with
        attRef := s.attRef + 1 } := (balanced.attInc pos).congr _ _ _ _ _ _
    simp only [Link.canReadData, handlePdu]
    split
    · refine handleRsp (s := { (s.record _).push [.attUnref] with attRef := _ }) h held attrib
        ?_ _ _
        _ _
      simpa [push, record, Code.ends] using idle
    · exact h.congr rfl
    · split
      · exact h.congr rfl
      · exact h.congr rfl
    · exact h.congr rfl

/-- `timeout_cb` -/
theorem timeoutCb {op : Op} (h : s.Sound) (balanced : s.Balanced) (attrib : .attrib ∉ s.freed)
    (hp : s.pendingReq = some op) (idle : tally Code.ends s.todo = 0) : (s.timeoutCb op).Sound := by
  have late : s.Ledger (.timeoutDone :: s.todo) := balanced.push [_] (by simp [Code.inert])
  have ended := late.unpend hp (by simpa [Code.ends] using idle)
  have unpended : Sound ({ s with pendingReq := none }.push [.destroyOp op, .timeoutDone]) :=
    h.congr rfl
  rw [Link.timeoutCb]
  exact unpended.runCallback attrib (ended.pushed _) _ _

/-- **What a step uses is there** while the `GAttrib` has references, unless it has a read request
refused. -/
theorem step (h : s.Sound) (alive : s.Alive) (hstep : s.step label = some t)
    (accepted : ∀ handle, label = .call (.request handle) → s.attached = true) : t.Sound := by
  have balanced := alive.balanced
  have attrib := balanced.notMem_attrib alive.pos
  have idle : s.todo = [] → tally Code.ends s.todo = 0 := fun hidle => hidle ▸ rfl
  cases label with
  | call call =>
    obtain ⟨-, -, -, rfl⟩ := step_call hstep
    exact h.call attrib (Alive.accepted_or accepted)
  | listen =>
    obtain ⟨-, -, rfl⟩ := step_listen hstep
    exact h.listen
  | drop =>
    obtain ⟨-, -, rfl⟩ := step_drop hstep
    exact h.congr rfl
  | ret =>
    obtain ⟨todo, -, rfl⟩ := step_ret hstep
    exact h.congr rfl
  | resume =>
    obtain ⟨code, todo, htodo, -, rfl⟩ := step_resume hstep
    exact run (s := { s with todo := todo }) h (alive.ledger htodo) attrib
  | canWrite ret =>
    obtain ⟨-, -, rfl⟩ := step_canWrite hstep
    exact h.canWriteData balanced attrib ret
  | canRead bytes security setOk =>
    obtain ⟨⟨hidle, -⟩, -, rfl⟩ := step_canRead hstep
    exact h.canReadData balanced attrib (idle hidle) (Alive.attRef_pos balanced alive.pos) _ _ _
  | hup =>
    obtain ⟨-, rfl⟩ := step_hup hstep
    exact h.congr rfl
  | timeout =>
    obtain ⟨op, hp, ⟨hidle, -⟩, rfl⟩ := step_timeout hstep
    exact h.timeoutCb balanced attrib hp (idle hidle)

end Sound

/-! ### The teardown -/

/-- Nothing holds an `attrib_callbacks`. -/
structure Unheld (s : Link) : Prop where
  notifyList : s.notifyList = []
  reqQueue : s.reqQueue = []
  writeQueue : s.writeQueue = []
  pendingReq : ∀ op ∈ s.pendingReq, op.cb = none

/-- What `g_attrib_unref` still has to do with the last reference, and what is gone by then. -/
inductive Stage (s : Link) : List Code → Prop
  | unref : Stage s [.attUnref, .callbacksDestroy, .attribFree]
  | unregister : Stage s [.unregisterAll, .cancelAll, .attFree, .callbacksDestroy, .attribFree]
  | cancel (notifyList : s.notifyList = []) :
    Stage s [.cancelAll, .attFree, .callbacksDestroy, .attribFree]
  | pending (notifyList : s.notifyList = []) (reqQueue : s.reqQueue = [])
      (writeQueue : s.writeQueue = []) :
    Stage s [.cancelPending, .attFree, .callbacksDestroy, .attribFree]
  | release (unheld : s.Unheld) : Stage s [.attFree, .callbacksDestroy, .attribFree]
  | destroy (unheld : s.Unheld) (detached : s.attached = false) :
    Stage s [.callbacksDestroy, .attribFree]
  | free (detached : s.attached = false) (callbacks : s.callbacks = []) : Stage s [.attribFree]

/-- The code destroys an operation or an `attrib_callbacks`. -/
def Code.destroys : Code → Bool
  | destroyOp _ | callbacksRemove _ | callbacksFree _ => true
  | _ => false

/-- The `GAttrib` has no references any more, no record is left, and nothing is pending without a
channel. -/
structure Torn (s : Link) : Prop where
  app : s.app = false
  attribRef : s.attribRef = 0
  plain : ∀ cb ∈ s.callbacks, cb.record = none
  pendingReq : s.attached = false → s.pendingReq = none

/-- The connection is torn down. -/
structure Closing (s : Link) : Prop extends Torn s where
  balanced : s.Balanced
  todo : ∃ front rest, s.todo = front ++ rest ∧ (∀ c ∈ front, c.destroys = true) ∧ s.Stage rest

/-- Nothing can happen on the connection any more. -/
structure Gone (s : Link) : Prop where
  balanced : s.Balanced
  app : s.app = false
  todo : s.todo = []
  detached : s.attached = false
  freed : .att ∈ s.freed
  callbacks : s.callbacks = []

/-- What the destroying code leaves as it is. -/
structure Destroying (s t : Link) : Prop where
  app : t.app = s.app
  attribRef : t.attribRef = s.attribRef
  attached : t.attached = s.attached
  notifyList : t.notifyList = s.notifyList
  reqQueue : t.reqQueue = s.reqQueue
  writeQueue : t.writeQueue = s.writeQueue
  pendingReq : t.pendingReq = s.pendingReq
  callbacks : t.callbacks ⊆ s.callbacks
  todo : ∃ codes, t.todo = codes ++ s.todo ∧ ∀ c ∈ codes, c.destroys = true

theorem callbacksDestroy_of_plain (plain : cb.record = none) :
    Link.callbacksDestroy cb = [.callbacksFree cb] := by
  rw [Link.callbacksDestroy, plain]
  rfl

/-- The destroying code goes on with destroying code if no record is left. -/
theorem destroying_run (plain : ∀ cb ∈ s.callbacks, cb.record = none)
    (destroys : code.destroys = true) : Destroying s (s.run code) := by
  have refl : Destroying s s :=
    ⟨rfl, rfl, rfl, rfl, rfl, rfl, rfl, List.Subset.refl _, [], rfl, nofun⟩
  cases code with
  | destroyOp op => exact { refl with todo := ⟨_, rfl, by simp [Code.destroys]⟩ }
  | callbacksRemove cb =>
    simp only [Link.run, Link.callbacksRemove]
    split
    · rename_i there
      have removed := callbacksDestroy_of_plain (plain cb there)
      refine { refl with callbacks := List.erase_subset, todo := ⟨_, rfl, fun c hc => ?_⟩ }
      rw [removed] at hc
      obtain rfl := List.mem_singleton.mp hc
      rfl
    · exact { refl with }
  | callbacksFree cb => exact { refl with }
  | _ => cases destroys

theorem balanced_destroys (ledger : s.Ledger (code :: s.todo)) (destroys : code.destroys = true) :
    (s.run code).Balanced := by
  cases code with
  | destroyOp op => exact ledger.destroyOp.pushed _
  | callbacksRemove cb => exact ledger.callbacksRemove
  | callbacksFree cb => exact ledger.callbacksFree
  | _ => cases destroys

/-- Destroying code leaves the stage as it is. -/
theorem Stage.of_destroying (h : s.Stage rest) (frame : Destroying s t) : t.Stage rest := by
  have unheld : s.Unheld → t.Unheld := fun h =>
    ⟨frame.notifyList.trans h.notifyList, frame.reqQueue.trans h.reqQueue,
      frame.writeQueue.trans h.writeQueue, frame.pendingReq ▸ h.pendingReq⟩
  cases h with
  | unref => exact .unref
  | unregister => exact .unregister
  | cancel notifyList => exact .cancel (frame.notifyList.trans notifyList)
  | pending notifyList reqQueue writeQueue =>
    exact .pending (frame.notifyList.trans notifyList) (frame.reqQueue.trans reqQueue)
      (frame.writeQueue.trans writeQueue)
  | release h => exact .release (unheld h)
  | destroy h detached => exact .destroy (unheld h) (frame.attached.trans detached)
  | free detached callbacks =>
    exact .free (frame.attached.trans detached)
      (List.subset_nil.mp (callbacks ▸ frame.callbacks))

/-- Without the handle only suspended code runs. -/
theorem step_busy (hstep : s.step label = some t) (app : s.app = false)
    (htodo : s.todo = code :: rest) (hne : code ≠ .handler) :
    t = { s with todo := rest }.run code := by
  have busy : s.todo ≠ [] := htodo ▸ List.cons_ne_nil _ _
  have without : ¬ s.app = true := Bool.eq_false_iff.mp app
  cases label with
  | call call => exact absurd (step_call hstep).2.1 without
  | listen => exact absurd (step_listen hstep).2.1 without
  | drop => exact absurd (step_drop hstep).2.1 without
  | ret =>
    obtain ⟨todo, htodo', -⟩ := step_ret hstep
    exact absurd (List.cons.inj (htodo.symm.trans htodo')).1 hne
  | resume =>
    obtain ⟨code', todo, htodo', -, rfl⟩ := step_resume hstep
    obtain ⟨rfl, rfl⟩ := List.cons.inj (htodo.symm.trans htodo')
    rfl
  | canWrite ret => exact absurd (step_canWrite hstep).1.1 busy
  | canRead bytes security setOk => exact absurd (step_canRead hstep).1.1 busy
  | hup => exact absurd (step_hup hstep).1.1 busy
  | timeout =>
    obtain ⟨op, -, dispatches, -⟩ := step_timeout hstep
    exact absurd dispatches.1 busy

/-- Nothing happens on a connection that is gone. -/
theorem Gone.not_step (h : s.Gone) (hstep : s.step label = some t) : False := by
  have without : ¬ s.app = true := Bool.eq_false_iff.mp h.app
  have detached : ¬ s.attached = true := Bool.eq_false_iff.mp h.detached
  cases label with
  | call call => exact without (step_call hstep).2.1
  | listen => exact without (step_listen hstep).2.1
  | drop => exact without (step_drop hstep).2.1
  | ret =>
    obtain ⟨todo, htodo, -⟩ := step_ret hstep
    exact absurd (h.todo.symm.trans htodo) nofun
  | resume =>
    obtain ⟨code, todo, htodo, -⟩ := step_resume hstep
    exact absurd (h.todo.symm.trans htodo) nofun
  | canWrite ret => exact detached (step_canWrite hstep).1.2
  | canRead bytes security setOk => exact detached (step_canRead hstep).1.2
  | hup => exact detached (step_hup hstep).1.2
  | timeout =>
    obtain ⟨op, -, dispatches, -⟩ := step_timeout hstep
    exact detached dispatches.2

theorem Torn.next (h : s.Torn) (app : t.app = s.app) (attribRef : t.attribRef = s.attribRef)
    (callbacks : t.callbacks ⊆ s.callbacks)
    (pendingReq : t.attached = false → t.pendingReq = none) : t.Torn :=
  ⟨app.trans h.app, attribRef.trans h.attribRef, fun cb hcb => h.plain cb (callbacks hcb),
    pendingReq⟩

theorem Unheld.holds_eq (h : s.Unheld) : s.holds [.attribFree] cb = 0 := by
  have hpending : tally (Op.holds cb) s.pendingReq.toList = 0 := tally_eq_zero fun op hop => by
    rw [Op.holds, h.pendingReq op (Option.mem_toList.mp hop), if_neg (by simp)]
  simp [holds, pendingHolds, h.reqQueue, h.writeQueue, h.notifyList, hpending, Code.holds]

theorem closing_of (balanced : t.Balanced) (torn : t.Torn) (htodo : s.todo = rest)
    (front more : List Code) (todo : t.todo = front ++ (more ++ s.todo))
    (destroys : ∀ c ∈ front, c.destroys = true) (stage : t.Stage (more ++ rest)) : t.Closing :=
  ⟨torn, balanced, front, more ++ rest, htodo ▸ todo, destroys, stage⟩

/-- The stages of the teardown, one after another. -/
theorem Stage.run (h : s.Torn) (htodo : s.todo = rest) (ledger : s.Ledger (code :: s.todo))
    (stage : s.Stage (code :: rest)) : (s.run code).Closing ∨ (s.run code).Gone := by
  have same : s.callbacks ⊆ s.callbacks := List.Subset.refl _
  cases stage with
  | unref =>
    have hlast : s.attRef = 1 := by
      have href := ledger.attRef_eq
      rw [h.attribRef, htodo] at href
      simpa [positive, Code.attRefs] using href
    have balanced : s.attUnref.Balanced := ledger.attUnref
    rw [Link.run]
    rw [Ledger.attUnref_last hlast] at balanced ⊢
    exact .inl (closing_of balanced (h.next rfl rfl same h.pendingReq) htodo []
      [.unregisterAll, .cancelAll, .attFree] rfl (by simp) .unregister)
  | unregister =>
    have balanced : (s.run .unregisterAll).Balanced := ledger.unregisterAll.pushed _
    exact .inl (closing_of balanced (h.next rfl rfl same h.pendingReq) htodo
      (s.notifyList.map .callbacksRemove) [] rfl (List.forall_mem_map.mpr fun _ _ => rfl)
      (.cancel rfl))
  | cancel notifyList =>
    have emptied := (ledger.pop rfl).queues .destroyOp .cancelPending (.inl rfl) rfl
    rw [← List.append_assoc] at emptied
    have balanced : (s.run .cancelAll).Balanced := emptied.pushed _
    exact .inl (closing_of balanced (h.next rfl rfl same h.pendingReq) htodo
      ((s.reqQueue ++ s.writeQueue).map .destroyOp) [.cancelPending]
      (List.append_assoc (List.map Code.destroyOp _) [Code.cancelPending] _)
      (List.forall_mem_map.mpr fun _ _ => rfl)
      (.pending notifyList rfl rfl))
  | pending notifyList reqQueue writeQueue =>
    have balanced : s.cancelPending.Balanced := ledger.cancelPending (by rw [htodo]; rfl)
    rw [Link.run]
    cases hpending : s.pendingReq with
    | none =>
      have unheld : s.Unheld :=
        ⟨notifyList, reqQueue, writeQueue, fun op hop => absurd (hpending.symm.trans hop) (by simp)⟩
      have skipped : s.cancelPending = s := by
        rw [cancelPending, hpending]
        cases s.attached <;> rfl
      rw [skipped] at balanced ⊢
      exact .inl (closing_of balanced h htodo [] [] rfl (by simp) (.release unheld))
    | some op =>
      have attached : s.attached = true := by
        refine (Bool.not_eq_false _).mp fun detached => ?_
        exact absurd (hpending.symm.trans (h.pendingReq detached)) (by simp)
      simp only [cancelPending, attached, hpending] at balanced ⊢
      refine .inl (closing_of balanced
        (h.next rfl rfl same fun detached => absurd (attached.symm.trans detached) (by simp)) htodo
        (op.cb.toList.map .callbacksRemove) [] rfl (List.forall_mem_map.mpr fun _ _ => rfl)
        (.release ⟨notifyList, reqQueue, writeQueue, fun op' hop => ?_⟩))
      rw [← Option.some.inj hop]
  | release unheld =>
    have balanced : s.attFree.Balanced := ledger.attFree (by rw [htodo]; rfl)
    rw [Link.run]
    cases hattached : s.attached with
    | false =>
      rw [Ledger.attFree_detached hattached] at balanced ⊢
      exact .inl (closing_of balanced (h.next rfl rfl same h.pendingReq) htodo [] [] rfl (by simp)
        (.destroy ⟨unheld.1, unheld.2, unheld.3, unheld.4⟩ hattached))
    | true =>
      rw [Ledger.attFree_attached hattached] at balanced ⊢
      simp only [Link.free, use, push] at balanced ⊢
      exact .inl (closing_of balanced (h.next rfl rfl same fun _ => rfl) htodo
        (s.pendingReq.toList.map .destroyOp) [] rfl (List.forall_mem_map.mpr fun _ _ => rfl)
        (.destroy ⟨unheld.1, unheld.2, unheld.3, by simp⟩ rfl))
  | destroy unheld detached =>
    have balanced : (s.run .callbacksDestroy).Balanced :=
      ledger.callbacksDestroyAll fun cb => by
        rw [htodo]
        exact unheld.holds_eq
    refine .inl (closing_of balanced (h.next rfl rfl (List.nil_subset _) h.pendingReq) htodo
      (s.callbacks.flatMap callbacksDestroy) [] rfl (fun c hc => ?_) (.free detached rfl))
    obtain ⟨cb, hcb, hc⟩ := List.mem_flatMap.mp hc
    rw [callbacksDestroy_of_plain (h.plain cb hcb)] at hc
    obtain rfl := List.mem_singleton.mp hc
    rfl
  | free detached callbacks =>
    have balanced : (s.free .attrib).Balanced := ledger.attribFree
    refine .inr ⟨balanced, h.app, htodo, detached, ?_, callbacks⟩
    have released := balanced
    rw [Balanced, show (s.free .attrib).todo = [] from htodo] at released
    exact released.att_freed h.attribRef

/-- The stage does not depend on the code. -/
theorem Stage.with_todo (h : s.Stage rest) (todo : List Code) :
    Stage { s with todo := todo } rest := by
  cases h with
  | unref => exact .unref
  | unregister => exact .unregister
  | cancel notifyList => exact .cancel notifyList
  | pending notifyList reqQueue writeQueue => exact .pending notifyList reqQueue writeQueue
  | release unheld => exact .release ⟨unheld.1, unheld.2, unheld.3, unheld.4⟩
  | destroy unheld detached => exact .destroy ⟨unheld.1, unheld.2, unheld.3, unheld.4⟩ detached
  | free detached callbacks => exact .free detached callbacks

/-- **The teardown takes its course.** -/
theorem Closing.step (h : s.Closing) (hstep : s.step label = some t) : t.Closing ∨ t.Gone := by
  obtain ⟨front, rest, htodo, destroys, stage⟩ := h.todo
  have ledger : ∀ {code todo}, s.todo = code :: todo →
      Ledger { s with todo := todo } (code :: todo) := by
    intro code todo htodo
    have balanced := h.balanced
    rw [Balanced, htodo] at balanced
    exact balanced.congr _ _ _ _ _ _
  cases front with
  | nil =>
    cases rest with
    | nil => cases stage
    | cons code rest =>
      have hne : code ≠ .handler := by
        rintro rfl
        cases stage
      obtain rfl := step_busy hstep h.app htodo hne
      exact Stage.run (s := { s with todo := rest }) ⟨h.app, h.attribRef, h.plain, h.pendingReq⟩ rfl
        (ledger htodo) (stage.with_todo rest)
  | cons code front =>
    rw [List.forall_mem_cons] at destroys
    have hne : code ≠ .handler := by
      rintro rfl
      cases destroys.1
    obtain rfl := step_busy hstep h.app htodo hne
    have balanced := balanced_destroys (ledger htodo) destroys.1
    have frame := destroying_run (s := { s with todo := front ++ rest }) h.plain destroys.1
    obtain ⟨codes, hcodes, more⟩ := frame.todo
    have torn : Torn _ := Torn.next (s := { s with todo := front ++ rest })
      ⟨h.app, h.attribRef, h.plain, h.pendingReq⟩ frame.app frame.attribRef frame.callbacks
      fun detached => frame.pendingReq.trans (h.pendingReq (frame.attached.symm.trans detached))
    refine .inl ⟨torn, balanced, codes ++ front, rest, ?_,
      List.forall_mem_append.mpr ⟨more, destroys.2⟩,
      Stage.of_destroying (stage.with_todo (front ++ rest)) frame⟩
    exact hcodes.trans (List.append_assoc codes front rest).symm

/-- There is something left to do. -/
theorem Closing.todo_ne_nil (h : s.Closing) : s.todo ≠ [] := by
  obtain ⟨front, rest, htodo, -, stage⟩ := h.todo
  intro hidle
  obtain ⟨-, rfl⟩ := List.append_eq_nil_iff.mp (htodo.symm.trans hidle)
  cases stage

/-! ### Runs -/

/-- The calls that make records are made while there is a channel, and the handle gives its
reference back when no library code is suspended and, on a channel that is attached, no record is
left. -/
def Unburdened (s : Link) : Label → Prop
  | .call (.request _) | .call .discoverHand | .call .discoverChar => s.attached = true
  | .drop => s.todo = [] ∧ (s.attached = true → s.attribRef = 1)
  | _ => True

instance (s : Link) (label : Label) : Decidable (s.Unburdened label) :=
  match label with
  | .call (.request _) | .call .discoverHand | .call .discoverChar =>
    inferInstanceAs (Decidable (s.attached = true))
  | .call (.write ..) => .isTrue trivial
  | .drop => inferInstanceAs (Decidable (_ ∧ _))
  | .listen | .ret | .resume | .canWrite _ | .canRead .. | .hup | .timeout => .isTrue trivial

theorem Unburdened.accepted {call : Call} (ok : s.Unburdened (.call call)) :
    s.attached = true ∨ ∃ handle data, call = .write handle data := by
  cases call with
  | write handle data => exact .inr ⟨handle, data, rfl⟩
  | request handle => exact .inl ok
  | discoverHand | discoverChar => exact .inl ok

/-- The handle has its reference, gives it back, the connection is torn down, or it is gone. -/
inductive Safe (s : Link) : Prop
  | alive (alive : s.Alive) (custody : s.Custody) (app : s.app = true)
  | parting (balanced : s.Balanced) (app : s.app = false) (todo : s.todo = [.attribUnref])
      (last : s.attribRef = 1) (pendingReq : s.attached = false → s.pendingReq = none)
  | closing (closing : s.Closing)
  | gone (gone : s.Gone)

/-- No record is left when the handle has the last reference. -/
theorem plain_of_last (ledger : s.Ledger [.attribUnref]) (last : s.attribRef = 1) :
    ∀ cb ∈ s.callbacks, cb.record = none := by
  obtain ⟨live, -, hlive, hrefs⟩ := ledger.attribRef_eq
  rw [last, tally_cons, isOne_self, tally_nil] at hrefs
  have none : live = [] := List.length_eq_zero_iff.mp (by omega)
  intro cb hcb
  cases hrecord : cb.record with
  | none => rfl
  | some r =>
    have hrefers : Cb.refers r cb = 1 := if_pos hrecord
    have hle := le_tally_of_mem (f := Cb.refers r) hcb
    have href := ledger.ref_eq r
    have live : r ∈ live := (hlive r).mpr (by omega)
    rw [none] at live
    cases live

/-- The last reference is given back. -/
theorem safe_attribUnref (ledger : s.Ledger [.attribUnref]) (app : s.app = false)
    (idle : s.todo = []) (last : s.attribRef = 1)
    (pendingReq : s.attached = false → s.pendingReq = none) : Safe (s.run .attribUnref) := by
  have unref : s.attribUnref.Balanced := Ledger.attribUnref (idle ▸ ledger)
  have plain := plain_of_last ledger last
  rw [run]
  rw [Ledger.attribUnref_last last] at unref ⊢
  exact .closing ⟨⟨app, rfl, plain, pendingReq⟩, unref, [], _,
    congrArg ([Code.attUnref, .callbacksDestroy, .attribFree] ++ ·) idle, by simp, .unref⟩

namespace Safe

theorem balanced (h : s.Safe) : s.Balanced := by
  cases h with
  | alive alive => exact alive.balanced
  | parting balanced => exact balanced
  | closing closing => exact closing.balanced
  | gone gone => exact gone.balanced

/-- **A guarded step keeps a connection safe.** -/
theorem step (h : s.Safe) (ok : s.Unburdened label) (hstep : s.step label = some t) : t.Safe := by
  cases h with
  | alive alive custody app =>
    by_cases hdrop : label = .drop
    · subst hdrop
      obtain ⟨idle, only⟩ := ok
      obtain ⟨-, -, rfl⟩ := step_drop hstep
      -- on a channel that was lost the records are gone with their operations
      have last : s.attribRef = 1 := by
        cases attached : s.attached with
        | true => exact only attached
        | false => exact custody.attribRef_eq alive.balanced app idle attached
      exact .parting (alive.balanced.drop app) rfl (congrArg ([Code.attribUnref] ++ ·) idle) last
        (custody.pendingReq_eq idle)
    · have accepted : ∀ handle, label = .call (.request handle) → s.attached = true := by
        rintro handle rfl
        exact ok
      have app' := (app_eq_of_step hstep hdrop).trans app
      refine .alive (alive.step hstep (Alive.pos_of_app (alive.balanced_step hstep accepted) app')
        accepted) (custody.step alive hstep hdrop ?_) app'
      rintro call rfl
      exact ok.accepted
  | parting balanced app todo last pendingReq =>
    obtain rfl := step_busy hstep app todo nofun
    rw [Balanced, todo] at balanced
    exact safe_attribUnref (s := { s with todo := [] }) (balanced.congr _ _ _ _ _ _) app rfl last
      pendingReq
  | closing closing => exact (closing.step hstep).elim .closing .gone
  | gone gone => exact (gone.not_step hstep).elim

/-- What a guarded step uses is there. -/
theorem sound (h : s.Safe) (hs : s.Sound) (ok : s.Unburdened label)
    (hstep : s.step label = some t) : t.Sound := by
  have busy : ∀ {code rest}, s.todo = code :: rest →
      Ledger { s with todo := rest } (code :: rest) := by
    intro code rest htodo
    have balanced := h.balanced
    rw [Balanced, htodo] at balanced
    exact balanced.congr _ _ _ _ _ _
  cases h with
  | alive alive =>
    refine hs.step alive hstep ?_
    rintro handle rfl
    exact ok
  | parting balanced app todo =>
    obtain rfl := step_busy hstep app todo (by simp)
    refine Sound.run (s := { s with todo := [] }) hs (busy todo) ?_
    obtain ⟨live, -, -, hrefs⟩ := balanced.attribRef_eq
    rw [todo, tally_cons, isOne_self] at hrefs
    exact balanced.notMem_attrib (by omega)
  | closing closing =>
    obtain ⟨front, rest, htodo, destroys, stage⟩ := closing.todo
    have mem : .attribFree ∈ s.todo := by
      rw [htodo]
      refine List.mem_append_right _ ?_
      cases stage <;> simp
    have attrib := closing.balanced.notMem_attrib_of_mem mem
    cases hall : s.todo with
    | nil =>
      rw [hall] at mem
      cases mem
    | cons code rest' =>
      have hne : code ≠ .handler := by
        rintro rfl
        cases front with
        | nil =>
          obtain rfl : Code.handler :: rest' = rest := hall.symm.trans htodo
          cases stage
        | cons code front =>
          obtain ⟨rfl, -⟩ := List.cons.inj (hall.symm.trans htodo)
          cases destroys _ List.mem_cons_self
      obtain rfl := step_busy hstep closing.app hall hne
      exact Sound.run (s := { s with todo := rest' }) hs (busy hall) attrib
  | gone gone => exact (gone.not_step hstep).elim

/-- What is safe and sound is released in the end. -/
theorem released (h : s.Safe) (hs : s.Sound) : s.Released := by
  have ledger := h.balanced
  refine ⟨hs, fun o ho => ?_, fun app hidle => ?_, fun hatt hidle o ho howned => ?_⟩
  · cases o with
    | callbacks a =>
      have heq := ledger.addr_eq a
      have hle := ledger.addr_le a
      omega
    | record r =>
      have heq := ledger.record_eq r
      have hle := ledger.record_le r
      omega
    | attrib =>
      have heq := ledger.attrib_eq
      omega
    | _ => cases ho
  · cases h with
    | alive _ _ app' => exact absurd (app'.symm.trans app) (by simp)
    | parting _ _ todo => exact absurd (todo.symm.trans hidle) (by simp)
    | closing closing => exact absurd hidle closing.todo_ne_nil
    | gone gone => exact gone.freed
  · have hatt := List.count_pos_iff.mpr hatt
    have ho := List.count_pos_iff.mpr ho
    have heq := ledger.att_eq
    have gone : ¬ 0 < s.attRef := fun pos => by
      rw [positive_of_pos pos] at heq
      omega
    have none : ¬ 0 < s.attribRef := fun pos => gone (Alive.attRef_pos ledger pos)
    have empty : s.callbacks = [] := by
      cases h with
      | alive alive => exact absurd alive.pos none
      | parting _ _ todo => exact absurd (todo.symm.trans hidle) nofun
      | closing closing => exact absurd hidle closing.todo_ne_nil
      | gone gone => exact gone.callbacks
    rw [Balanced, hidle] at ledger
    cases o with
    | callbacks a =>
      have heq := ledger.addr_eq a
      have hle := ledger.addr_le a
      rw [empty, tally_nil, tally_nil] at heq
      omega
    | record r =>
      have heq := ledger.record_eq r
      have hle := ledger.record_le r
      have href := ledger.ref_eq r
      rw [empty, tally_nil, tally_nil] at href
      rw [positive_of_not_pos (by omega), tally_nil] at heq
      omega
    | attrib =>
      have heq := ledger.attrib_eq
      rw [positive_of_not_pos none, tally_nil] at heq
      omega
    | _ => cases howned

end Safe

/-- **The release of the records**: in every run in which the calls that make records are made while
there is a channel, and the connection is given up while no library code is suspended and, on an
attached channel, no record is left, every record of a call, everything that refers to it and the
`GAttrib` are released exactly once and not used afterwards, and all of it has been released when
the connection was given up and no code is left. -/
theorem records_released {mtu : Mtu} {labels : List Label}
    (run : machine.Run Unburdened (new mtu) labels s) : s.Released := by
  have invariant : s.Safe ∧ s.Sound := by
    refine run.invariant (P := fun s => s.Safe ∧ s.Sound)
      ⟨.alive (.new mtu) (.new mtu) rfl, nofun⟩ ?_
    rintro a l b ⟨safe, sound⟩ ok step
    exact ⟨safe.step ok step, safe.sound sound ok step⟩
  exact invariant.1.released invariant.2

/-- A subscription and a read that is answered; then a write waits, and the connection is given
up. -/
def givenUpRun : Option Link :=
  machine.execGuarded Unburdened (new attDefaultLeMtu) <| List.flatten
    [[.listen, .call (.request 3), .canWrite 3, .canRead [0x0b, 7, 8] 1 false, .resume, .ret],
      List.replicate 9 .resume, [.call (.write 4 [1]), .drop], List.replicate 13 .resume]

theorem records_released_givenUpRun : ∃ s, givenUpRun = some s ∧ s.todo = [] ∧
    s.freed = [.request 0, .record 0, .callbacks 1, .callbacks 0, .callbacks 2, .chan, .att,
      .attrib] ∧ s.Released := by
  have hrun : givenUpRun.map (fun s => (s.todo, s.freed)) = some ([], [.request 0, .record 0,
      .callbacks 1, .callbacks 0, .callbacks 2, .chan, .att, .attrib]) := by
    decide +kernel
  obtain ⟨s, hs, hdata⟩ := Option.map_eq_some_iff.mp hrun
  obtain ⟨todo, freed⟩ := Prod.mk.inj hdata
  exact ⟨s, hs, todo, freed, records_released (machine.run_of_execGuarded hs)⟩

/-- The connection is given up while a read waits, and then the link is lost. -/
def pendingRun : Option Link :=
  machine.execGuarded (fun _ _ => True) (new attDefaultLeMtu) <| List.flatten
    [[.call (.request 3), .drop, .resume, .hup, .resume, .resume, .ret],
      List.replicate 14 .resume]

/-- **A connection that is given up while a read waits**: the record of the read gives the last
reference to the `GAttrib` back from inside `attrib_callbacks_destroy`, which then reads a field of
the `GAttrib`. -/
theorem not_released_pendingRun : ∃ s, pendingRun = some s ∧ s.faults = [.attrib] ∧
    ¬ s.Released := by
  have hrun : pendingRun.map Link.faults = some [.attrib] := by decide +kernel
  obtain ⟨s, hs, faults⟩ := Option.map_eq_some_iff.mp hrun
  refine ⟨s, hs, faults, fun released => ?_⟩
  have hunused := released.unused .attrib (by rw [faults]; exact List.mem_cons_self)
  cases hunused

end Link

end Libble

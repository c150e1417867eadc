import Libble.Link.Ledger

/-!
# A connection whose `GAttrib` has references

As long as the `GAttrib` of a connection has references nothing of the connection is torn down:
the code that is suspended is none of the code of the teardown, and every step keeps the accounts
of `Link.Ledger` until the last reference is given back.

## Main definitions

* `Link.Alive`: the accounts are kept, and the `GAttrib` has references.

## Main results

* `Link.Alive.resume`, `Link.Alive.call`, `Link.Alive.dispatch`: every step keeps a connection
  alive that does not give the last reference to the `GAttrib` back.
* `Link.Alive.pos_of_app`: the reference of the handle is one.
-/

namespace Libble

open Att Gatt

namespace Link

variable {s : Link} {codes rest : List Code} {owner : Nat} {proc : Proc} {pdu : Pdu}

/-! ### Kinds of code -/

namespace Code

/-- The code does not end the pending request, tear anything down or tell a result. -/
def minor : Code → Bool
  | emit (.procedure _) _ | discOp _ | rspDone | discPending | discDone | chanFree
  | callbacksDestroy | attribFree | unregisterAll | cancelAll | cancelPending | attFree => false
  | _ => true

/-- The code will clear the pending request, or will have it cleared. -/
def clears : Code → Nat
  | rspDone | discDone | discPending => 1
  | _ => 0

/-- The code is not part of the teardown. -/
def standing : Code → Bool
  | callbacksDestroy | attribFree | cancelAll | cancelPending | attFree => false
  | _ => true

/-- The code tells the outcome of a procedure. -/
def tells : Code → Bool
  | emit .. | freeRequest _ => true
  | _ => false

theorem inert_of_tells {code : Code} (h : code.tells = true) : code.inert = true := by
  cases code <;> first | rfl | cases h

theorem clears_of_tells {code : Code} (h : code.tells = true) : code.clears = 0 := by
  cases code <;> first | rfl | cases h

theorem standing_of_tells {code : Code} (h : code.tells = true) : code.standing = true := by
  cases code <;> first | rfl | cases h

theorem clears_of_minor {code : Code} (h : code.minor = true) : code.clears = 0 := by
  cases code <;> first | rfl | cases h

theorem standing_of_minor {code : Code} (h : code.minor = true) : code.standing = true := by
  cases code <;> first | rfl | cases h

theorem ends_le_clears (code : Code) : code.ends ≤ code.clears := by
  cases code <;> simp [ends, clears]

end Code

/-! ### What sending and calling back do -/

/-- A request is accepted while the channel is attached. -/
theorem gAttribSend_attached (attached : s.attached = true)
    (isRequest : IsRequest s.mtu.buflen pdu) :
    s.gAttribSend owner proc pdu = { s with
      callbacks := ⟨s.nextAddr, .result owner proc⟩ :: s.callbacks
      nextAddr := s.nextAddr + 1
      allocated := s.allocated ++ [.callbacks s.nextAddr]
      faults := ((s.use .attrib).use .att).faults
      reqQueue := s.reqQueue ++ [⟨pdu, .req, some ⟨s.nextAddr, .result owner proc⟩⟩]
      writerActive := s.writerActive || !s.writeQueue.isEmpty || s.pendingReq.isNone } := by
  have waiting : ∀ op : Op, (s.reqQueue ++ [op]).isEmpty = false := fun op =>
    List.isEmpty_eq_false_iff.mpr (List.append_ne_nil_of_right_ne_nil _ (List.cons_ne_nil _ _))
  simp [gAttribSend, btAttSend, Accepts, attached, isRequest.length_le, isRequest.type,
    wakeupWriter, wakeupChanWriter, use, alloc, waiting]

/-- A request is refused when the channel is gone. -/
theorem gAttribSend_detached (detached : s.attached = false) :
    s.gAttribSend owner proc pdu = { s with
      callbacks := ⟨s.nextAddr, .result owner proc⟩ :: s.callbacks
      nextAddr := s.nextAddr + 1
      allocated := s.allocated ++ [.callbacks s.nextAddr]
      faults := ((s.use .attrib).use .att).faults } := by
  simp [gAttribSend, btAttSend, Accepts, detached, use, alloc]

theorem useResult_eq (addr owner : Nat) (proc : Proc) :
    ∃ faults, s.useResult addr owner proc = { s with faults := faults } := by
  rw [useResult]
  split
  · exact ⟨_, rfl⟩
  · exact ⟨_, rfl⟩

/-- Whose callback is called, and with what outcome. -/
inductive CalledBack (s : Link) (op : Op) (opcode : UInt8) (pdu : Pdu) : Link → Prop
  /-- Nobody is interested. -/
  | nobody (h : ∀ addr owner proc, op.cb ≠ some ⟨addr, .result owner proc⟩) :
    CalledBack s op opcode pdu s
  /-- The procedure goes on. -/
  | goesOn {addr owner : Nat} {proc next : Proc} {req : Pdu}
      (hcb : op.cb = some ⟨addr, .result owner proc⟩)
      (hreact : react s.mtu.buflen proc (statusOf opcode pdu) (opcode :: pdu) = .send req next)
      (continues : Continues s.mtu.buflen proc req next) :
    CalledBack s op opcode pdu <|
      let t := (s.useResult addr owner proc).gAttribSend owner next req
      if proc.hasRecord then t.recordInc owner else t
  /-- The procedure is over. -/
  | isOver {addr owner : Nat} {proc : Proc} {events : List Event}
      (hcb : op.cb = some ⟨addr, .result owner proc⟩)
      (hreact : react s.mtu.buflen proc (statusOf opcode pdu) (opcode :: pdu) = .finish events) :
    CalledBack s op opcode pdu <|
      (s.useResult addr owner proc).push (events.map (.emit (.procedure owner)) ++
        if proc.isRead then [.freeRequest owner] else [])

theorem calledBack (s : Link) (op : Op) (opcode : UInt8) (pdu : Pdu) :
    CalledBack s op opcode pdu (s.runCallback op opcode pdu) := by
  rcases hcb : op.cb with - | ⟨addr, ⟨owner, proc⟩ | -⟩
  · simp only [runCallback, hcb]
    exact .nobody fun _ _ _ h => nomatch hcb.symm.trans h
  · obtain ⟨faults, huse⟩ := useResult_eq (s := s) addr owner proc
    have hmtu : (s.useResult addr owner proc).mtu = s.mtu := by rw [huse]
    simp only [runCallback, hcb, hmtu]
    cases hreact : react s.mtu.buflen proc (statusOf opcode pdu) (opcode :: pdu) with
    | send req next =>
      have continues := continues_of_react s.mtu.le_buflen hreact
      simp only [continues.hasRecord]
      exact .goesOn hcb hreact continues
    | finish events => exact .isOver hcb hreact
  · simp only [runCallback, hcb]
    exact .nobody fun _ _ _ h => nomatch hcb.symm.trans h

/-- Sending does not look at the counts of the records. -/
theorem recordInc_gAttribSend (isRequest : IsRequest s.mtu.buflen pdu) (r : Nat) :
    (s.gAttribSend owner proc pdu).recordInc r = (s.recordInc r).gAttribSend owner proc pdu := by
  cases attached : s.attached with
  | true =>
    rw [gAttribSend_attached attached isRequest,
      gAttribSend_attached (s := s.recordInc r) attached isRequest]
    rfl
  | false =>
    rw [gAttribSend_detached attached, gAttribSend_detached (s := s.recordInc r) attached]
    rfl

theorem todo_gAttribSend (owner : Nat) (proc : Proc) (isRequest : IsRequest s.mtu.buflen pdu) :
    (s.gAttribSend owner proc pdu).todo = s.todo := by
  cases attached : s.attached with
  | true => rw [gAttribSend_attached attached isRequest]
  | false => rw [gAttribSend_detached attached]

theorem attribRef_gAttribSend (owner : Nat) (proc : Proc) (isRequest : IsRequest s.mtu.buflen pdu) :
    (s.gAttribSend owner proc pdu).attribRef = s.attribRef := by
  cases attached : s.attached with
  | true => rw [gAttribSend_attached attached isRequest]
  | false => rw [gAttribSend_detached attached]

/-- What `runCallback` pushes: events, and the release of a `request_t`. -/
theorem calledBack_frame {op : Op} {opcode : UInt8} {t : Link}
    (called : CalledBack s op opcode pdu t) :
    t.attribRef = s.attribRef ∧
      ∃ codes, t.todo = codes ++ s.todo ∧ ∀ c ∈ codes, c.tells = true := by
  cases called with
  | nobody => exact ⟨rfl, [], rfl, nofun⟩
  | @goesOn addr owner proc next req hcb hreact continues =>
    obtain ⟨faults, huse⟩ := useResult_eq (s := s) addr owner proc
    have hmtu : (s.useResult addr owner proc).mtu = s.mtu := by rw [huse]
    have hattrib : (s.useResult addr owner proc).attribRef = s.attribRef := by rw [huse]
    have htodo : (s.useResult addr owner proc).todo = s.todo := by rw [huse]
    have isRequest := hmtu ▸ continues.isRequest
    have ha := (attribRef_gAttribSend owner next isRequest).trans hattrib
    have ht := (todo_gAttribSend owner next isRequest).trans htodo
    dsimp only
    split
    · exact ⟨ha, [], ht, nofun⟩
    · exact ⟨ha, [], ht, nofun⟩
  | @isOver addr owner proc events hcb hreact =>
    obtain ⟨faults, huse⟩ := useResult_eq (s := s) addr owner proc
    rw [huse]
    refine ⟨rfl, _, rfl, fun c hc => ?_⟩
    rcases List.mem_append.mp hc with hc | hc
    · obtain ⟨e, -, rfl⟩ := List.mem_map.mp hc
      rfl
    · split at hc
      · obtain rfl := List.mem_singleton.mp hc
        rfl
      · cases hc

namespace Ledger

theorem credit_result (a : Nat) :
    credit ⟨a, .result owner proc⟩ = if proc.hasRecord then [.recordUnref owner] else [] := by
  rw [credit, Cb.record]
  dsimp only
  split <;> rfl

/-- The record of a procedure whose callback is held has a reference. -/
theorem recordRef_pos (h : s.Ledger codes) {addr : Nat}
    (held : 0 < s.holds codes ⟨addr, .result owner proc⟩) (hasRecord : proc.hasRecord = true) :
    0 < s.recordRef owner := by
  have hmem := h.mem_callbacks held
  have hrefers : Cb.refers owner ⟨addr, .result owner proc⟩ = 1 := by
    simp [Cb.refers, Cb.record, hasRecord]
  have hle := le_tally_of_mem (f := Cb.refers owner) hmem
  have := h.ref_eq owner
  omega

theorem useResult (h : s.Ledger codes) (addr owner : Nat) (proc : Proc) :
    (s.useResult addr owner proc).Ledger codes := by
  obtain ⟨faults, huse⟩ := useResult_eq (s := s) addr owner proc
  rw [huse]
  exact h.congr _ _ _ _ _ _

/-- A request is sent for a procedure; with a record, a reference to it has been taken. -/
theorem send (isRequest : IsRequest s.mtu.buflen pdu)
    (h : s.Ledger ((if proc.hasRecord then [.recordUnref owner] else []) ++ s.todo)) :
    (s.gAttribSend owner proc pdu).Balanced := by
  rw [Balanced, todo_gAttribSend owner proc isRequest]
  refine gAttribSend pdu ?_
  rwa [credit_result]

/-- The callback of an operation that is held is called. -/
theorem runCallback (h : s.Balanced) {op : Op} (opcode : UInt8) (pdu : Pdu)
    (held : ∀ cb, op.cb = some cb → 0 < s.holds s.todo cb) :
    (s.runCallback op opcode pdu).Balanced := by
  generalize htarget : s.runCallback op opcode pdu = t
  have called := calledBack s op opcode pdu
  rw [htarget] at called
  clear htarget
  cases called with
  | nobody => exact h
  | @goesOn addr owner proc next req hcb hreact continues =>
    have hpos := h.recordRef_pos (held _ hcb)
    have hu := h.useResult addr owner proc
    obtain ⟨faults, huse⟩ := useResult_eq (s := s) addr owner proc
    have hmtu : (s.useResult addr owner proc).mtu = s.mtu := by rw [huse]
    have hrecord : (s.useResult addr owner proc).recordRef = s.recordRef := by rw [huse]
    have htodo : (s.useResult addr owner proc).todo = s.todo := by rw [huse]
    generalize s.useResult addr owner proc = u at hu hmtu hrecord htodo
    have isRequest := hmtu ▸ continues.isRequest
    rw [← htodo] at hu
    cases hasRecord : proc.hasRecord with
    | true =>
      have hinc := hu.recordInc (r := owner) (hrecord ▸ hpos hasRecord)
      simp only [if_true]
      rw [recordInc_gAttribSend isRequest]
      refine send (s := u.recordInc owner) isRequest ?_
      rw [continues.hasRecord, hasRecord, if_pos rfl]
      exact hinc
    | false =>
      simp only [Bool.false_eq_true, if_false]
      refine send isRequest ?_
      rw [continues.hasRecord, hasRecord]
      exact hu
  | @isOver addr owner proc events hcb hreact =>
    have hu := h.useResult addr owner proc
    obtain ⟨faults, huse⟩ := useResult_eq (s := s) addr owner proc
    have htodo : (s.useResult addr owner proc).todo = s.todo := by rw [huse]
    obtain ⟨-, codes, hcodes, tells⟩ := calledBack_frame (.isOver hcb hreact)
    rw [Balanced, hcodes]
    exact (hu.push _ fun c hc => Code.inert_of_tells (tells c hc)).pushed _

theorem respondNotSupported (h : s.Ledger codes) (opcode : UInt8) :
    (s.respondNotSupported opcode).Ledger codes := btAttSend h nofun

theorem todo_respondNotSupported (opcode : UInt8) :
    (s.respondNotSupported opcode).todo = s.todo := by
  have awake : ∀ t : Link, t.wakeupWriter.todo = t.todo := by
    intro t
    rw [Link.wakeupWriter]
    split <;> rfl
  simp only [Link.respondNotSupported, Link.btAttSend]
  split
  · split
    · exact awake _
    · exact awake _
  · rfl

theorem notifyEnd {code : Code} (h : s.Ledger (code :: s.todo)) (hcode : code.attRefs = 1)
    (pdu : Pdu) (found : Bool) : (s.notifyEnd pdu found).Balanced := by
  have last := h.handOver .attUnref hcode rfl
  simp only [Link.notifyEnd]
  split
  · rw [Balanced, Link.push, todo_respondNotSupported]
    exact (last.respondNotSupported _).congr _ _ _ _ _ _
  · exact last.pushed _

theorem notifyNext {code : Code} (h : s.Ledger (code :: s.todo)) (hcode : code.attRefs = 1)
    (entry : Option Nat) (pdu : Pdu) (found : Bool) : (s.notifyNext entry pdu found).Balanced := by
  simp only [Link.notifyNext]
  split
  · exact h.notifyEnd hcode pdu found
  · split
    · exact h.notifyEnd hcode pdu found
    · split
      · refine (push _ (h.handOver _ hcode rfl) ?_).congr _ _ _ _ _ _
        intro c hc
        obtain ⟨e, -, rfl⟩ := List.mem_map.mp hc
        rfl
      · exact (h.handOver _ hcode rfl).pushed _

theorem holds_destroyOp {op : Op} (hcb : op.cb = some cb) :
    0 < s.holds (.destroyOp op :: rest) cb := by
  simp only [Link.holds, tally_cons, Code.holds, Op.holds, hcb, if_true]
  omega

/-- An operation that is ended is destroyed afterwards. -/
theorem discOp {op : Op} (h : s.Ledger (.discOp op :: rest)) :
    s.Ledger (.destroyOp op :: rest) := by
  refine h.moved [_] [_] (by simp [Code.moving]) (by simp [Code.moving])
    fun cb => ?_
  simp [Link.holds, pendingHolds, Code.holds, Code.ends]

/-- Suspended code that is not part of the teardown keeps the accounts. -/
theorem run {code : Code} (h : s.Ledger (code :: s.todo)) (standing : code.standing = true)
    (idle : code = .discPending → tally Code.ends s.todo = 0) (pos : 0 < s.attRef) :
    (s.run code).Balanced := by
  cases code with
  | emit source event =>
    exact ((h.pop rfl).push [.handler] (by simp [Code.inert])).congr _ _ _ _ _ _
  | handler => exact h.pop rfl
  | freeRequest owner => exact (h.pop rfl).freeRequest owner
  | destroyOp op => exact h.destroyOp.pushed _
  | discOp op =>
    refine runCallback (s := s.push [.destroyOp op]) (h.discOp.pushed _) _ _ fun cb hcb => ?_
    exact holds_destroyOp hcb
  | rspDone => exact (h.pendingClear rfl).congr _ _ _ _ _ _
  | discPending => exact (h.discPending (idle rfl)).pushed _
  | discDone => exact h.pendingClear rfl
  | chanFree => exact h.chanFree pos
  | timeoutDone => exact (h.pop rfl).congr _ _ _ _ _ _
  | notifyNext entry pdu found => exact h.notifyNext rfl entry pdu found
  | notifyCheck entry pdu =>
    simp only [Link.run]
    split
    · exact h.notifyEnd rfl pdu true
    · exact h.notifyNext rfl entry pdu true
  | callbacksRemove cb => exact h.callbacksRemove
  | callbacksFree cb => exact h.callbacksFree
  | recordUnref r => exact h.recordUnref
  | recordFree r => exact h.recordFree
  | attribUnref => exact h.attribUnref
  | attUnref => exact h.attUnref
  | unregisterAll => exact h.unregisterAll.pushed _
  | callbacksDestroy | attribFree | cancelAll | cancelPending | attFree => cases standing

end Ledger

/-! ### Steps that no procedure notices -/

/-- What happens is not about a procedure. -/
def Act.minor : Act → Bool
  | .event .notification _ | .received _ | .ioShutdown => true
  | .sent none pdu => getOpType (byteAt pdu 0) ≠ .req
  | _ => false

/-- Nothing happens that a procedure notices. -/
structure Minor (s t : Link) : Prop where
  mtu_eq : t.mtu = s.mtu
  app_eq : t.app = s.app
  attached_eq : t.attached = s.attached
  reqQueue_eq : t.reqQueue = s.reqQueue
  pendingReq_eq : t.pendingReq = s.pendingReq
  nextOwner_eq : t.nextOwner = s.nextOwner
  log : ∃ acts, t.log = s.log ++ acts ∧ ∀ a ∈ acts, a.minor = true
  /-- What is written besides requests has no owner. -/
  writeQueue : ∀ op ∈ t.writeQueue, op ∈ s.writeQueue ∨
    (op.cb = none ∧ op.type ≠ .req ∧ getOpType (byteAt op.pdu 0) ≠ .req)
  todo : ∃ codes, t.todo = codes ++ s.todo ∧ ∀ c ∈ codes, c.minor = true

namespace Minor

variable {t u : Link}

theorem refl (s : Link) : Minor s s :=
  ⟨rfl, rfl, rfl, rfl, rfl, rfl, ⟨[], (List.append_nil _).symm, nofun⟩, fun _ h => .inl h, [],
    rfl, nofun⟩

theorem trans (h : Minor s t) (h' : Minor t u) : Minor s u := by
  obtain ⟨acts, hlog, hacts⟩ := h.log
  obtain ⟨acts', hlog', hacts'⟩ := h'.log
  obtain ⟨codes, htodo, hcodes⟩ := h.todo
  obtain ⟨codes', htodo', hcodes'⟩ := h'.todo
  refine ⟨h'.mtu_eq.trans h.mtu_eq, h'.app_eq.trans h.app_eq, h'.attached_eq.trans h.attached_eq,
    h'.reqQueue_eq.trans h.reqQueue_eq, h'.pendingReq_eq.trans h.pendingReq_eq,
    h'.nextOwner_eq.trans h.nextOwner_eq, ⟨acts ++ acts', ?_, fun a ha => ?_⟩, fun op hop => ?_,
    codes' ++ codes, ?_, fun c hc => ?_⟩
  · rw [hlog', hlog, List.append_assoc]
  · rcases List.mem_append.mp ha with ha | ha
    · exact hacts a ha
    · exact hacts' a ha
  · rcases h'.writeQueue op hop with hop | hop
    · exact h.writeQueue op hop
    · exact .inr hop
  · rw [htodo', htodo, List.append_assoc]
  · rcases List.mem_append.mp hc with hc | hc
    · exact hcodes' c hc
    · exact hcodes c hc

theorem push (s : Link) (codes : List Code) (h : ∀ c ∈ codes, c.minor = true) :
    Minor s (s.push codes) :=
  { refl s with todo := ⟨codes, rfl, h⟩ }

theorem record (s : Link) (acts : List Act) (h : ∀ a ∈ acts, a.minor = true) :
    Minor s (s.record acts) :=
  { refl s with log := ⟨acts, rfl, h⟩ }

/-- The counters, the callbacks and the objects are nothing that a procedure notices. -/
theorem counters (s : Link) (attribRef attRef : Int) (callbacks : List Cb)
    (recordRef : Nat → Int) (notifyList : List Cb) (inReq writerActive : Bool) (nextAddr : Nat)
    (allocated freed faults : List Obj) :
    Minor s { s with
      attribRef := attribRef, callbacks := callbacks, recordRef := recordRef, attRef := attRef,
      notifyList := notifyList, inReq := inReq, writerActive := writerActive,
      nextAddr := nextAddr, allocated := allocated, freed := freed, faults := faults } :=
  { refl s with }

theorem respondNotSupported (s : Link) (opcode : UInt8) :
    Minor s (s.respondNotSupported opcode) := by
  have awake : ∀ t : Link, Minor t t.wakeupWriter := by
    intro t
    rw [wakeupWriter]
    split
    · exact counters ..
    · exact refl t
  rw [Link.respondNotSupported, btAttSend]
  split
  · refine Minor.trans ?_ (awake _)
    refine { refl s with writeQueue := fun op hop => ?_ }
    rcases List.mem_append.mp hop with hop | hop
    · exact .inl hop
    · obtain rfl := List.mem_singleton.mp hop
      have hrsp : getOpType opErrorRsp ≠ .req := by decide
      exact .inr ⟨rfl, hrsp, hrsp⟩
  · exact refl s

theorem notifyEnd (s : Link) (pdu : Pdu) (found : Bool) : Minor s (s.notifyEnd pdu found) := by
  have done : ∀ t : Link, Minor t (t.push [.attUnref]) := fun t => push t _ (by simp [Code.minor])
  simp only [Link.notifyEnd]
  split
  · exact (respondNotSupported s _).trans (done _)
  · exact done s

theorem notifyNext (s : Link) (entry : Option Nat) (pdu : Pdu) (found : Bool) :
    Minor s (s.notifyNext entry pdu found) := by
  simp only [Link.notifyNext]
  split
  · exact notifyEnd s pdu found
  · split
    · exact notifyEnd s pdu found
    · split
      · refine (push s _ ?_).trans ((counters ..).trans (push _ _ ?_))
        · simp [Code.minor]
        · intro c hc
          obtain ⟨e, -, rfl⟩ := List.mem_map.mp hc
          rfl
      · exact push s _ (by simp [Code.minor])

/-- Code that no procedure notices, unless it gives the last reference to the `GAttrib` back. -/
theorem run {code : Code} (h : s.Ledger (code :: s.todo)) (minor : code.minor = true)
    (pos : 0 < s.attribRef) (more : code = .attribUnref → s.attribRef ≠ 1) :
    Minor s (s.run code) := by
  cases code with
  | emit source event =>
    cases source with
    | procedure owner => cases minor
    | notification =>
      exact (record s _ (by simp [Act.minor])).trans (push _ _ (by simp [Code.minor]))
  | handler => exact refl s
  | freeRequest owner => exact counters ..
  | destroyOp op => exact push s _ (by simp [Code.minor])
  | notifyNext entry pdu found => exact notifyNext s entry pdu found
  | notifyCheck entry pdu =>
    simp only [Link.run]
    split
    · exact notifyEnd s pdu true
    · exact notifyNext s entry pdu true
  | callbacksRemove cb =>
    simp only [Link.run, Link.callbacksRemove]
    split
    · refine (push s _ ?_).trans (counters ..)
      intro c hc
      rcases List.mem_append.mp hc with hc | hc
      · obtain ⟨r, -, rfl⟩ := List.mem_map.mp hc
        rfl
      · obtain rfl := List.mem_singleton.mp hc
        rfl
    · exact counters ..
  | callbacksFree cb => exact counters ..
  | recordUnref r =>
    simp only [Link.run, Link.recordUnref]
    split
    · exact counters ..
    · exact (counters ..).trans (push _ _ (by simp [Code.minor]))
  | recordFree r => exact counters ..
  | attribUnref =>
    rw [Link.run, Ledger.attribUnref_more (more rfl)]
    exact counters ..
  | attUnref =>
    have hne : s.attRef ≠ 1 := by
      intro hone
      have hatt := h.attRef_eq
      rw [positive_of_pos pos, tally_cons, Code.attRefs] at hatt
      omega
    rw [Link.run, Ledger.attUnref_more hne]
    exact counters ..
  | timeoutDone => exact (counters ..).trans (record _ _ (by simp [Act.minor]))
  | rspDone | discPending | discDone | chanFree | discOp op => cases minor
  | callbacksDestroy | attribFree | unregisterAll | cancelAll | cancelPending | attFree =>
    cases minor

end Minor

/-! ### Connections with references -/

/-- The `GAttrib` of the connection has references, and nothing is torn down. -/
structure Alive (s : Link) : Prop where
  balanced : s.Balanced
  pos : 0 < s.attribRef
  clears_le : tally Code.clears s.todo ≤ 1
  standing : ∀ c ∈ s.todo, c.standing = true

namespace Alive

variable {t : Link} {code : Code}

/-- The reference of the handle is one. -/
theorem pos_of_app (h : s.Ledger codes) (app : s.app = true) : 0 < s.attribRef := by
  obtain ⟨live, -, -, hlive⟩ := h.attribRef_eq
  rw [app, Bool.toNat_true] at hlive
  omega

/-- The `bt_att` is there. -/
theorem attRef_pos (h : s.Ledger codes) (pos : 0 < s.attribRef) : 0 < s.attRef := by
  have hatt := h.attRef_eq
  rw [positive_of_pos pos] at hatt
  omega

/-- Code is exchanged for code that is not part of the teardown. -/
theorem exchanged (old codes : List Code) (h : s.Alive) (balanced : t.Balanced)
    (pos : 0 < t.attribRef) (hs : s.todo = old ++ rest) (ht : t.todo = codes ++ rest)
    (clears : tally Code.clears codes ≤ tally Code.clears old)
    (standing : ∀ c ∈ codes, c.standing = true) : t.Alive := by
  refine ⟨balanced, pos, ?_, fun c hc => ?_⟩
  · have := h.clears_le
    rw [hs, tally_append] at this
    rw [ht, tally_append]
    omega
  · rw [ht] at hc
    rcases List.mem_append.mp hc with hc | hc
    · exact standing c hc
    · exact h.standing c (hs ▸ List.mem_append_right _ hc)

/-- Nothing is torn down in a step that no procedure notices. -/
theorem minor (h : s.Alive) {old : List Code} (hs : s.todo = old ++ rest)
    (step : Minor { s with todo := rest } t) (balanced : t.Balanced) (pos : 0 < t.attribRef) :
    t.Alive := by
  obtain ⟨codes, ht, hcodes⟩ := step.todo
  refine h.exchanged _ _ balanced pos hs ht ?_ fun c hc => Code.standing_of_minor (hcodes c hc)
  rw [tally_eq_zero fun c hc => Code.clears_of_minor (hcodes c hc)]
  exact Nat.zero_le _

theorem clears_told {op : Op} {n : Nat} (tells : ∀ c ∈ codes, c.tells = true) :
    tally Code.clears (codes ++ [.destroyOp op]) ≤ n := by
  rw [tally_append, tally_eq_zero fun c hc => Code.clears_of_tells (tells c hc)]
  exact Nat.zero_le n

theorem standing_told {op : Op} (tells : ∀ c ∈ codes, c.tells = true) :
    ∀ c ∈ codes ++ [.destroyOp op], c.standing = true := by
  intro c hc
  rcases List.mem_append.mp hc with hc | hc
  · exact Code.standing_of_tells (tells c hc)
  · obtain rfl := List.mem_singleton.mp hc
    rfl

/-- The accounts with the code that is run next. -/
theorem ledger (h : s.Alive) (htodo : s.todo = code :: rest) :
    Ledger { s with todo := rest } (code :: rest) := by
  have balanced := h.balanced
  rw [Balanced, htodo] at balanced
  exact balanced.congr _ _ _ _ _ _

/-- The library runs on and keeps the accounts. -/
theorem balanced_resume (h : s.Alive) (htodo : s.todo = code :: rest) :
    ({ s with todo := rest }.run code).Balanced := by
  have ledger := h.ledger htodo
  have standing : code.standing = true := h.standing code (htodo ▸ List.mem_cons_self)
  refine ledger.run standing ?_ (attRef_pos ledger h.pos)
  rintro rfl
  have hle := h.clears_le
  rw [htodo, tally_cons, Code.clears] at hle
  have := tally_mono (f := Code.ends) (g := Code.clears) (l := rest)
    fun c _ => Code.ends_le_clears c
  dsimp only
  omega

/-- **The library runs on.** -/
theorem resume (h : s.Alive) (htodo : s.todo = code :: rest)
    (pos : 0 < ({ s with todo := rest }.run code).attribRef) :
    ({ s with todo := rest }.run code).Alive := by
  have balanced := h.balanced_resume htodo
  have standing : code.standing = true := h.standing code (htodo ▸ List.mem_cons_self)
  have hs : s.todo = [code] ++ rest := htodo
  by_cases hminor : code.minor = true
  · refine h.minor hs (Minor.run (h.ledger htodo) hminor h.pos ?_) balanced pos
    rintro rfl hone
    rw [Link.run, Ledger.attribUnref_last (s := { s with todo := rest }) hone] at pos
    exact absurd pos (by simp [Link.use])
  · cases code with
    | emit source event =>
      exact h.exchanged _ [.handler] balanced pos hs rfl (by simp [Code.clears])
        (by simp [Code.standing])
    | discOp op =>
      obtain ⟨-, codes, hcodes, tells⟩ := calledBack_frame
        (calledBack ({ s with todo := rest }.push [.destroyOp op]) op opErrorRsp [])
      exact h.exchanged _ (codes ++ [.destroyOp op]) balanced pos hs
        (hcodes.trans (List.append_assoc codes _ rest).symm) (clears_told tells)
        (standing_told tells)
    | rspDone => exact h.exchanged _ [] balanced pos hs rfl (by simp) (by simp)
    | discPending =>
      refine h.exchanged _ _ balanced pos hs rfl ?_ fun c hc => ?_
      · cases s.pendingReq <;> simp [Code.clears]
      · cases hp : s.pendingReq with
        | none => simp [hp] at hc
        | some op =>
          simp only [hp, Option.toList_some, List.flatMap_singleton, List.mem_cons,
            List.not_mem_nil, or_false] at hc
          rcases hc with rfl | rfl <;> rfl
    | discDone => exact h.exchanged _ [] balanced pos hs rfl (by simp) (by simp)
    | chanFree =>
      exact h.exchanged _ [.unregisterAll, .attUnref] balanced pos hs rfl
        (by simp [Code.clears]) (by simp [Code.standing])
    | unregisterAll =>
      refine h.exchanged _ _ balanced pos hs rfl ?_ (by simp [Code.standing])
      rw [tally_map]
      exact Nat.le_of_eq (tally_eq_zero fun _ _ => rfl)
    | callbacksDestroy | attribFree | cancelAll | cancelPending | attFree => cases standing
    | _ => exact absurd rfl hminor

end Alive

/-! ### Picking -/

/-- What is picked comes from the write queue, or it is the first request when none is pending. -/
theorem pickNextSendOp_cases {op : Op} {t : Link} (h : s.pickNextSendOp = some (op, t)) :
    (∃ ops, s.writeQueue = op :: ops ∧ t = { s with writeQueue := ops }) ∨
      (s.pendingReq = none ∧ op.pdu.length ≤ s.mtu.buflen ∧
        ∃ ops, s.reqQueue = op :: ops ∧ t = { s with reqQueue := ops }) := by
  have fromRequests : s.pickRequest = some (op, t) → s.pendingReq = none ∧
      op.pdu.length ≤ s.mtu.buflen ∧ ∃ ops, s.reqQueue = op :: ops ∧
        t = { s with reqQueue := ops } := by
    intro hreq
    simp only [pickRequest] at hreq
    split at hreq
    · rename_i hpending hops
      obtain ⟨hlength, hreq⟩ := Option.ite_none_right_eq_some.mp hreq
      obtain ⟨rfl, rfl⟩ := Prod.mk.inj (Option.some.inj hreq)
      exact ⟨hpending, hlength, _, hops, rfl⟩
    · cases hreq
  simp only [pickNextSendOp] at h
  split at h
  · rename_i hops
    split at h
    · obtain ⟨rfl, rfl⟩ := Prod.mk.inj (Option.some.inj h)
      exact .inl ⟨_, hops, rfl⟩
    · exact .inr (fromRequests h)
  · exact .inr (fromRequests h)

/-! ### The calls -/

/-- What a call does before it sends its first request. -/
def prepared (s : Link) (call : Call) : Link :=
  let t := { s.record [.called s.nextOwner call] with nextOwner := s.nextOwner + 1 }
  match call with
  | .write .. => t
  | .request _ => ((t.alloc (.request s.nextOwner)).makeRecord s.nextOwner).recordInc s.nextOwner
  | .discoverHand | .discoverChar => (t.makeRecord s.nextOwner).recordInc s.nextOwner

theorem gattReadChar_attached (attached : s.attached = true)
    (isRequest : IsRequest s.mtu.buflen pdu) :
    s.gattReadChar owner proc pdu =
      ((s.makeRecord owner).recordInc owner).gAttribSend owner proc pdu := by
  have accepts : (s.makeRecord owner).Accepts pdu := ⟨attached, isRequest.length_le⟩
  rw [gattReadChar]
  exact (if_pos accepts).trans (recordInc_gAttribSend (s := s.makeRecord owner) isRequest owner)

/-- A call sends its first request, unless it is a read request that is refused. -/
theorem call_eq {call : Call} (accepted : s.attached = true ∨ ∀ handle, call ≠ .request handle) :
    s.call call = (s.prepared call).gAttribSend s.nextOwner (call.begin s.mtu.buflen).2
      (call.begin s.mtu.buflen).1 := by
  cases call with
  | write handle data => rfl
  | discoverHand | discoverChar => rfl
  | request handle =>
    have attached : s.attached = true := accepted.resolve_right fun h => h handle rfl
    exact gattReadChar_attached (s := ({ s.record [.called s.nextOwner (.request handle)] with
      nextOwner := s.nextOwner + 1 }).alloc (.request s.nextOwner)) attached
      (isRequest_begin s.mtu.le_buflen (.request handle))

namespace Ledger

/-- A record that was not there is made, with a reference to the `GAttrib`. -/
theorem makeRecord (h : s.Ledger rest) (pos : 0 < s.attribRef) (hr : r < s.nextOwner)
    (fresh : s.allocated.count (.record r) = 0) :
    ((s.makeRecord r).recordInc r).Ledger (.recordUnref r :: rest) := by
  have hpos : positive (s.attribRef + 1) = positive s.attribRef := by
    rw [positive_of_pos (by omega), positive_of_pos pos]
  have hzero : s.recordRef r = 0 := by
    have hrecord := h.record_eq r
    have href := h.ref_eq r
    have : ¬ 0 < s.recordRef r := by
      intro hlt
      rw [positive_of_pos hlt] at hrecord
      omega
    omega
  have other : ∀ q, q ≠ r → Function.update s.recordRef r (s.recordRef r + 1) q = s.recordRef q :=
    fun q hq => Function.update_of_ne hq ..
  have hcount : ∀ q, (s.allocated ++ [Obj.record r]).count (.record q) =
      s.allocated.count (.record q) + isOne q r := by
    intro q
    simp [isOne, List.count_append, List.count_singleton]
  have haddr : ∀ a, (s.allocated ++ [Obj.record r]).count (.callbacks a) =
      s.allocated.count (.callbacks a) := by
    intro a
    simp [List.count_append]
  obtain ⟨h1, h2, h3, h4, h5, h6, h7, h8, ⟨live, hnodup, hlive, h9⟩, h10, h11, h12, h13⟩ := h
  have hnot : r ∉ live := fun hmem => by
    have := (hlive r).mp hmem
    omega
  simp only [Link.makeRecord, Link.recordInc, alloc]
  refine ⟨fun c => ?_, fun a => ?_, fun a => ?_, fun a ha => ?_, fun q => ?_, fun q => ?_,
    fun q => ?_, fun q hq => ?_, ⟨r :: live, List.nodup_cons.mpr ⟨hnot, hnodup⟩, fun q => ?_, ?_⟩,
    ?_, ?_, ?_, ?_⟩
  · simpa [Link.holds, pendingHolds, Code.holds, Code.ends] using h1 c
  · simpa [haddr, Code.dies] using h2 a
  · simpa only [haddr] using h3 a
  · simpa only [haddr] using h4 a ha
  · have := h5 q
    simp only [tally_cons, Code.unrefs, isOne]
    by_cases hq : q = r
    · subst hq
      rw [Function.update_self, if_pos rfl]
      omega
    · rw [other q hq, if_neg (Ne.symm hq)]
      omega
  · have := h6 q
    rw [hcount]
    dsimp only
    by_cases hq : q = r
    · subst hq
      rw [positive_of_not_pos (by omega)] at this
      rw [Function.update_self, positive_of_pos (by omega), isOne_self]
      simp only [tally_cons, Code.frees]
      omega
    · rw [other q hq]
      simp only [tally_cons, Code.frees, isOne, if_neg (Ne.symm hq)]
      omega
  · have := h7 q
    rw [hcount]
    by_cases hq : q = r
    · subst hq
      rw [isOne_self]
      omega
    · simp only [isOne, if_neg (Ne.symm hq)]
      omega
  · have hle : s.nextOwner ≤ q := hq
    have hne : r ≠ q := by omega
    have := h8 q hle
    rw [hcount]
    simp only [isOne, if_neg hne]
    omega
  · rw [List.mem_cons, hlive q]
    show _ ↔ 0 < Function.update s.recordRef r (s.recordRef r + 1) q
    by_cases hq : q = r
    · subst hq
      rw [Function.update_self, hzero]
      simp
    · rw [other q hq]
      simp [hq]
  · simp only [List.length_cons, tally_cons, isOne, reduceCtorEq, if_false]
    omega
  · simpa [Code.attRefs, hpos] using h10
  · simpa [isOne, hpos] using h11
  · simpa [isOne] using h12
  · simpa [isOne] using h13

/-- A call takes a name and logs itself. -/
theorem named (h : s.Ledger rest) (acts : List Act) :
    { s.record acts with nextOwner := s.nextOwner + 1 }.Ledger rest :=
  ⟨h.1, h.2, h.3, h.4, h.5, h.6, h.7, fun r hr => h.8 r (Nat.le_of_succ_le hr), h.9, h.10, h.11,
    h.12, h.13⟩

/-- The `request_t` is not in these accounts. -/
theorem allocRequest (h : s.Ledger rest) (r : Nat) : (s.alloc (.request r)).Ledger rest := by
  obtain ⟨h1, h2, h3, h4, h5, h6, h7, h8, h9, h10, h11, h12, h13⟩ := h
  refine ⟨h1, fun a => ?_, fun a => ?_, fun a ha => ?_, h5, fun q => ?_, fun q => ?_,
    fun q hq => ?_, h9, h10, h11, h12, h13⟩
  · simpa [alloc, List.count_append] using h2 a
  · simpa [alloc, List.count_append] using h3 a
  · simpa [alloc, List.count_append] using h4 a ha
  · simpa [alloc, List.count_append] using h6 q
  · simpa [alloc, List.count_append] using h7 q
  · simpa [alloc, List.count_append] using h8 q hq

/-- A call that is not a refused read request keeps the accounts. -/
theorem call {call : Call} (h : s.Balanced) (pos : 0 < s.attribRef)
    (accepted : s.attached = true ∨ ∀ handle, call ≠ .request handle) :
    (s.call call).Balanced := by
  have isRequest := isRequest_begin s.mtu.le_buflen call
  have fresh := h.record_lt s.nextOwner (Nat.le_refl _)
  have named := h.named [.called s.nextOwner call]
  rw [call_eq accepted]
  cases call with
  | write handle data =>
    refine send (s := s.prepared (.write handle data)) isRequest ?_
    have hrecord : (Call.begin s.mtu.buflen (.write handle data)).2.hasRecord = false := by
      simp only [Call.begin, gattWriteChar]
      split <;> rfl
    rw [hrecord]
    exact named
  | request handle =>
    refine send (s := s.prepared (.request handle)) isRequest ?_
    refine (named.allocRequest s.nextOwner).makeRecord pos (Nat.lt_succ_self _) ?_
    simpa [alloc, Link.record, List.count_append] using fresh
  | discoverHand =>
    refine send (s := s.prepared .discoverHand) isRequest ?_
    exact named.makeRecord pos (Nat.lt_succ_self _) fresh
  | discoverChar =>
    refine send (s := s.prepared .discoverChar) isRequest ?_
    exact named.makeRecord pos (Nat.lt_succ_self _) fresh

/-! ### The dispatches -/

/-- The operation that is picked leaves its queue. -/
theorem picked (h : s.Ledger rest) {op : Op} {t : Link} (hpick : s.pickNextSendOp = some (op, t)) :
    t.Ledger (.destroyOp op :: rest) ∧ t.attribRef = s.attribRef ∧ t.todo = s.todo := by
  rcases pickNextSendOp_cases hpick with ⟨ops, hops, rfl⟩ | ⟨-, -, ops, hops, rfl⟩
  · refine ⟨h.moved [] [_] nofun (by simp [Code.moving]) fun cb => ?_, rfl, rfl⟩
    simp only [Link.holds, pendingHolds, hops, List.nil_append, List.cons_append, tally_cons,
      Code.holds, Code.ends, Nat.zero_add]
    omega
  · refine ⟨h.moved [] [_] nofun (by simp [Code.moving]) fun cb => ?_, rfl, rfl⟩
    simp only [Link.holds, pendingHolds, hops, List.nil_append, List.cons_append, tally_cons,
      Code.holds, Code.ends, Nat.zero_add]
    omega

/-- An operation becomes the pending request. -/
theorem pend {op : Op} (h : s.Ledger (.destroyOp op :: rest)) (idle : tally Code.ends rest = 0) :
    { s with pendingReq := some op }.Ledger rest := by
  refine h.moved [_] [] (by simp [Code.moving]) nofun fun cb => ?_
  simp only [Link.holds, pendingHolds, List.nil_append, List.cons_append, tally_cons, Code.holds,
    Code.ends, idle, if_true, Option.toList_some, tally_nil]
  omega

/-- The pending request is ended by `disc_att_send_op` or `destroy_att_send_op`. -/
theorem unpend {op : Op} (h : s.Ledger rest) (hp : s.pendingReq = some op)
    (idle : tally Code.ends rest = 0) :
    { s with pendingReq := none }.Ledger (.destroyOp op :: rest) := by
  refine h.moved [] [_] nofun (by simp [Code.moving]) fun cb => ?_
  simp only [Link.holds, pendingHolds, hp, List.nil_append, List.cons_append, tally_cons,
    Code.holds, Code.ends, idle, if_true, Option.toList_some, Option.toList_none, tally_nil]
  omega

/-- The pending request is ended while it stays where it is. -/
theorem ending {op : Op} {code : Code} (h : s.Ledger rest) (hp : s.pendingReq = some op)
    (idle : tally Code.ends rest = 0) (hends : code.ends = 1) :
    s.Ledger (.destroyOp op :: code :: rest) := by
  have hcode : code = .rspDone ∨ code = .discDone := by
    cases code <;> simp [Code.ends] at hends ⊢
  refine h.moved [] [_, _] (by simp)
    (by rcases hcode with rfl | rfl <;> simp [Code.moving]) fun cb => ?_
  rcases hcode with rfl | rfl <;>
  · simp [Link.holds, pendingHolds, hp, Code.holds, Code.ends, idle]
    omega

/-- The channel is detached, and about to be released. -/
theorem detach (h : s.Ledger (codes ++ rest)) (attached : s.attached = true) :
    { s with attached := false }.Ledger (codes ++ Code.chanFree :: rest) := by
  have hinsert : ∀ f : Code → Nat, f .chanFree = 0 →
      tally f (codes ++ Code.chanFree :: rest) = tally f (codes ++ rest) := by
    intro f hf
    rw [tally_append, tally_cons, hf, Nat.zero_add, ← tally_append]
  obtain ⟨h1, h2, h3, h4, h5, h6, h7, h8, h9, h10, h11, h12, h13⟩ := h
  refine ⟨fun c => ?_, fun a => ?_, h3, h4, fun q => ?_, fun q => ?_, h7, h8, ?_, ?_, ?_, ?_, ?_⟩
  · rw [Link.holds, pendingHolds, hinsert (Code.holds c) rfl, hinsert Code.ends rfl]
    exact h1 c
  · rw [hinsert _ rfl]
    exact h2 a
  · rw [hinsert _ rfl]
    exact h5 q
  · rw [hinsert _ rfl]
    exact h6 q
  · rwa [hinsert _ rfl]
  · rwa [hinsert _ rfl]
  · rwa [hinsert _ rfl]
  · rwa [hinsert _ rfl]
  · rw [attached, Bool.toNat_true, tally_append] at h13
    rw [tally_append, tally_cons, isOne_self, Bool.toNat_false]
    dsimp only
    omega

/-- `disconnect_cb` -/
theorem disconnectCb (h : s.Balanced) (attached : s.attached = true) :
    s.disconnectCb.Balanced := by
  have queued := h.queues .discOp .discPending (.inr rfl) rfl
  rw [← List.append_assoc] at queued
  have detached := (queued.detach attached).congr s.mtu s.inReq s.writerActive s.faults
    s.disconnectCb.todo s.log
  have htodo : s.disconnectCb.todo =
      (s.reqQueue ++ s.writeQueue).map Code.discOp ++ [.discPending] ++ .chanFree :: s.todo := by
    simp [Link.disconnectCb, Link.push]
  rw [Balanced, htodo]
  exact detached

/-- `timeout_cb` -/
theorem timeoutCb {op : Op} (h : s.Balanced) (hp : s.pendingReq = some op)
    (idle : tally Code.ends s.todo = 0) : (s.timeoutCb op).Balanced := by
  have late : s.Ledger (.timeoutDone :: s.todo) := h.push [_] (by simp [Code.inert])
  have ended := late.unpend hp (by simpa [Code.ends] using idle)
  rw [Link.timeoutCb]
  refine runCallback (ended.congr _ _ _ _ _ _) _ _ fun cb hcb => ?_
  exact holds_destroyOp hcb

/-- `can_write_data` -/
theorem canWriteData (h : s.Balanced) (idle : tally Code.ends s.todo = 0) (ret : Int) :
    (s.canWriteData ret).Balanced := by
  simp only [Link.canWriteData]
  split
  · exact h.congr _ _ _ _ _ _
  · rename_i op t hpick
    obtain ⟨picked, -, htodo⟩ := h.picked hpick
    rw [← htodo] at picked idle
    split
    · refine runCallback (s := t.push [.destroyOp op]) (picked.pushed _) _ _ fun cb hcb => ?_
      exact holds_destroyOp hcb
    · have written : ∀ u : Link, u = t ∨ u = t.record [.sent op.owner op.pdu] →
          u.Ledger (.destroyOp op :: u.todo) ∧ u.todo = t.todo := by
        rintro u (rfl | rfl)
        · exact ⟨picked, rfl⟩
        · exact ⟨picked.congr _ _ _ _ _ _, rfl⟩
      generalize hu : (if 0 < ret then t.record [.sent op.owner op.pdu] else t) = u
      obtain ⟨hu, hutodo⟩ := written u (by
        rw [← hu]
        split
        · exact .inr rfl
        · exact .inl rfl)
      split
      · exact hu.pend (hutodo ▸ idle)
      · exact hu.congr _ _ _ _ _ _
      · exact hu.pushed _

/-- `handle_rsp` -/
theorem handleRsp (h : s.Balanced) (idle : tally Code.ends s.todo = 0) (opcode : UInt8)
    (pdu : Pdu) (security : Int) (setOk : Bool) :
    (s.handleRsp opcode pdu security setOk).Balanced := by
  simp only [Link.handleRsp]
  split
  · exact h.congr _ _ _ _ _ _
  · rename_i op hp
    split
    · refine Ledger.congr (?_ : Ledger { s with pendingReq := none, reqQueue := op :: s.reqQueue }
        s.todo) _ _ _ _ _ _
      have again := h.unpend hp idle
      refine again.moved [_] [] (by simp [Code.moving]) nofun fun cb => ?_
      simp only [Link.holds, pendingHolds, List.nil_append, List.cons_append, tally_cons,
        Code.holds, Code.ends, idle, if_true, Option.toList_none, tally_nil]
      omega
    · refine runCallback (s := (s.record _).push [.destroyOp op, .rspDone]) ?_ _ _ fun cb hcb => ?_
      · exact (h.ending hp idle rfl).congr _ _ _ _ _ _
      · exact holds_destroyOp hcb

/-- `handle_notify` -/
theorem handleNotify (h : s.Balanced) (pos : 0 < s.attRef) (pdu : Pdu) :
    (s.handleNotify pdu).Balanced :=
  ((h.attInc pos).handOver _ rfl rfl).congr _ _ _ _ _ _

theorem handlePdu (h : s.Balanced) (idle : tally Code.ends s.todo = 0) (pos : 0 < s.attRef)
    (opcode : UInt8) (pdu : Pdu) (security : Int) (setOk : Bool) :
    (s.handlePdu opcode pdu security setOk).Balanced := by
  simp only [Link.handlePdu]
  split
  · exact h.handleRsp idle opcode pdu security setOk
  · exact h.congr _ _ _ _ _ _
  · split
    · exact h.congr _ _ _ _ _ _
    · exact handleNotify (s := { s with inReq := true }) (h.congr _ _ _ _ _ _) pos _
  · exact h.handleNotify pos _

/-- `can_read_data` -/
theorem canReadData (h : s.Balanced) (idle : tally Code.ends s.todo = 0) (pos : 0 < s.attRef)
    (bytes : Pdu) (security : Int) (setOk : Bool) :
    (s.canReadData bytes security setOk).Balanced := by
  cases bytes with
  | nil => exact h
  | cons opcode pdu =>
    rw [Link.canReadData]
    refine handlePdu ((h.attInc pos).congr _ _ _ _ _ _) ?_ (Int.lt_add_one_of_le (Int.le_of_lt pos))
      _ _ _ _
    simpa [Link.push, Link.record, Code.ends] using idle

end Ledger

/-! ### Steps -/

namespace Alive

variable {t : Link}

/-- What a dispatch leaves to be run. -/
def Started (s t : Link) : Prop :=
  ∃ codes, t.todo = codes ++ s.todo ∧ tally Code.clears codes ≤ 1 ∧
    ∀ c ∈ codes, c.standing = true

theorem started_of_eq (h : t.todo = s.todo) : Started s t := ⟨[], h, Nat.zero_le _, nofun⟩

theorem started_calledBack {u : Link} {op : Op} {opcode : UInt8} (first : List Code)
    (htodo : u.todo = first ++ s.todo) (hclears : tally Code.clears first ≤ 1)
    (hstanding : ∀ c ∈ first, c.standing = true) :
    Started s (u.runCallback op opcode pdu) := by
  obtain ⟨-, codes, hcodes, tells⟩ := calledBack_frame (calledBack u op opcode pdu)
  refine ⟨codes ++ first, ?_, ?_, fun c hc => ?_⟩
  · rw [hcodes, htodo, List.append_assoc]
  · rw [tally_append, tally_eq_zero fun c hc => Code.clears_of_tells (tells c hc), Nat.zero_add]
    exact hclears
  · rcases List.mem_append.mp hc with hc | hc
    · exact Code.standing_of_tells (tells c hc)
    · exact hstanding c hc

theorem started_canWriteData (h : s.Balanced) (ret : Int) : Started s (s.canWriteData ret) := by
  simp only [Link.canWriteData]
  split
  · exact started_of_eq rfl
  · rename_i op u hpick
    obtain ⟨-, -, htodo⟩ := h.picked hpick
    have destroyed : ∀ v : Link, v.todo = .destroyOp op :: s.todo → Started s v :=
      fun v hv => ⟨[.destroyOp op], hv, by simp [Code.clears], by simp [Code.standing]⟩
    split
    · exact started_calledBack [.destroyOp op] (congrArg _ htodo)
        (by simp [Code.clears]) (by simp [Code.standing])
    · have written : (if 0 < ret then u.record [.sent op.owner op.pdu] else u).todo = s.todo := by
        split
        · exact htodo
        · exact htodo
      split
      · exact started_of_eq written
      · exact destroyed _ (congrArg _ written)
      · exact destroyed _ (congrArg _ written)

theorem started_handlePdu (opcode : UInt8) (pdu : Pdu) (security : Int) (setOk : Bool) :
    Started s (s.handlePdu opcode pdu security setOk) := by
  have notified : ∀ (u : Link) (bytes : Pdu), u.todo = s.todo → Started s (u.handleNotify bytes) :=
    fun u bytes hu => ⟨[_], congrArg _ hu, by simp [Code.clears], by simp [Code.standing]⟩
  simp only [Link.handlePdu]
  split
  · simp only [Link.handleRsp]
    split
    · exact started_of_eq rfl
    · split
      · exact started_of_eq rfl
      · exact started_calledBack [.destroyOp _, .rspDone] rfl (by simp [Code.clears])
          (by simp [Code.standing])
  · exact started_of_eq rfl
  · split
    · exact started_of_eq rfl
    · exact notified _ _ rfl
  · exact notified _ _ rfl

theorem started_canReadData (bytes : Pdu) (security : Int) (setOk : Bool) :
    Started s (s.canReadData bytes security setOk) := by
  cases bytes with
  | nil => exact started_of_eq rfl
  | cons opcode pdu =>
    obtain ⟨codes, htodo, hclears, hstanding⟩ := started_handlePdu
      (s := { (s.record [.received (opcode :: pdu)]).push [.attUnref] with
        attRef := s.attRef + 1 }) opcode pdu security setOk
    refine ⟨codes ++ [.attUnref], ?_, ?_, fun c hc => ?_⟩
    · exact htodo.trans (List.append_assoc codes [.attUnref] s.todo).symm
    · rw [tally_append]
      exact hclears
    · rcases List.mem_append.mp hc with hc | hc
      · exact hstanding c hc
      · obtain rfl := List.mem_singleton.mp hc
        rfl

theorem started_disconnectCb : Started s s.disconnectCb := by
  refine ⟨_, rfl, ?_, fun c hc => ?_⟩
  · have hzero : tally Code.clears ((s.reqQueue ++ s.writeQueue).map .discOp) = 0 :=
      (tally_map ..).trans (tally_eq_zero fun _ _ => rfl)
    rw [tally_append, hzero]
    simp [Code.clears]
  · simp only [List.mem_append, List.mem_map, List.mem_cons, List.not_mem_nil, or_false] at hc
    rcases hc with ⟨op, -, rfl⟩ | rfl | rfl <;> rfl

theorem started_timeoutCb (op : Op) : Started s (s.timeoutCb op) :=
  started_calledBack [.destroyOp op, .timeoutDone] rfl (by simp [Code.clears])
    (by simp [Code.standing])

theorem todo_call {call : Call} (accepted : s.attached = true ∨ ∀ handle, call ≠ .request handle) :
    (s.call call).todo = s.todo := by
  have isRequest := isRequest_begin s.mtu.le_buflen call
  rw [call_eq accepted]
  cases call <;> exact todo_gAttribSend _ _ isRequest

theorem accepted_or {call : Call}
    (accepted : ∀ handle, Label.call call = .call (.request handle) → s.attached = true) :
    s.attached = true ∨ ∀ handle, call ≠ .request handle := by
  by_cases hcall : ∃ handle, call = .request handle
  · obtain ⟨handle, rfl⟩ := hcall
    exact .inl (accepted handle rfl)
  · exact .inr fun handle heq => hcall ⟨handle, heq⟩

/-- Every step keeps the accounts, unless it has a read request refused. -/
theorem balanced_step {label : Label} (h : s.Alive) (hstep : s.step label = some t)
    (accepted : ∀ handle, label = .call (.request handle) → s.attached = true) : t.Balanced := by
  have idle : s.todo = [] → tally Code.ends s.todo = 0 := fun hidle => hidle ▸ rfl
  cases label with
  | call call =>
    obtain ⟨-, -, -, rfl⟩ := step_call hstep
    exact h.balanced.call h.pos (accepted_or accepted)
  | listen =>
    obtain ⟨-, -, rfl⟩ := step_listen hstep
    exact h.balanced.listen
  | drop =>
    obtain ⟨-, happ, rfl⟩ := step_drop hstep
    exact h.balanced.drop happ
  | ret =>
    obtain ⟨todo, htodo, rfl⟩ := step_ret hstep
    exact ((h.ledger htodo).pop rfl).congr _ _ _ _ _ _
  | resume =>
    obtain ⟨code, todo, htodo, -, rfl⟩ := step_resume hstep
    exact h.balanced_resume htodo
  | canWrite ret =>
    obtain ⟨⟨hidle, -⟩, -, rfl⟩ := step_canWrite hstep
    exact h.balanced.canWriteData (idle hidle) ret
  | canRead bytes security setOk =>
    obtain ⟨⟨hidle, -⟩, -, rfl⟩ := step_canRead hstep
    exact h.balanced.canReadData (idle hidle) (attRef_pos h.balanced h.pos) _ _ _
  | hup =>
    obtain ⟨⟨-, attached⟩, rfl⟩ := step_hup hstep
    exact h.balanced.disconnectCb attached
  | timeout =>
    obtain ⟨op, hp, ⟨hidle, -⟩, rfl⟩ := step_timeout hstep
    exact h.balanced.timeoutCb hp (idle hidle)

/-- **Every step keeps a connection alive** unless it gives the last reference to the `GAttrib`
back, or has a read request refused. -/
theorem step {label : Label} (h : s.Alive) (hstep : s.step label = some t) (pos : 0 < t.attribRef)
    (accepted : ∀ handle, label = .call (.request handle) → s.attached = true) : t.Alive := by
  have balanced := h.balanced_step hstep accepted
  have same : t.todo = s.todo → t.Alive := fun htodo =>
    h.exchanged [] [] balanced pos rfl htodo (Nat.le_refl _) nofun
  have dispatched : s.todo = [] → Started s t → t.Alive := by
    rintro hidle ⟨codes, htodo, hclears, hstanding⟩
    rw [hidle, List.append_nil] at htodo
    exact ⟨balanced, pos, htodo ▸ hclears, htodo ▸ hstanding⟩
  cases label with
  | call call =>
    obtain ⟨-, -, -, rfl⟩ := step_call hstep
    exact same (todo_call (accepted_or accepted))
  | listen =>
    obtain ⟨-, -, rfl⟩ := step_listen hstep
    refine same ?_
    simp only [Link.listen]
    split <;> rfl
  | drop =>
    obtain ⟨-, -, rfl⟩ := step_drop hstep
    exact h.exchanged [] [.attribUnref] balanced pos rfl rfl
      (by simp [Code.clears]) (by simp [Code.standing])
  | ret =>
    obtain ⟨todo, htodo, rfl⟩ := step_ret hstep
    exact h.exchanged [.handler] [] balanced pos htodo rfl (Nat.zero_le _) nofun
  | resume =>
    obtain ⟨code, todo, htodo, -, rfl⟩ := step_resume hstep
    exact h.resume htodo pos
  | canWrite ret =>
    obtain ⟨⟨hidle, -⟩, -, rfl⟩ := step_canWrite hstep
    exact dispatched hidle (started_canWriteData h.balanced ret)
  | canRead bytes security setOk =>
    obtain ⟨⟨hidle, -⟩, -, rfl⟩ := step_canRead hstep
    exact dispatched hidle (started_canReadData _ _ _)
  | hup =>
    obtain ⟨⟨hidle, -⟩, rfl⟩ := step_hup hstep
    exact dispatched hidle started_disconnectCb
  | timeout =>
    obtain ⟨op, hp, ⟨hidle, -⟩, rfl⟩ := step_timeout hstep
    exact dispatched hidle (started_timeoutCb op)

/-- A new connection is alive. -/
theorem new (mtu : Mtu) : (Link.new mtu).Alive := by
  refine ⟨⟨fun cb => Nat.le_refl _, fun a => ?_, fun a => ?_, fun a _ => ?_, fun r => rfl,
    fun r => ?_, fun r => ?_, fun r _ => ?_, ⟨[], List.nodup_nil, fun r => ?_, rfl⟩, rfl, rfl, rfl,
    rfl⟩, Int.one_pos, Nat.zero_le _, nofun⟩
  · simp [Link.new]
  · simp [Link.new]
  · simp [Link.new]
  · simp [Link.new, positive]
  · simp [Link.new]
  · simp [Link.new]
  · simp [Link.new]

end Alive

end Link

end Libble

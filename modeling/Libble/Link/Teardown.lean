import Libble.Link.Threads

/-!
# The end of a connection

When the last reference to the `GAttrib` is given back the requests that wait are thrown away
without an answer. This file shows that no read is among them: a read that waits has a record, and
the record holds a reference. After that nothing is started any more, since the handle has given
its reference back.

## Main definitions

* `Link.Abandoned`: the handle has given its reference back, and no read waits.

## Main results

* `Link.app_of_step`: the handle does not get its reference again.
* `Link.Alive.abandoned`: no read waits when the last reference is given back.
* `Link.alive_or_abandoned`: a connection is alive or abandoned.
-/

namespace Libble

open Att Gatt

namespace Link

variable {s t u : Link} {label : Label}

/-! ### The reference of the handle -/

@[simp] theorem app_wakeupWriter (s : Link) : s.wakeupWriter.app = s.app := by
  rw [wakeupWriter]
  split <;> rfl

@[simp] theorem app_btAttSend (s : Link) (pdu : Pdu) (cb : Option Cb) :
    (s.btAttSend pdu cb).app = s.app := by
  simp only [btAttSend]
  split_ifs
  · exact app_wakeupWriter _
  · exact app_wakeupWriter _
  · rfl

@[simp] theorem app_gAttribSend (s : Link) (owner : Nat) (proc : Proc) (pdu : Pdu) :
    (s.gAttribSend owner proc pdu).app = s.app := app_btAttSend ..

@[simp] theorem app_runCallback (s : Link) (op : Op) (opcode : UInt8) (pdu : Pdu) :
    (s.runCallback op opcode pdu).app = s.app := by
  have called := calledBack s op opcode pdu
  generalize s.runCallback op opcode pdu = t at called
  cases called with
  | nobody => rfl
  | @goesOn addr owner proc next req =>
    obtain ⟨faults, huse⟩ := useResult_eq (s := s) addr owner proc
    rw [huse]
    dsimp only
    split
    · exact app_gAttribSend ..
    · exact app_gAttribSend ..
  | @isOver addr owner proc events =>
    obtain ⟨faults, huse⟩ := useResult_eq (s := s) addr owner proc
    rw [huse]
    rfl

@[simp] theorem app_notifyEnd (s : Link) (pdu : Pdu) (found : Bool) :
    (s.notifyEnd pdu found).app = s.app := by
  simp only [notifyEnd]
  split
  · exact app_btAttSend ..
  · rfl

@[simp] theorem app_notifyNext (s : Link) (entry : Option Nat) (pdu : Pdu) (found : Bool) :
    (s.notifyNext entry pdu found).app = s.app := by
  simp only [notifyNext]
  split
  · exact app_notifyEnd ..
  · split
    · exact app_notifyEnd ..
    · split <;> rfl

/-- Only `lble_disconnect` takes the reference from the handle. -/
theorem app_run (s : Link) (code : Code) : (s.run code).app = s.app := by
  cases code with
  | discOp op => exact app_runCallback ..
  | notifyNext entry pdu found => exact app_notifyNext ..
  | notifyCheck entry pdu =>
    simp only [run]
    split
    · exact app_notifyEnd ..
    · exact app_notifyNext ..
  | callbacksRemove | recordUnref | attribUnref | attUnref =>
    simp only [run, callbacksRemove, recordUnref, attribUnref, attUnref]
    split <;> rfl
  | cancelPending =>
    simp only [run, cancelPending]
    split <;> rfl
  | attFree =>
    simp only [run, attFree]
    split <;> rfl
  | _ => rfl

theorem app_handleRsp (s : Link) (opcode : UInt8) (pdu : Pdu) (security : Int) (setOk : Bool) :
    (s.handleRsp opcode pdu security setOk).app = s.app := by
  simp only [handleRsp]
  split
  · rfl
  · split
    · rfl
    · exact app_runCallback ..

theorem app_call (s : Link) (call : Call) : (s.call call).app = s.app := by
  cases call with
  | request handle =>
    simp only [Link.call, gattReadChar]
    split
    · exact app_gAttribSend ..
    · exact app_gAttribSend ..
  | _ => exact app_gAttribSend ..

theorem app_eq_of_step (h : s.step label = some t) (hne : label ≠ .drop) : t.app = s.app := by
  cases label with
  | call call =>
    obtain ⟨-, -, -, rfl⟩ := step_call h
    exact app_call s call
  | listen =>
    obtain ⟨-, -, rfl⟩ := step_listen h
    simp only [listen]
    split <;> rfl
  | drop => exact absurd rfl hne
  | ret =>
    obtain ⟨todo, -, rfl⟩ := step_ret h
    rfl
  | resume =>
    obtain ⟨code, todo, -, -, rfl⟩ := step_resume h
    exact app_run _ code
  | canWrite ret =>
    obtain ⟨-, -, rfl⟩ := step_canWrite h
    simp only [canWriteData]
    split
    · rfl
    · rename_i op t hpick
      have picked : t.app = s.app := by
        rcases pickNextSendOp_cases hpick with ⟨ops, -, rfl⟩ | ⟨-, -, ops, -, rfl⟩
        · rfl
        · rfl
      have written : (if 0 < ret then t.record [.sent op.owner op.pdu] else t).app = s.app := by
        split
        · exact picked
        · exact picked
      split
      · exact (app_runCallback ..).trans picked
      · split <;> exact written
  | canRead bytes security setOk =>
    obtain ⟨-, -, rfl⟩ := step_canRead h
    cases bytes with
    | nil => rfl
    | cons opcode pdu =>
      simp only [canReadData, handlePdu]
      split
      · exact app_handleRsp ..
      · rfl
      · split <;> rfl
      · rfl
  | hup =>
    obtain ⟨-, rfl⟩ := step_hup h
    rfl
  | timeout =>
    obtain ⟨op, -, -, rfl⟩ := step_timeout h
    exact app_runCallback ..

/-- The handle does not get its reference again. -/
theorem app_of_step (h : s.step label = some t) (happ : s.app = false) : t.app = false := by
  by_cases hdrop : label = .drop
  · subst hdrop
    obtain ⟨-, -, rfl⟩ := step_drop h
    rfl
  · exact (app_eq_of_step h hdrop).trans happ

/-! ### The last reference -/

/-- The handle has given its reference back, and no read waits. -/
structure Abandoned (s : Link) : Prop where
  app : s.app = false
  idle : ∀ task : Task Pdu Proc, task.cont.isRead = true → s.load (isOne task) = 0

theorem hasRecord_of_isRead {proc : Proc} (h : proc.isRead = true) : proc.hasRecord = true := by
  cases proc <;> first | rfl | cases h

/-- The callback of a task that waits is held. -/
theorem Waiting.holds_pos {task : Task Pdu Proc} (h : s.Waiting task) :
    ∃ addr, 0 < s.holds s.todo ⟨addr, .result task.owner task.cont⟩ := by
  obtain ⟨op, htask, h⟩ := h
  obtain ⟨addr, hcb⟩ := exists_cb_of_task htask
  refine ⟨addr, ?_⟩
  have hone : op.holds ⟨addr, .result task.owner task.cont⟩ = 1 := if_pos hcb
  generalize (⟨addr, .result task.owner task.cont⟩ : Cb) = cb at hone
  rcases h with h | ⟨hp, hends⟩ | h
  · have hle := le_tally_of_mem (f := Op.holds cb) h
    rw [tally_append] at hle
    rw [holds]
    omega
  · rw [holds, pendingHolds, hp, if_pos hends, Option.toList_some, tally_cons, hone]
    omega
  · have hle := le_tally_of_mem (f := Code.holds cb) h
    rw [Code.holds, hone] at hle
    rw [holds]
    omega

/-- No read waits when the last reference is given back. -/
theorem Ledger.abandoned (h : s.Balanced) (gone : ¬ 0 < s.attribRef) : s.Abandoned := by
  obtain ⟨live, -, hlive, hrefs⟩ := h.attribRef_eq
  have happ : s.app = false := by
    by_contra happ
    rw [Bool.not_eq_false] at happ
    rw [happ, Bool.toNat_true] at hrefs
    omega
  refine ⟨happ, fun task isRead => ?_⟩
  by_contra hne
  have waiting : s.Waiting task := (waiting_iff s task).mpr (Nat.pos_of_ne_zero hne)
  obtain ⟨addr, hholds⟩ := waiting.holds_pos
  have hmem : task.owner ∈ live :=
    (hlive _).mpr (h.recordRef_pos hholds (hasRecord_of_isRead isRead))
  have := List.length_pos_of_mem hmem
  omega

/-- Nothing of it comes back. -/
theorem Abandoned.step (h : s.Abandoned) (tidy : s.Tidy) (hstep : s.step label = some t) :
    t.Abandoned := by
  refine ⟨app_of_step hstep h.app, fun task isRead => ?_⟩
  have idle := h.idle task isRead
  cases tidy.effect hstep with
  | still still => rw [still.load_eq, idle]
  | started hlabel =>
    subst hlabel
    obtain ⟨-, app, -⟩ := step_call hstep
    rw [h.app] at app
    cases app
  | lost mem loses removed =>
    have hle := removed.load_le (isOne task)
    omega
  | @reacted u op task' turn removes htask source reacts =>
    have hload := removes.load_eq (isOne task)
    have hzero : tally (isOne task) (turn.tasks task'.owner) = 0 := by
      cases turn with
      | done events => rfl
      | next req cont =>
        -- the read that would go on waits, but no read does
        refine if_neg fun heq => ?_
        have isRead' : task'.cont.isRead = true := by
          rw [← source.isRead_of_next, ← isRead, ← heq]
        have hload' := removes.load_eq (isOne task')
        rw [weigh_of_task htask, isOne_self, h.idle task' isRead'] at hload'
        omega
    rw [reacts.load_eq, hzero, ite_self]
    omega

/-- A connection is alive or abandoned, unless it has a read request refused. -/
theorem alive_or_abandoned (h : s.Alive ∨ s.Abandoned) (tidy : s.Tidy)
    (hstep : s.step label = some t)
    (accepted : ∀ handle, label = .call (.request handle) → s.attached = true) :
    t.Alive ∨ t.Abandoned := by
  rcases h with alive | abandoned
  · by_cases pos : 0 < t.attribRef
    · exact .inl (alive.step hstep pos accepted)
    · exact .inr (Ledger.abandoned (alive.balanced_step hstep accepted) pos)
  · exact .inr (abandoned.step tidy hstep)

/-- Nothing is lost while a connection is alive, and no read afterwards. -/
theorem spared (h : s.Alive ∨ s.Abandoned) {code : Code} (mem : code ∈ s.todo)
    (loses : code.loses = true) (task : Task Pdu Proc) (isRead : task.cont.isRead = true) :
    s.load (isOne task) = 0 := by
  rcases h with alive | abandoned
  · have torn : code.standing = false := by
      cases code <;> first | rfl | cases loses
    rw [alive.standing code mem] at torn
    cases torn
  · exact abandoned.idle task isRead

end Link

end Libble

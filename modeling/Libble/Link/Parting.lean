import Libble.Link.Release

/-!
# A connection that is given up

When the handle gives its reference back the code that releases things runs, and none of it calls
the event handler. What may call it afterwards are the requests and the subscriptions that are
left, and the code of the client that was suspended. If there is no such code, and the reference of
the handle was the last one while the channel was attached, then nothing is left that could.

This needs less than the release of the records does: a read request may be refused when the link
is lost, which spoils the accounts, but the channel is detached then and does not come back.

## Main definitions

* `Link.Code.tidies`: code that releases something; `Link.Tidied`: what it does.
* `Link.Clean`: the guard; `Link.Parted`: the invariant.

## Main results

* `Link.tidies_run`: such code goes on with such code, and nothing happens.
* `Link.attached_of_step`: a channel is not attached again.
* `Link.Parted.step`, `Link.Parted.log_eq`: the step rule, and what a step of a connection that was
  given up does.
-/

namespace Libble

open Att Gatt

namespace Link

variable {s t : Link} {label : Label} {code : Code}

/-! ### Code that releases something -/

/-- The code releases something; it does not call the event handler. -/
def Code.tidies : Code → Bool
  | destroyOp _ | callbacksRemove _ | callbacksFree _ | recordUnref _ | recordFree _ | attribUnref |
    callbacksDestroy | attribFree | attUnref | unregisterAll | cancelAll | cancelPending |
    attFree => true
  | _ => false

theorem tidies_callbacksDestroy (cb : Cb) : ∀ c ∈ callbacksDestroy cb, c.tidies = true := by
  intro c hc
  rcases List.mem_append.mp hc with hc | hc
  · obtain ⟨r, -, rfl⟩ := List.mem_map.mp hc
    rfl
  · obtain rfl := List.mem_singleton.mp hc
    rfl

/-- Code was put in front of the code still to be run, which tidies up, and nothing happened. -/
structure Tidied (s t : Link) : Prop where
  log : t.log = s.log
  app : t.app = s.app
  attached : t.attached = true → s.attached = true
  todo : ∃ codes, t.todo = codes ++ s.todo ∧ ∀ c ∈ codes, c.tidies = true

theorem Tidied.refl (s : Link) : Tidied s s := ⟨rfl, rfl, id, [], rfl, nofun⟩

theorem Tidied.push (s : Link) (codes : List Code) (h : ∀ c ∈ codes, c.tidies = true) :
    Tidied s (s.push codes) := ⟨rfl, rfl, id, codes, rfl, h⟩

theorem Tidied.free (h : Tidied s t) (o : Obj) : Tidied s (t.free o) :=
  ⟨h.log, h.app, h.attached, h.todo⟩

theorem Tidied.detach (h : Tidied s t) :
    Tidied s { t with attached := false, pendingReq := none } :=
  ⟨h.log, h.app, nofun, h.todo⟩

/-- **Code that releases something goes on with such code.** -/
theorem tidies_run (tidies : code.tidies = true) : Tidied s (s.run code) := by
  have moved : ∀ (ops : List Cb), ∀ c ∈ ops.map Code.callbacksRemove, c.tidies = true :=
    fun ops => List.forall_mem_map.mpr fun _ _ => rfl
  have destroyed : ∀ (ops : List Op), ∀ c ∈ ops.map Code.destroyOp, c.tidies = true :=
    fun ops => List.forall_mem_map.mpr fun _ _ => rfl
  cases code with
  | destroyOp op => exact .push s _ (moved _)
  | callbacksRemove cb =>
    simp only [run, callbacksRemove]
    split
    · exact ⟨rfl, rfl, id, _, rfl, tidies_callbacksDestroy cb⟩
    · exact ⟨rfl, rfl, id, [], rfl, by simp⟩
  | callbacksFree cb => exact ⟨rfl, rfl, id, [], rfl, by simp⟩
  | recordUnref r =>
    simp only [run, recordUnref]
    split
    · exact ⟨rfl, rfl, id, [], rfl, by simp⟩
    · exact ⟨rfl, rfl, id, _, rfl, by simp [Code.tidies]⟩
  | recordFree r => exact ⟨rfl, rfl, id, [], rfl, by simp⟩
  | attribUnref =>
    simp only [run, attribUnref]
    split
    · exact ⟨rfl, rfl, id, _, rfl, by simp [Code.tidies]⟩
    · exact ⟨rfl, rfl, id, [], rfl, by simp⟩
  | callbacksDestroy =>
    refine ⟨rfl, rfl, id, _, rfl, fun c hc => ?_⟩
    obtain ⟨cb, -, hc⟩ := List.mem_flatMap.mp hc
    exact tidies_callbacksDestroy cb c hc
  | attribFree => exact ⟨rfl, rfl, id, [], rfl, by simp⟩
  | attUnref =>
    simp only [run, attUnref]
    split
    · exact ⟨rfl, rfl, id, _, rfl, by simp [Code.tidies]⟩
    · exact ⟨rfl, rfl, id, [], rfl, by simp⟩
  | unregisterAll => exact ⟨rfl, rfl, id, _, rfl, moved _⟩
  | cancelAll =>
    exact ⟨rfl, rfl, id, _, rfl,
      List.forall_mem_append.mpr ⟨destroyed _, List.forall_mem_singleton.mpr rfl⟩⟩
  | cancelPending =>
    simp only [run, cancelPending]
    split
    · exact ⟨rfl, rfl, id, _, rfl, moved _⟩
    · exact .refl s
  | attFree =>
    rw [run]
    cases attached : s.attached with
    | true =>
      rw [Ledger.attFree_attached attached]
      have pushed := (Tidied.push s _ (destroyed s.pendingReq.toList)).free .chan
      exact pushed.detach.free .att
    | false =>
      rw [Ledger.attFree_detached attached]
      exact (Tidied.refl s).free .att
  | _ => cases tidies

/-! ### The channel -/

@[simp] theorem attached_wakeupWriter (s : Link) : s.wakeupWriter.attached = s.attached := by
  rw [wakeupWriter]
  split <;> rfl

@[simp] theorem attached_btAttSend (s : Link) (pdu : Pdu) (cb : Option Cb) :
    (s.btAttSend pdu cb).attached = s.attached := by
  simp only [btAttSend]
  split_ifs
  · exact attached_wakeupWriter _
  · exact attached_wakeupWriter _
  · rfl

@[simp] theorem attached_gAttribSend (s : Link) (owner : Nat) (proc : Proc) (pdu : Pdu) :
    (s.gAttribSend owner proc pdu).attached = s.attached := attached_btAttSend ..

@[simp] theorem attached_runCallback (s : Link) (op : Op) (opcode : UInt8) (pdu : Pdu) :
    (s.runCallback op opcode pdu).attached = s.attached := by
  have called := calledBack s op opcode pdu
  generalize s.runCallback op opcode pdu = t at called
  cases called with
  | nobody => rfl
  | @goesOn addr owner proc next req =>
    obtain ⟨faults, huse⟩ := useResult_eq (s := s) addr owner proc
    rw [huse]
    dsimp only
    split
    · exact attached_gAttribSend ..
    · exact attached_gAttribSend ..
  | @isOver addr owner proc events =>
    obtain ⟨faults, huse⟩ := useResult_eq (s := s) addr owner proc
    rw [huse]
    rfl

@[simp] theorem attached_notifyEnd (s : Link) (pdu : Pdu) (found : Bool) :
    (s.notifyEnd pdu found).attached = s.attached := by
  simp only [notifyEnd]
  split
  · exact attached_btAttSend ..
  · rfl

@[simp] theorem attached_notifyNext (s : Link) (entry : Option Nat) (pdu : Pdu) (found : Bool) :
    (s.notifyNext entry pdu found).attached = s.attached := by
  simp only [notifyNext]
  split
  · exact attached_notifyEnd ..
  · split
    · exact attached_notifyEnd ..
    · split <;> rfl

theorem attached_run (h : (s.run code).attached = true) : s.attached = true := by
  by_cases tidies : code.tidies = true
  · exact (tidies_run tidies).attached h
  · cases code with
    | discOp op =>
      exact (attached_runCallback (s.push [.destroyOp op]) op opErrorRsp []).symm.trans h
    | notifyNext entry pdu found => exact (attached_notifyNext ..).symm.trans h
    | notifyCheck entry pdu =>
      simp only [run] at h
      split at h
      · exact (attached_notifyEnd ..).symm.trans h
      · exact (attached_notifyNext ..).symm.trans h
    | emit source event => exact h
    | handler => exact h
    | freeRequest r => exact h
    | rspDone => exact h
    | discPending => exact h
    | discDone => exact h
    | chanFree => exact h
    | timeoutDone => exact h
    | _ => exact absurd rfl tidies

theorem attached_call (s : Link) (call : Call) : (s.call call).attached = s.attached := by
  cases call with
  | request handle =>
    simp only [Link.call, gattReadChar]
    split
    · exact attached_gAttribSend ..
    · exact attached_gAttribSend ..
  | _ => exact attached_gAttribSend ..

/-- A channel is not attached again. -/
theorem attached_of_step (h : s.step label = some t) (attached : t.attached = true) :
    s.attached = true := by
  cases label with
  | call call =>
    obtain ⟨-, -, -, rfl⟩ := step_call h
    exact (attached_call s call).symm.trans attached
  | listen =>
    obtain ⟨-, -, rfl⟩ := step_listen h
    simp only [listen] at attached
    split at attached <;> exact attached
  | drop =>
    obtain ⟨-, -, rfl⟩ := step_drop h
    exact attached
  | ret =>
    obtain ⟨todo, -, rfl⟩ := step_ret h
    exact attached
  | resume =>
    obtain ⟨code, todo, -, -, rfl⟩ := step_resume h
    exact attached_run (s := { s with todo := todo }) attached
  | canWrite => exact (step_canWrite h).1.2
  | canRead => exact (step_canRead h).1.2
  | hup => exact (step_hup h).1.2
  | timeout =>
    obtain ⟨op, -, dispatches, -⟩ := step_timeout h
    exact dispatches.2

/-! ### Giving up -/

/-- The reference of the handle is given back while none of the client's code is suspended, and on
a channel that is attached it is the last one. -/
def Clean (s : Link) : Label → Prop
  | .drop => s.todo = [] ∧ (s.attached = true → s.attribRef = 1)
  | _ => True

instance (s : Link) (label : Label) : Decidable (s.Clean label) :=
  match label with
  | .drop => inferInstanceAs (Decidable (_ ∧ _))
  | .call _ | .listen | .ret | .resume | .canWrite _ | .canRead .. | .hup | .timeout =>
    .isTrue trivial

/-- As long as the channel is attached the accounts are right. When the connection is given up only
code that releases something is left. -/
structure Parted (s : Link) : Prop where
  alive : s.app = true → s.attached = true → s.Alive
  tidies : s.app = false → ∀ c ∈ s.todo, c.tidies = true
  safe : s.app = false → s.attached = true → s.Safe

namespace Parted

theorem new (mtu : Mtu) : (Link.new mtu).Parted := ⟨fun _ _ => .new mtu, nofun, nofun⟩

/-- Nothing is dispatched to a connection that was given up. -/
theorem not_dispatches (h : s.Parted) (app : s.app = false) : ¬ s.Dispatches := by
  rintro ⟨idle, attached⟩
  cases h.safe app attached with
  | alive _ _ app' => exact nomatch app.symm.trans app'
  | parting _ _ todo => exact nomatch idle.symm.trans todo
  | closing closing => exact closing.todo_ne_nil idle
  | gone gone => exact nomatch attached.symm.trans gone.detached

/-- A connection that was given up only runs code that releases something. -/
theorem resumes (h : s.Parted) (app : s.app = false) (hstep : s.step label = some t) :
    ∃ code rest, s.todo = code :: rest ∧ code.tidies = true ∧
      t = { s with todo := rest }.run code := by
  cases label with
  | call => exact nomatch app.symm.trans (step_call hstep).2.1
  | listen => exact nomatch app.symm.trans (step_listen hstep).2.1
  | drop => exact nomatch app.symm.trans (step_drop hstep).2.1
  | ret =>
    obtain ⟨todo, htodo, -⟩ := step_ret hstep
    have := h.tidies app .handler (htodo ▸ List.mem_cons_self)
    cases this
  | resume =>
    obtain ⟨code, todo, htodo, -, rfl⟩ := step_resume hstep
    exact ⟨code, todo, htodo, h.tidies app code (htodo ▸ List.mem_cons_self), rfl⟩
  | canWrite => exact absurd (step_canWrite hstep).1 (h.not_dispatches app)
  | canRead => exact absurd (step_canRead hstep).1 (h.not_dispatches app)
  | hup => exact absurd (step_hup hstep).1 (h.not_dispatches app)
  | timeout =>
    obtain ⟨op, -, dispatches, -⟩ := step_timeout hstep
    exact absurd dispatches (h.not_dispatches app)

/-- **Nothing happens on a connection that was given up.** -/
theorem log_eq (h : s.Parted) (app : s.app = false) (hstep : s.step label = some t) :
    t.log = s.log := by
  obtain ⟨code, rest, -, tidies, rfl⟩ := h.resumes app hstep
  exact (tidies_run (s := { s with todo := rest }) tidies).log

/-- **The step rule.** -/
theorem step (h : s.Parted) (clean : s.Clean label) (hstep : s.step label = some t) :
    t.Parted := by
  cases app : s.app with
  | false =>
    refine ⟨fun app' => ?_, fun _ c hc => ?_, fun _ attached => ?_⟩
    · exact nomatch (app_of_step hstep app).symm.trans app'
    · obtain ⟨code, rest, htodo, tidies, rfl⟩ := h.resumes app hstep
      obtain ⟨codes, hcodes, more⟩ := (tidies_run (s := { s with todo := rest }) tidies).todo
      rw [hcodes] at hc
      rcases List.mem_append.mp hc with hc | hc
      · exact more c hc
      · exact h.tidies app c (htodo ▸ List.mem_cons_of_mem _ hc)
    · have attached' := attached_of_step hstep attached
      refine (h.safe app attached').step ?_ hstep
      cases label with
      | call call => cases call <;> first | exact attached' | trivial
      | drop => exact nomatch app.symm.trans (step_drop hstep).2.1
      | _ => trivial
  | true =>
    by_cases hdrop : label = .drop
    · subst hdrop
      obtain ⟨-, -, rfl⟩ := step_drop hstep
      obtain ⟨idle, last⟩ := clean
      have htodo : s.drop.todo = [.attribUnref] := congrArg ([Code.attribUnref] ++ ·) idle
      refine ⟨nofun, fun _ c hc => ?_, fun _ attached => ?_⟩
      · rw [htodo] at hc
        obtain rfl := List.mem_singleton.mp hc
        rfl
      · exact .parting ((h.alive app attached).balanced.drop app) rfl htodo (last attached)
          fun detached => absurd (attached.symm.trans detached) (by simp)
    · have app' := (app_eq_of_step hstep hdrop).trans app
      refine ⟨fun _ attached => ?_, fun given => absurd (given.symm.trans app') nofun,
        fun given => absurd (given.symm.trans app') nofun⟩
      have attached' := attached_of_step hstep attached
      have alive := h.alive app attached'
      have balanced := alive.balanced_step hstep fun _ _ => attached'
      exact alive.step hstep (Alive.pos_of_app balanced app') fun _ _ => attached'

end Parted

end Link

end Libble

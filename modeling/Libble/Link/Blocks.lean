import Libble.Foundation.EventBlocks
import Libble.Link.Issued

/-!
# Events in blocks

The events of an operation are put on the stack all at once by the callback that ends it, and what
the event handler does in between puts no further ones there. So at every time the events that wait
to be delivered are all about one operation or one notification, and those that were delivered
stand together.

## Main definitions

* `Link.delivered`: the events in the order in which the handler was called.
* `Link.Code.mute`: code that has no event delivered before the library returns.
* `Link.Adds`, `Link.Raises`: what is added to the log and to the code.
* `Link.Delivers`: what a step delivers.

## Main results

* `Link.delivers_of_step`: a step delivers the event on the stack, or none.
* `Link.Orderly.stacked`: the events that wait are all about one thing.
* `Link.Delivers.together`: the events of an operation that ends once stand together.
-/

namespace Libble

open Att Gatt

namespace Link

variable {s t u : Link} {code : Code} {codes rest : List Code} {o : Nat}

/-! ### What is delivered -/

/-- The event that an act delivers, and what it is about. -/
def Act.noted : Act → Option (Source × Event)
  | event source e => some (source, e)
  | _ => none

/-- The events in the order in which the event handler was called. -/
def delivered (s : Link) : List (Source × Event) := s.log.filterMap Act.noted

/-- What the event is about that the code delivers. -/
def Code.source : Code → Option Source
  | emit source _ => some source
  | _ => none

/-- The code has no event delivered before the library returns, and none pushed. -/
def Code.mute : Code → Bool
  | emit .. | discOp _ | discPending | notifyNext .. | notifyCheck .. => false
  | _ => true

/-- The act neither delivers an event nor is an answer. -/
def Act.mute : Act → Bool
  | event .. | answered .. => false
  | _ => true

/-- The events that wait are stacked. -/
abbrev Stack (codes : List Code) : Prop := Stacked Code.source (·.mute = true) codes

theorem Code.source_of_mute (h : code.mute = true) : code.source = none := by
  cases code <;> first | rfl | cases h

theorem Act.noted_of_mute {act : Act} (h : act.mute = true) : act.noted = none := by
  cases act <;> first | rfl | cases h

theorem events_eq (s : Link) (o : Nat) : s.events o = eventsAbout (.procedure o) s.delivered := by
  rw [events, delivered, eventsAbout, List.filterMap_filterMap]
  refine List.filterMap_congr fun act _ => ?_
  rcases act with _ | _ | _ | _ | ⟨_ | _, _⟩ | _ <;> simp [Act.eventOf, Act.noted]

/-! ### What is added -/

/-- The log gets mute acts, and the code still to be run gets code of a kind. -/
structure Adds (P : Code → Prop) (s t : Link) : Prop where
  log : ∃ acts, t.log = s.log ++ acts ∧ ∀ a ∈ acts, a.mute = true
  todo : ∃ codes, t.todo = codes ++ s.todo ∧ ∀ c ∈ codes, P c

/-- The code that is added is mute. -/
abbrev Mutes (s t : Link) : Prop := Adds (·.mute = true) s t

/-- The code that is added delivers no event itself. -/
abbrev Bares (s t : Link) : Prop := Adds (·.source = none) s t

/-- The log gets mute acts, and the code still to be run gets code in which events are stacked. -/
structure Raises (s t : Link) : Prop where
  log : ∃ acts, t.log = s.log ++ acts ∧ ∀ a ∈ acts, a.mute = true
  todo : ∃ codes, t.todo = codes ++ s.todo ∧ Stack codes

namespace Adds

variable {P Q : Code → Prop}

theorem refl (s : Link) : Adds P s s :=
  ⟨⟨[], (List.append_nil _).symm, nofun⟩, [], rfl, nofun⟩

theorem trans (h : Adds P s t) (h' : Adds P t u) : Adds P s u := by
  obtain ⟨acts, hlog, hacts⟩ := h.log
  obtain ⟨acts', hlog', hacts'⟩ := h'.log
  obtain ⟨codes, htodo, hcodes⟩ := h.todo
  obtain ⟨codes', htodo', hcodes'⟩ := h'.todo
  refine ⟨⟨acts ++ acts', ?_, List.forall_mem_append.mpr ⟨hacts, hacts'⟩⟩, codes' ++ codes, ?_,
    List.forall_mem_append.mpr ⟨hcodes', hcodes⟩⟩
  · rw [hlog', hlog, List.append_assoc]
  · rw [htodo', htodo, List.append_assoc]

theorem mono (h : Adds P s t) (imp : ∀ c, P c → Q c) : Adds Q s t := by
  obtain ⟨codes, htodo, hcodes⟩ := h.todo
  exact ⟨h.log, codes, htodo, fun c hc => imp c (hcodes c hc)⟩

theorem push (s : Link) (codes : List Code) (h : ∀ c ∈ codes, P c) : Adds P s (s.push codes) :=
  ⟨⟨[], (List.append_nil _).symm, nofun⟩, codes, rfl, h⟩

theorem record (s : Link) (acts : List Act) (h : ∀ a ∈ acts, a.mute = true) :
    Adds P s (s.record acts) := ⟨⟨acts, rfl, h⟩, [], rfl, nofun⟩

/-- The same log and code. -/
theorem of_eq (hlog : t.log = s.log) (htodo : t.todo = s.todo) : Adds P s t :=
  ⟨⟨[], hlog.trans (List.append_nil _).symm, nofun⟩, [], htodo, nofun⟩

theorem wakeupWriter (s : Link) : Adds P s s.wakeupWriter := by
  rw [Link.wakeupWriter]
  split
  · exact of_eq rfl rfl
  · exact refl s

theorem btAttSend (s : Link) (pdu : Pdu) (cb : Option Cb) : Adds P s (s.btAttSend pdu cb) := by
  simp only [Link.btAttSend]
  split_ifs
  · refine Adds.trans ?_ (wakeupWriter _)
    exact of_eq rfl rfl
  · refine Adds.trans ?_ (wakeupWriter _)
    exact of_eq rfl rfl
  · exact refl s

theorem gAttribSend (s : Link) (owner : Nat) (proc : Proc) (pdu : Pdu) :
    Adds P s (s.gAttribSend owner proc pdu) := by
  refine Adds.trans ?_ (btAttSend _ pdu _)
  exact of_eq rfl rfl

end Adds

theorem Adds.bares (h : Mutes s t) : Bares s t := h.mono fun _ => Code.source_of_mute

namespace Mutes

theorem notifyEnd (s : Link) (pdu : Pdu) (found : Bool) : Mutes s (s.notifyEnd pdu found) := by
  simp only [Link.notifyEnd]
  split
  · exact (Adds.btAttSend s _ none).trans (.push _ _ (by simp [Code.mute]))
  · exact .push s _ (by simp [Code.mute])

theorem callbacksDestroy (cb : Cb) : ∀ c ∈ Link.callbacksDestroy cb, c.mute = true :=
  List.forall_mem_append.mpr ⟨List.forall_mem_map.mpr fun _ _ => rfl, by simp [Code.mute]⟩

theorem destroyOps (ops : List Op) : ∀ c ∈ ops.map Code.destroyOp, c.mute = true :=
  List.forall_mem_map.mpr fun _ _ => rfl

theorem callbacksRemoves (cbs : List Cb) : ∀ c ∈ cbs.map Code.callbacksRemove, c.mute = true :=
  List.forall_mem_map.mpr fun _ _ => rfl

/-- Mute code pushes mute code. -/
theorem run (h : code.mute = true) : Mutes s (s.run code) := by
  cases code with
  | emit | discOp | discPending | notifyNext | notifyCheck => cases h
  | destroyOp op => exact .push s _ (callbacksRemoves _)
  | chanFree =>
    refine Adds.trans ?_ (.push _ [.unregisterAll, .attUnref] (by simp [Code.mute]))
    exact .of_eq rfl rfl
  | timeoutDone =>
    refine Adds.trans ?_ (.record _ [.ioShutdown] (by simp [Act.mute]))
    exact .of_eq rfl rfl
  | callbacksRemove cb =>
    simp only [Link.run, Link.callbacksRemove]
    split
    · exact (Adds.push s _ (callbacksDestroy cb)).trans (.of_eq rfl rfl)
    · exact .of_eq rfl rfl
  | recordUnref r =>
    simp only [Link.run, Link.recordUnref]
    split
    · exact .of_eq rfl rfl
    · refine Adds.trans ?_ (.push _ [.attribUnref, .recordFree r] (by simp [Code.mute]))
      exact .of_eq rfl rfl
  | attribUnref =>
    simp only [Link.run, Link.attribUnref]
    split
    · refine Adds.trans ?_ (.push _ [.attUnref, .callbacksDestroy, .attribFree]
        (by simp [Code.mute]))
      exact .of_eq rfl rfl
    · exact .of_eq rfl rfl
  | attUnref =>
    simp only [Link.run, Link.attUnref]
    split
    · refine Adds.trans ?_ (.push _ [.unregisterAll, .cancelAll, .attFree] (by simp [Code.mute]))
      exact .of_eq rfl rfl
    · exact .of_eq rfl rfl
  | callbacksDestroy =>
    refine (Adds.push s (s.callbacks.flatMap Link.callbacksDestroy) ?_).trans (.of_eq rfl rfl)
    rintro c hc
    obtain ⟨cb, -, hc⟩ := List.mem_flatMap.mp hc
    exact callbacksDestroy cb c hc
  | unregisterAll => exact (Adds.push s _ (callbacksRemoves _)).trans (.of_eq rfl rfl)
  | cancelAll =>
    refine (Adds.push s ((s.reqQueue ++ s.writeQueue).map .destroyOp ++ [.cancelPending]) ?_).trans
      (.of_eq rfl rfl)
    exact List.forall_mem_append.mpr ⟨destroyOps _, by simp [Code.mute]⟩
  | cancelPending =>
    simp only [Link.run, Link.cancelPending]
    split
    · exact (Adds.push s _ (callbacksRemoves _)).trans (.of_eq rfl rfl)
    · exact .refl s
  | attFree =>
    simp only [Link.run, Link.attFree]
    split
    · exact (Adds.push s _ (destroyOps _)).trans (.of_eq rfl rfl)
    · exact .of_eq rfl rfl
  | handler | rspDone | discDone | attribFree => exact .of_eq rfl rfl
  | freeRequest | callbacksFree | recordFree => exact .of_eq rfl rfl

/-- A call of the application. -/
theorem call (s : Link) (call : Call) : Mutes s (s.call call) := by
  have called : Mutes s (s.record [.called s.nextOwner call]) := .record s _ (by simp [Act.mute])
  cases call with
  | write handle data =>
    refine Adds.trans ?_ (Adds.gAttribSend _ _ _ _)
    exact called.trans (.of_eq rfl rfl)
  | discoverHand | discoverChar =>
    refine Adds.trans ?_ (Adds.gAttribSend _ _ _ _)
    exact called.trans (.of_eq rfl rfl)
  | request handle =>
    simp only [Link.call, gattReadChar]
    split
    · refine Adds.trans (Adds.trans ?_ (Adds.gAttribSend _ _ _ _)) (.of_eq rfl rfl)
      exact called.trans (.of_eq rfl rfl)
    · refine Adds.trans (Adds.trans ?_ (Adds.gAttribSend _ _ _ _)) (.push _ _ (by simp [Code.mute]))
      exact called.trans (.of_eq rfl rfl)

theorem listen (s : Link) : Mutes s s.listen := by
  simp only [Link.listen]
  split
  · exact .of_eq rfl rfl
  · exact .of_eq rfl rfl

end Mutes

/-! ### What is raised -/

namespace Raises

theorem of_bares (h : Bares s t) : Raises s t := by
  obtain ⟨codes, htodo, hcodes⟩ := h.todo
  exact ⟨h.log, codes, htodo, stacked_of_sourceless hcodes⟩

theorem after (h : Bares s t) (h' : Raises t u) : Raises s u := by
  obtain ⟨acts, hlog, hacts⟩ := h.log
  obtain ⟨acts', hlog', hacts'⟩ := h'.log
  obtain ⟨codes, htodo, hcodes⟩ := h.todo
  obtain ⟨codes', htodo', stack⟩ := h'.todo
  refine ⟨⟨acts ++ acts', ?_, List.forall_mem_append.mpr ⟨hacts, hacts'⟩⟩, codes' ++ codes, ?_,
    stack.push hcodes⟩
  · rw [hlog', hlog, List.append_assoc]
  · rw [htodo', htodo, List.append_assoc]

/-- Events about one thing are pushed, above code that is mute. -/
theorem push_events (s : Link) (source : Source) (events : List Event)
    (hmute : ∀ c ∈ codes, c.mute = true) :
    Raises s (s.push (events.map (.emit source) ++ codes)) := by
  refine ⟨⟨[], (List.append_nil _).symm, nofun⟩, _, rfl, ?_⟩
  refine Stacked.push ?_ fun c hc => Code.source_of_mute (hmute c hc)
  refine List.pairwise_of_forall_mem_list fun c hc lower hlower => ?_
  obtain ⟨e, -, rfl⟩ := List.mem_map.mp hc
  obtain ⟨e', -, rfl⟩ := List.mem_map.mp hlower
  exact .inr (.inr rfl)

/-- The callback of an operation is called. -/
theorem runCallback (s : Link) (op : Op) (opcode : UInt8) (pdu : Pdu) :
    Raises s (s.runCallback op opcode pdu) := by
  generalize htarget : s.runCallback op opcode pdu = t
  have called := calledBack s op opcode pdu
  rw [htarget] at called
  clear htarget
  cases called with
  | nobody => exact of_bares (.refl s)
  | @goesOn addr owner proc next req hcb hreact continues =>
    obtain ⟨faults, huse⟩ := useResult_eq (s := s) addr owner proc
    rw [huse]
    have used : Bares s { s with faults := faults } := .of_eq rfl rfl
    have sent := used.trans (.gAttribSend _ owner next req)
    dsimp only
    split_ifs
    · exact of_bares (sent.trans (.of_eq rfl rfl))
    · exact of_bares sent
  | @isOver addr owner proc events hcb hreact =>
    obtain ⟨faults, huse⟩ := useResult_eq (s := s) addr owner proc
    rw [huse]
    refine after (t := { s with faults := faults }) (.of_eq rfl rfl) (push_events _ _ _ ?_)
    split <;> simp [Code.mute]

/-- The callback is called above code that delivers no event. -/
theorem push_runCallback (s : Link) (codes : List Code) (h : ∀ c ∈ codes, c.source = none) (op : Op)
    (opcode : UInt8) (pdu : Pdu) : Raises s ((s.push codes).runCallback op opcode pdu) :=
  after (.push s codes h) (runCallback _ op opcode pdu)

theorem notifyNext (s : Link) (entry : Option Nat) (pdu : Pdu) (found : Bool) :
    Raises s (s.notifyNext entry pdu found) := by
  have ended : Raises s (s.notifyEnd pdu found) := of_bares (Mutes.notifyEnd s pdu found).bares
  simp only [Link.notifyNext]
  split
  · exact ended
  · split
    · exact ended
    · rename_i i _ cb _
      generalize (if i + 1 < s.notifyList.length then some (i + 1) else none) = next
      split
      · have pushed : Bares s ((s.push [.notifyCheck next pdu]).use (.callbacks cb.addr)) :=
          (Adds.push s [.notifyCheck next pdu] (by simp [Code.source])).trans (.of_eq rfl rfl)
        refine after pushed ?_
        rw [attribCallbackNotify, ← List.append_nil (List.map _ _)]
        exact push_events _ .notification _ (by simp)
      · exact of_bares (.push s _ (by simp [Code.source]))

/-- Code that is not mute and delivers no event itself. -/
theorem run (hsource : code.source = none) (hmute : ¬ code.mute = true) :
    Raises s (s.run code) := by
  cases code with
  | emit => cases hsource
  | discOp op => exact push_runCallback s [.destroyOp op] (by simp [Code.source]) ..
  | discPending =>
    refine of_bares (.push s _ ?_)
    rintro c hc
    obtain ⟨op, -, hc⟩ := List.mem_flatMap.mp hc
    simp only [List.mem_cons, List.not_mem_nil, or_false] at hc
    rcases hc with rfl | rfl
    · rfl
    · rfl
  | notifyNext entry pdu found => exact notifyNext s entry pdu found
  | notifyCheck entry pdu =>
    simp only [Link.run]
    split
    · exact of_bares (Mutes.notifyEnd s pdu true).bares
    · exact notifyNext s entry pdu true
  | _ => exact absurd rfl hmute

/-- `can_write_data` -/
theorem canWriteData (s : Link) (ret : Int) : Raises s (s.canWriteData ret) := by
  simp only [Link.canWriteData]
  split
  · exact of_bares (.of_eq rfl rfl)
  · rename_i op t hpick
    have picked : Bares s t := by
      rcases pickNextSendOp_cases hpick with ⟨ops, -, rfl⟩ | ⟨-, -, ops, -, rfl⟩
      · exact .of_eq rfl rfl
      · exact .of_eq rfl rfl
    have written : Bares s (if 0 < ret then t.record [.sent op.owner op.pdu] else t) := by
      split
      · exact picked.trans (.record _ [.sent op.owner op.pdu] (by simp [Act.mute]))
      · exact picked
    by_cases hret : ret = 0
    · rw [if_pos hret]
      exact after picked (push_runCallback t [.destroyOp op] (by simp [Code.source]) ..)
    · rw [if_neg hret]
      generalize (if 0 < ret then t.record [.sent op.owner op.pdu] else t) = v at written
      have destroyed := written.trans (.push v [.destroyOp op] (by simp [Code.source]))
      split
      · exact of_bares (written.trans (.of_eq rfl rfl))
      · exact of_bares (destroyed.trans (.of_eq rfl rfl))
      · exact of_bares destroyed

/-- `disconnect_cb` -/
theorem disconnectCb (s : Link) : Raises s s.disconnectCb := by
  refine of_bares ((Adds.push s ((s.reqQueue ++ s.writeQueue).map .discOp ++
    [.discPending, .chanFree]) ?_).trans (.of_eq rfl rfl))
  exact List.forall_mem_append.mpr ⟨List.forall_mem_map.mpr fun _ _ => rfl, by simp [Code.source]⟩

/-- `timeout_cb` -/
theorem timeoutCb (s : Link) (op : Op) : Raises s (s.timeoutCb op) :=
  after (t := { s with pendingReq := none }) (.of_eq rfl rfl)
    (push_runCallback _ [.destroyOp op, .timeoutDone] (by simp [Code.source]) ..)

end Raises

/-! ### What a step delivers -/

/-- The answer that a step reads, with the request that it belongs to. -/
def answering (s : Link) : Label → List Act
  | .canRead bytes _ _ =>
    if bytes ≠ [] ∧ getOpType (byteAt bytes 0) = .rsp then
      s.pendingReq.toList.map fun op => .answered op.owner op.pdu bytes
    else []
  | _ => []

/-- The answer that an act is to a request of an operation. -/
def Act.answerTo (o : Nat) : Act → Option Pdu
  | answered (some owner) _ rsp => if owner = o then some rsp else none
  | _ => none

/-- What a step delivers: nothing, and it pushes mute code; the event on the top of the stack; or
nothing, and it makes events where none wait. The acts `acts` are the answer that it reads. -/
inductive Delivers (s t : Link) (acts : List Act) : Prop
  | silent {rest : List Code} (hacts : acts = [])
      (htodo : s.todo = rest ∨ ∃ code, s.todo = code :: rest ∧ code.source = none)
      (mutes : Mutes { s with todo := rest } t)
  | event {source : Source} {event : Event} {rest : List Code} (hacts : acts = [])
      (htodo : s.todo = .emit source event :: rest) (hlog : t.log = s.log ++ [.event source event])
      (htodo' : t.todo = .handler :: rest)
  | raised {rest : List Code} {u : Link}
      (htodo : s.todo = rest ∨ ∃ code, s.todo = code :: rest ∧ code.source = none)
      (none : ∀ c ∈ rest, c.source = none) (read : Bares { s with todo := rest } u)
      (raises : Raises (u.record acts) t)

theorem record_nil (s : Link) : s.record [] = s := by
  rw [record, List.append_nil]

theorem noted_of_answering {label : Label} : ∀ act ∈ s.answering label, act.noted = none := by
  intro act hact
  simp only [answering] at hact
  split at hact
  · split at hact
    · obtain ⟨op, -, rfl⟩ := List.mem_map.mp hact
      rfl
    · cases hact
  · cases hact

/-- `can_read_data` -/
theorem delivers_canReadData (hidle : s.todo = []) (bytes : Pdu) (security : Int) (setOk : Bool) :
    Delivers s (s.canReadData bytes security setOk)
      (s.answering (.canRead bytes security setOk)) := by
  have none : ∀ c ∈ s.todo, c.source = none := by
    simp [hidle]
  cases bytes with
  | nil => exact .silent rfl (.inl rfl) (.refl s)
  | cons opcode pdu =>
    simp only [canReadData, handlePdu]
    generalize hu : ({ (s.record [.received (opcode :: pdu)]).push [.attUnref] with
      attRef := s.attRef + 1 } : Link) = u
    have read : Bares s u := by
      have received : Bares s (s.record [.received (opcode :: pdu)]) :=
        .record s _ (by simp [Act.mute])
      rw [← hu]
      exact (received.trans (.push _ [.attUnref] (by simp [Code.source]))).trans (.of_eq rfl rfl)
    have hpending : u.pendingReq = s.pendingReq := by rw [← hu]; rfl
    have raised : ∀ {v}, getOpType opcode ≠ .rsp → Raises u v →
        Delivers s v (s.answering (.canRead (opcode :: pdu) security setOk)) := by
      intro v hne raises
      have hacts : s.answering (.canRead (opcode :: pdu) security setOk) = [] :=
        if_neg fun h => hne h.2
      rw [hacts]
      exact .raised (.inl rfl) none read ((record_nil u).symm ▸ raises)
    have shutdown : Raises u (u.record [.ioShutdown]) :=
      .of_bares (.record u _ (by simp [Act.mute]))
    have notified : ∀ v : Link, Raises v (v.handleNotify (opcode :: pdu)) := fun v =>
      .of_bares ((Adds.push v [.notifyNext _ (opcode :: pdu) false] (by simp [Code.source])).trans
        (.of_eq rfl rfl))
    split
    · rename_i type
      refine .raised (.inl rfl) none read ?_
      have hacts : s.answering (.canRead (opcode :: pdu) security setOk) =
          u.pendingReq.toList.map fun op => .answered op.owner op.pdu (opcode :: pdu) := by
        rw [hpending]
        exact if_pos ⟨List.cons_ne_nil _ _, type⟩
      rw [hacts, handleRsp]
      split
      · rename_i hp
        rw [hp, Option.toList_none, List.map_nil, record_nil]
        exact shutdown
      · rename_i op hp
        rw [hp, Option.toList_some, List.map_singleton]
        dsimp only
        split
        · exact .of_bares (.of_eq rfl rfl)
        · exact .push_runCallback _ [.destroyOp op, .rspDone] (by simp [Code.source]) ..
    · rename_i type
      exact raised (by simp [type]) shutdown
    · rename_i type
      split
      · exact raised (by simp [type]) shutdown
      · have begun : Bares u { u with inReq := true } := .of_eq rfl rfl
        subst hu
        exact raised (by simp [type]) (.after begun (notified _))
    · rename_i hne _ _
      exact raised hne (notified u)

/-- **What a step delivers.** -/
theorem delivers_of_step {label : Label} (stack : Stack s.todo) (hstep : s.step label = some t) :
    Delivers s t (s.answering label) := by
  have outside : ∀ {v}, s.todo = [] → Raises s v → Delivers s v [] := by
    intro v hidle raises
    refine .raised (.inl rfl) ?_ (.refl s) ((record_nil s).symm ▸ raises)
    rw [hidle]
    nofun
  cases label with
  | call call =>
    obtain ⟨-, -, -, rfl⟩ := step_call hstep
    exact .silent rfl (.inl rfl) (.call s call)
  | listen =>
    obtain ⟨-, -, rfl⟩ := step_listen hstep
    exact .silent rfl (.inl rfl) (.listen s)
  | drop =>
    obtain ⟨-, -, rfl⟩ := step_drop hstep
    refine .silent rfl (.inl rfl) ((Adds.push s [.attribUnref] ?_).trans (.of_eq rfl rfl))
    simp [Code.mute]
  | ret =>
    obtain ⟨todo, htodo, rfl⟩ := step_ret hstep
    exact .silent rfl (.inr ⟨_, htodo, rfl⟩) (.refl _)
  | resume =>
    obtain ⟨code, todo, htodo, -, rfl⟩ := step_resume hstep
    cases hsource : code.source with
    | some source =>
      cases code with
      | emit source event => exact .event rfl htodo rfl rfl
      | _ => cases hsource
    | none =>
      by_cases hmute : code.mute = true
      · exact .silent rfl (.inr ⟨code, htodo, hsource⟩) (.run hmute)
      · have stack : Stack (code :: todo) := htodo ▸ stack
        exact .raised (.inr ⟨code, htodo, hsource⟩) (stack.none_below hsource hmute) (.refl _)
          ((record_nil _).symm ▸ .run hsource hmute)
  | canWrite ret =>
    obtain ⟨⟨hidle, -⟩, -, rfl⟩ := step_canWrite hstep
    exact outside hidle (.canWriteData s ret)
  | canRead bytes security setOk =>
    obtain ⟨⟨hidle, -⟩, -, rfl⟩ := step_canRead hstep
    exact delivers_canReadData hidle bytes security setOk
  | hup =>
    obtain ⟨⟨hidle, -⟩, rfl⟩ := step_hup hstep
    exact outside hidle (.disconnectCb s)
  | timeout =>
    obtain ⟨op, -, ⟨hidle, -⟩, rfl⟩ := step_timeout hstep
    exact outside hidle (.timeoutCb s op)

theorem answers_eq (s : Link) (o : Nat) : s.answers o = s.log.filterMap (Act.answerTo o) := by
  rw [answers, dialogue, List.filter_filterMap, List.filterMap_filterMap]
  refine List.filterMap_congr fun act _ => ?_
  rcases act with _ | ⟨_ | owner, _⟩ | _ | ⟨_ | owner, _, _⟩ | _ | _ <;>
    simp only [Act.exchange, Act.answerTo, Option.filter_none, Option.bind_none, Option.filter_some,
      Exchange.owner]
  · split <;> rfl
  · rename_i owner _
    by_cases howner : owner = o
    · simp [howner]
    · simp [howner]

theorem noted_of_mutes {acts : List Act} (h : ∀ a ∈ acts, a.mute = true) :
    acts.filterMap Act.noted = [] :=
  List.filterMap_eq_nil_iff.mpr fun a ha => Act.noted_of_mute (h a ha)

theorem answerTo_of_mutes {acts : List Act} (h : ∀ a ∈ acts, a.mute = true) :
    acts.filterMap (Act.answerTo o) = [] := by
  refine List.filterMap_eq_nil_iff.mpr fun a ha => ?_
  cases a <;> first | rfl | cases h _ ha

namespace Delivers

variable {acts : List Act}

/-- The events that wait are all about one thing. -/
theorem stack (h : Delivers s t acts) (stack : Stack s.todo) : Stack t.todo := by
  have popped : ∀ {rest}, (s.todo = rest ∨ ∃ code, s.todo = code :: rest ∧ code.source = none) →
      Stack rest := by
    rintro rest (rfl | ⟨code, htodo, -⟩)
    · exact stack
    · exact Stacked.tail (htodo ▸ stack)
  cases h with
  | silent _ htodo mutes =>
    obtain ⟨codes, heq, hcodes⟩ := mutes.todo
    rw [heq]
    exact (popped htodo).push_mute hcodes
  | event _ htodo _ htodo' =>
    rw [htodo']
    have handler : ∀ c ∈ [Code.handler], c.mute = true := by simp [Code.mute]
    exact (Stacked.tail (htodo ▸ stack)).push_mute handler
  | raised htodo none read raises =>
    obtain ⟨codes, heq, hcodes⟩ := read.todo
    obtain ⟨codes', heq', stack'⟩ := raises.todo
    rw [heq', record, heq]
    exact stack'.push (List.forall_mem_append.mpr ⟨hcodes, none⟩)

/-- The log is what it was, with the answer that was read and the event that was delivered. -/
theorem log_eq (h : Delivers s t acts) (noted : ∀ act ∈ acts, act.noted = none) (o : Nat) :
    t.answers o = s.answers o ++ acts.filterMap (Act.answerTo o) ∧
      (t.delivered = s.delivered ∨ ∃ source event rest, s.todo = .emit source event :: rest ∧
        t.todo = .handler :: rest ∧ t.delivered = s.delivered ++ [(source, event)]) := by
  rw [answers_eq, answers_eq]
  cases h with
  | silent hacts _ mutes =>
    obtain ⟨more, hlog, hmore⟩ := mutes.log
    rw [delivered, delivered, hacts, hlog, List.filterMap_append, List.filterMap_append,
      answerTo_of_mutes hmore, noted_of_mutes hmore]
    exact ⟨rfl, .inl (List.append_nil _)⟩
  | event hacts htodo hlog htodo' =>
    rw [delivered, delivered, hacts, hlog, List.filterMap_append, List.filterMap_append]
    exact ⟨rfl, .inr ⟨_, _, _, htodo, htodo', rfl⟩⟩
  | raised _ _ read raises =>
    obtain ⟨more, hlog, hmore⟩ := read.log
    obtain ⟨more', hlog', hmore'⟩ := raises.log
    have hnoted : acts.filterMap Act.noted = [] := List.filterMap_eq_nil_iff.mpr noted
    rw [delivered, delivered, hlog', record, hlog]
    simp only [List.filterMap_append, answerTo_of_mutes hmore, answerTo_of_mutes hmore',
      noted_of_mutes hmore, noted_of_mutes hmore', hnoted, List.append_nil, true_or, and_self]

/-- **The events of an operation that ends once stand together**: they do so after the step if they
do before it and the operation has nothing new to tell, or had told nothing. -/
theorem together (h : Delivers s t acts) (noted : ∀ act ∈ acts, act.noted = none)
    (stack : Stack s.todo) (once : s.told o = [] ∨ t.told o = s.told o)
    (together : Together (.procedure o) (s.told o = s.events o) s.delivered) :
    Together (.procedure o) (t.told o = t.events o) t.delivered := by
  rcases (h.log_eq noted o).2 with hdelivered | ⟨source, event, rest, htodo, htodo', hdelivered⟩
  · have hevents : t.events o = s.events o := by rw [events_eq, events_eq, hdelivered]
    rw [hdelivered, hevents]
    rcases once with hnil | heq
    · refine .of_none _ ?_
      rw [← events_eq]
      exact (List.append_eq_nil_iff.mp hnil).1
    · exact together.mono fun hclosed => heq.trans hclosed
  · rw [hdelivered]
    by_cases hsource : source = .procedure o
    · subst hsource
      refine together.concat_self (fun hclosed => ?_) event _
      -- the event that is delivered has not been told before
      have hlength := congrArg List.length hclosed
      rw [told, ← events, htodo] at hlength
      simp [Code.eventOf] at hlength
    · have below := (htodo ▸ stack : Stack (.emit source event :: rest)).same_below rfl
        (by simp [Code.mute])
        (Ne.symm hsource)
      have hnone : ∀ c ∈ rest, c.eventOf o = none := by
        intro c hc
        cases c with
        | emit source' event' =>
          cases source' with
          | procedure owner =>
            have hne : owner ≠ o := fun heq => below _ hc (by rw [heq]; rfl)
            exact if_neg hne
          | notification => rfl
        | _ => rfl
      have hrest : rest.filterMap (Code.eventOf o) = [] := List.filterMap_eq_nil_iff.mpr hnone
      have hclosed : s.told o = s.events o := by
        have hemit : Code.eventOf o (.emit source event) = none := by
          cases source with
          | procedure owner => exact if_neg fun heq => hsource (by rw [heq])
          | notification => rfl
        rw [told, htodo, List.filterMap_cons_none hemit, hrest, List.append_nil, events]
      refine (together.concat_other hclosed event hsource).mono fun _ => ?_
      rw [told, htodo', List.filterMap_cons_none rfl, hrest, List.append_nil, events]

end Delivers

end Link

end Libble

import Libble.Link.Bounds
import Libble.Link.Alive

/-!
# Notifications

`lble_listen` subscribes `events_handler` to the notifications of the peer; every call adds one more
subscription, and a notification goes through `events_handler` for each of them. With one
subscription every PDU that arrives afterwards goes through `events_handler` once, in the order of
arrival, and a value that was read goes through it as a notification made up by `char_read_cb`. The
handler is told the length in 8 bits, and `events_handler` does not look whether a PDU is long
enough for a handle; so the events are faithful for a range of lengths only.

The connection may be given up or lost and its requests may time out; what is proved about the
subscription holds of every run.

## Main definitions

* `Link.toldIn`, `Link.arrivedIn`: the events about notifications, and the PDUs that have arrived.
* `Link.Quiet`: nothing happens to notifications.
* `Link.Hearing`: what is still owed to the event handler.
* `Link.NotificationFaithful`, `Link.ValueFaithful`: the event tells what there is to tell.

## Main results

* `Link.told_of_once`: every PDU is handled once unless `handle_notify` goes on from a callback to
  a further subscription.
* `Link.once_of_findsOne`: it does not if every notification finds at most one subscription when it
  arrives.
* `Link.told_of_run`: with one subscription every PDU is handled once.
* `Link.device_faithful_iff`: which events are faithful.
* `Link.notified_once`: when a notification leads to one event.
-/

namespace Libble

open Att Gatt

namespace Link

variable {s t u : Link} {rest : List Code}

/-! ### What is told -/

/-- The event handler is told about a notification. -/
def Act.told : Act → Option Event
  | event .notification e => some e
  | _ => none

/-- A PDU arrives. -/
def Act.arrived : Act → Option Pdu
  | received pdu => some pdu
  | _ => none

/-- What the event handler has been told about notifications. -/
def toldIn (acts : List Act) : List Event := acts.filterMap Act.told

/-- The PDUs that have arrived. -/
def arrivedIn (acts : List Act) : List Pdu := acts.filterMap Act.arrived

/-- What `events_handler` makes of a PDU. -/
def handled (pdu : Pdu) : List Event := eventsHandler pdu (UInt16.ofNat pdu.length)

/-- The events about notifications that suspended code will lead to. -/
def Code.notices : Code → List Event
  | emit .notification e => [e]
  | _ => []

/-- Nothing is told about notifications, and none arrives. -/
def Act.quiet : Act → Bool
  | event .notification _ | received _ => false
  | _ => true

/-- The code neither has to do with notifications nor ends the subscriptions. -/
def Code.quiet : Code → Bool
  | emit .notification _ | notifyNext .. | notifyCheck .. => false
  | chanFree | unregisterAll | attFree => false
  | _ => true

/-- The code does not go on from one subscription to the next. -/
def Code.solo : Code → Bool
  | notifyCheck (some _) _ => false
  | _ => true

/-- The code does not hand a notification to a subscription. -/
def Code.spent : Code → Bool
  | notifyNext (some _) pdu _ => byteAt pdu 0 ≠ opHandleNfy
  | _ => true

theorem toldIn_of_quiet {acts : List Act} (h : ∀ a ∈ acts, a.quiet = true) : toldIn acts = [] := by
  refine List.filterMap_eq_nil_iff.mpr fun act hact => ?_
  rcases act with _ | _ | _ | _ | ⟨_ | _, _⟩ | _ <;> first | rfl | cases h _ hact

theorem arrivedIn_of_quiet {acts : List Act} (h : ∀ a ∈ acts, a.quiet = true) :
    arrivedIn acts = [] := by
  refine List.filterMap_eq_nil_iff.mpr fun act hact => ?_
  cases act <;> first | rfl | cases h _ hact

theorem Code.notices_of_quiet {code : Code} (h : code.quiet = true) : code.notices = [] := by
  cases code with
  | emit source event => cases source <;> first | rfl | cases h
  | _ => rfl

theorem Code.solo_of_quiet {code : Code} (h : code.quiet = true) : code.solo = true := by
  cases code <;> first | rfl | cases h

theorem Code.spent_of_quiet {code : Code} (h : code.quiet = true) : code.spent = true := by
  cases code <;> first | rfl | cases h

/-! ### Nothing about notifications -/

/-- Nothing happens to notifications. -/
structure Quiet (s t : Link) : Prop where
  notifyList_eq : t.notifyList = s.notifyList
  attached_eq : t.attached = s.attached
  log : ∃ acts, t.log = s.log ++ acts ∧ ∀ a ∈ acts, a.quiet = true
  todo : ∃ codes, t.todo = codes ++ s.todo ∧ ∀ c ∈ codes, c.quiet = true

namespace Quiet

theorem refl (s : Link) : Quiet s s :=
  ⟨rfl, rfl, ⟨[], (List.append_nil _).symm, nofun⟩, [], rfl, nofun⟩

theorem trans (h : Quiet s t) (h' : Quiet t u) : Quiet s u := by
  obtain ⟨acts, hlog, hacts⟩ := h.log
  obtain ⟨acts', hlog', hacts'⟩ := h'.log
  obtain ⟨codes, htodo, hcodes⟩ := h.todo
  obtain ⟨codes', htodo', hcodes'⟩ := h'.todo
  refine ⟨h'.notifyList_eq.trans h.notifyList_eq, h'.attached_eq.trans h.attached_eq,
    ⟨acts ++ acts', ?_, ?_⟩, codes' ++ codes, ?_, ?_⟩
  · rw [hlog', hlog, List.append_assoc]
  · exact List.forall_mem_append.mpr ⟨hacts, hacts'⟩
  · rw [htodo', htodo, List.append_assoc]
  · exact List.forall_mem_append.mpr ⟨hcodes', hcodes⟩

theorem push (s : Link) (codes : List Code) (h : ∀ c ∈ codes, c.quiet = true) :
    Quiet s (s.push codes) := { refl s with todo := ⟨codes, rfl, h⟩ }

theorem record (s : Link) (acts : List Act) (h : ∀ a ∈ acts, a.quiet = true) :
    Quiet s (s.record acts) := { refl s with log := ⟨acts, rfl, h⟩ }

/-- The same subscriptions, channel, log and code. -/
theorem of_eq (hlist : t.notifyList = s.notifyList) (hattached : t.attached = s.attached)
    (hlog : t.log = s.log) (htodo : t.todo = s.todo) : Quiet s t :=
  ⟨hlist, hattached, ⟨[], hlog.trans (List.append_nil _).symm, nofun⟩, [], htodo, nofun⟩

theorem wakeupWriter (s : Link) : Quiet s s.wakeupWriter := by
  rw [Link.wakeupWriter]
  split
  · exact of_eq rfl rfl rfl rfl
  · exact refl s

theorem btAttSend (s : Link) (pdu : Pdu) (cb : Option Cb) : Quiet s (s.btAttSend pdu cb) := by
  simp only [Link.btAttSend]
  split_ifs
  · refine Quiet.trans ?_ (wakeupWriter _)
    exact of_eq rfl rfl rfl rfl
  · refine Quiet.trans ?_ (wakeupWriter _)
    exact of_eq rfl rfl rfl rfl
  · exact refl s

theorem gAttribSend (s : Link) (owner : Nat) (proc : Proc) (pdu : Pdu) :
    Quiet s (s.gAttribSend owner proc pdu) := by
  refine Quiet.trans ?_ (btAttSend _ pdu _)
  exact of_eq rfl rfl rfl rfl

theorem notifyEnd (s : Link) (pdu : Pdu) (found : Bool) : Quiet s (s.notifyEnd pdu found) := by
  simp only [Link.notifyEnd]
  split
  · exact (btAttSend s _ none).trans (push _ _ (by simp [Code.quiet]))
  · exact push s _ (by simp [Code.quiet])

theorem runCallback (s : Link) (op : Op) (opcode : UInt8) (pdu : Pdu) :
    Quiet s (s.runCallback op opcode pdu) := by
  generalize htarget : s.runCallback op opcode pdu = t
  have called := calledBack s op opcode pdu
  rw [htarget] at called
  clear htarget
  cases called with
  | nobody => exact refl s
  | @goesOn addr owner proc next req hcb hreact continues =>
    obtain ⟨faults, huse⟩ := useResult_eq (s := s) addr owner proc
    rw [huse]
    have sent := (of_eq rfl rfl rfl rfl : Quiet s { s with faults := faults }).trans
      (gAttribSend _ owner next req)
    dsimp only
    split_ifs
    · exact sent.trans (of_eq rfl rfl rfl rfl)
    · exact sent
  | @isOver addr owner proc events hcb hreact =>
    obtain ⟨faults, huse⟩ := useResult_eq (s := s) addr owner proc
    rw [huse]
    refine (of_eq rfl rfl rfl rfl : Quiet s { s with faults := faults }).trans (push _ _ ?_)
    refine List.forall_mem_append.mpr ⟨List.forall_mem_map.mpr fun _ _ => rfl, ?_⟩
    split <;> simp [Code.quiet]

theorem callbacksDestroy (cb : Cb) : ∀ c ∈ Link.callbacksDestroy cb, c.quiet = true := by
  exact List.forall_mem_append.mpr ⟨List.forall_mem_map.mpr fun _ _ => rfl, by simp [Code.quiet]⟩

theorem destroyOps (ops : List Op) : ∀ c ∈ ops.map Code.destroyOp, c.quiet = true :=
  List.forall_mem_map.mpr fun _ _ => rfl

theorem callbacksRemoves (cbs : List Cb) : ∀ c ∈ cbs.map Code.callbacksRemove, c.quiet = true :=
  List.forall_mem_map.mpr fun _ _ => rfl

/-- Code that has nothing to do with notifications. -/
theorem run {code : Code} (quiet : code.quiet = true) (more : code = .attUnref → s.attRef ≠ 1) :
    Quiet s (s.run code) := by
  cases code with
  | emit source event =>
    cases source with
    | notification => cases quiet
    | procedure owner =>
      exact (record s _ (by simp [Act.quiet])).trans (push _ _ (by simp [Code.quiet]))
  | destroyOp op => exact push s _ (callbacksRemoves _)
  | discOp op => exact (push s [.destroyOp op] (by simp [Code.quiet])).trans (runCallback _ ..)
  | discPending =>
    refine push s _ ?_
    rintro _ hc
    obtain ⟨op, -, hc⟩ := List.mem_flatMap.mp hc
    simp only [List.mem_cons, List.not_mem_nil, or_false] at hc
    rcases hc with rfl | rfl
    · rfl
    · rfl
  | timeoutDone =>
    refine Quiet.trans ?_ (record _ [.ioShutdown] (by simp [Act.quiet]))
    exact of_eq rfl rfl rfl rfl
  | callbacksRemove cb =>
    simp only [Link.run, Link.callbacksRemove]
    split
    · exact (push s _ (callbacksDestroy cb)).trans (of_eq rfl rfl rfl rfl)
    · exact of_eq rfl rfl rfl rfl
  | recordUnref r =>
    simp only [Link.run, Link.recordUnref]
    split
    · exact of_eq rfl rfl rfl rfl
    · refine Quiet.trans ?_ (push _ [.attribUnref, .recordFree r] (by simp [Code.quiet]))
      exact of_eq rfl rfl rfl rfl
  | attribUnref =>
    simp only [Link.run, Link.attribUnref]
    split
    · refine Quiet.trans ?_ (push _ [.attUnref, .callbacksDestroy, .attribFree]
        (by simp [Code.quiet]))
      exact of_eq rfl rfl rfl rfl
    · exact of_eq rfl rfl rfl rfl
  | callbacksDestroy =>
    refine (push s (s.callbacks.flatMap Link.callbacksDestroy) ?_).trans (of_eq rfl rfl rfl rfl)
    rintro _ hc
    obtain ⟨cb, -, hc⟩ := List.mem_flatMap.mp hc
    exact callbacksDestroy cb _ hc
  | attUnref =>
    rw [Link.run, Ledger.attUnref_more (more rfl)]
    exact of_eq rfl rfl rfl rfl
  | cancelAll =>
    refine (push s ((s.reqQueue ++ s.writeQueue).map .destroyOp ++ [.cancelPending]) ?_).trans
      (of_eq rfl rfl rfl rfl)
    exact List.forall_mem_append.mpr ⟨destroyOps _, by simp [Code.quiet]⟩
  | cancelPending =>
    simp only [Link.run, Link.cancelPending]
    split
    · exact (push s _ (callbacksRemoves _)).trans (of_eq rfl rfl rfl rfl)
    · exact refl s
  | notifyNext | notifyCheck | chanFree | unregisterAll | attFree => cases quiet
  | rspDone | discDone | attribFree => exact of_eq rfl rfl rfl rfl
  | handler | freeRequest | callbacksFree | recordFree => exact of_eq rfl rfl rfl rfl

/-- A call of the application. -/
theorem call (s : Link) (call : Call) : Quiet s (s.call call) := by
  have called : Quiet s (s.record [.called s.nextOwner call]) := record s _ (by simp [Act.quiet])
  cases call with
  | write handle data =>
    refine Quiet.trans ?_ (gAttribSend _ _ _ _)
    exact called.trans (of_eq rfl rfl rfl rfl)
  | discoverHand | discoverChar =>
    refine Quiet.trans ?_ (gAttribSend _ _ _ _)
    exact called.trans (of_eq rfl rfl rfl rfl)
  | request handle =>
    simp only [Link.call, gattReadChar]
    split
    · refine Quiet.trans (Quiet.trans ?_ (gAttribSend _ _ _ _)) (of_eq rfl rfl rfl rfl)
      exact called.trans (of_eq rfl rfl rfl rfl)
    · refine Quiet.trans (Quiet.trans ?_ (gAttribSend _ _ _ _)) (push _ _ (by simp [Code.quiet]))
      exact called.trans (of_eq rfl rfl rfl rfl)

/-- `can_write_data` -/
theorem canWriteData (s : Link) (ret : Int) : Quiet s (s.canWriteData ret) := by
  simp only [Link.canWriteData]
  split
  · exact of_eq rfl rfl rfl rfl
  · rename_i op t hpick
    have picked : Quiet s t := by
      rcases pickNextSendOp_cases hpick with ⟨ops, -, rfl⟩ | ⟨-, -, ops, -, rfl⟩
      · exact of_eq rfl rfl rfl rfl
      · exact of_eq rfl rfl rfl rfl
    have written : Quiet s (if 0 < ret then t.record [.sent op.owner op.pdu] else t) := by
      split
      · exact picked.trans (record _ [.sent op.owner op.pdu] (by simp [Act.quiet]))
      · exact picked
    by_cases hret : ret = 0
    · rw [if_pos hret]
      exact picked.trans
        ((push t [.destroyOp op] (by simp [Code.quiet])).trans (runCallback _ ..))
    · rw [if_neg hret]
      generalize (if 0 < ret then t.record [.sent op.owner op.pdu] else t) = v at written
      split
      · exact written.trans (of_eq rfl rfl rfl rfl)
      · refine (written.trans (push _ [.destroyOp op] (by simp [Code.quiet]))).trans ?_
        exact of_eq rfl rfl rfl rfl
      · exact written.trans (push _ [.destroyOp op] (by simp [Code.quiet]))

/-- `handle_rsp` -/
theorem handleRsp (s : Link) (opcode : UInt8) (pdu : Pdu) (security : Int) (setOk : Bool) :
    Quiet s (s.handleRsp opcode pdu security setOk) := by
  simp only [Link.handleRsp]
  split
  · exact record s _ (by simp [Act.quiet])
  · rename_i op hp
    refine (record s [.answered op.owner op.pdu (opcode :: pdu)] (by simp [Act.quiet])).trans ?_
    split
    · exact of_eq rfl rfl rfl rfl
    · exact (push _ [.destroyOp op, .rspDone] (by simp [Code.quiet])).trans (runCallback _ op _ _)

/-- `timeout_cb` -/
theorem timeoutCb (s : Link) (op : Op) : Quiet s (s.timeoutCb op) := by
  refine Quiet.trans ?_ (runCallback _ op _ _)
  exact (of_eq rfl rfl rfl rfl : Quiet s { s with pendingReq := none }).trans
    (push _ [.destroyOp op, .timeoutDone] (by simp [Code.quiet]))

end Quiet

/-- What `can_read_data` does with a PDU: it is about a response or an error, or it is handed to
the subscriptions. -/
theorem canReadData_cases (s : Link) (opcode : UInt8) (pdu : Pdu) (security : Int) (setOk : Bool) :
    ∃ u, u.notifyList = s.notifyList ∧ u.attached = s.attached ∧
      u.log = s.log ++ [.received (opcode :: pdu)] ∧ u.todo = .attUnref :: s.todo ∧
      ((handled (opcode :: pdu) = [] ∧ Quiet u (s.canReadData (opcode :: pdu) security setOk)) ∨
        s.canReadData (opcode :: pdu) security setOk = u.handleNotify (opcode :: pdu)) := by
  have ignored : ∀ type, type ≠ .nfy → getOpType opcode = type → handled (opcode :: pdu) = [] := by
    rintro type hne rfl
    refine if_neg fun hop => hne ?_
    have hop : opcode = opHandleNfy := hop
    rw [hop]
    rfl
  simp only [canReadData, handlePdu]
  generalize hv : ({ (s.record [.received (opcode :: pdu)]).push [.attUnref] with
    attRef := s.attRef + 1 } : Link) = v
  have hlist : v.notifyList = s.notifyList := hv ▸ rfl
  have hattached : v.attached = s.attached := hv ▸ rfl
  have hlog : v.log = s.log ++ [.received (opcode :: pdu)] := hv ▸ rfl
  have htodo : v.todo = .attUnref :: s.todo := hv ▸ rfl
  have shutdown : Quiet v (v.record [.ioShutdown]) := .record v _ (by simp [Act.quiet])
  split
  · rename_i type
    have apart := ignored .rsp (by simp) type
    exact ⟨v, hlist, hattached, hlog, htodo, .inl ⟨apart, .handleRsp ..⟩⟩
  · rename_i type
    exact ⟨v, hlist, hattached, hlog, htodo, .inl ⟨ignored .conf (by simp) type, shutdown⟩⟩
  · rename_i type
    split
    · have apart := ignored .req (by simp) type
      exact ⟨v, hlist, hattached, hlog, htodo, .inl ⟨apart, shutdown⟩⟩
    · exact ⟨{ v with inReq := true }, hlist, hattached, hlog, htodo, .inr (by rw [← hv])⟩
  · exact ⟨v, hlist, hattached, hlog, htodo, .inr rfl⟩

/-! ### What is owed -/

/-- The channel is detached or will be before the library returns. -/
def Leaving (s : Link) : Prop := s.attached = true → .attFree ∈ s.todo

/-- What a PDU that arrives has to lead to. -/
def due (subscribed : Bool) (pdu : Pdu) : List Event := if subscribed then handled pdu else []

/-- There has been a subscription in `subscribed`. What has been told about notifications since
`base` happened, what is `owed` first and what the suspended code will tell is what the PDUs that
have arrived since then lead to. -/
structure Hearing (subscribed : Bool) (base : List Act) (owed : List Event) (s : Link) : Prop where
  unsubscribed : subscribed = false → s.notifyList = []
  entries : subscribed = true → s.notifyList = [] → s.Leaving
  leaving : .unregisterAll ∈ s.todo → s.Leaving
  detached : .chanFree ∈ s.todo → s.attached = false
  spent : ∀ c ∈ s.todo, c.spent = true
  balance : ∃ acts, s.log = base ++ acts ∧
    toldIn acts ++ owed ++ s.todo.flatMap Code.notices = (arrivedIn acts).flatMap (due subscribed)

namespace Hearing

variable {subscribed : Bool} {base : List Act} {owed : List Event}

theorem new (mtu : Mtu) : (Link.new mtu).Hearing false [] [] :=
  ⟨fun _ => rfl, nofun, nofun, nofun, nofun, [], rfl, rfl⟩

/-- Only the subscriptions, the channel, the log and the code matter. -/
theorem of_eq (h : s.Hearing subscribed base owed) (hlist : t.notifyList = s.notifyList)
    (hattached : t.attached = s.attached) (hlog : t.log = s.log) (htodo : t.todo = s.todo) :
    t.Hearing subscribed base owed := by
  obtain ⟨unsubscribed, entries, leaving, detached, spent, balance⟩ := h
  have hleaving : s.Leaving ↔ t.Leaving := by rw [Leaving, Leaving, hattached, htodo]
  rw [← hlist] at unsubscribed
  rw [← hlist, hleaving] at entries
  rw [← htodo, hleaving] at leaving
  rw [← htodo, ← hattached] at detached
  rw [← htodo] at spent
  rw [← hlog, ← htodo] at balance
  exact ⟨unsubscribed, entries, leaving, detached, spent, balance⟩

/-- Code that tells nothing is put in front; what ends the subscriptions detaches the channel. -/
theorem push (h : s.Hearing subscribed base owed) (codes : List Code)
    (hspent : ∀ c ∈ codes, c.spent = true) (hnotices : ∀ c ∈ codes, c.notices = [])
    (hdetached : .chanFree ∈ codes → s.attached = false)
    (hleaving : .unregisterAll ∈ codes → s.attached = true → .attFree ∈ codes) :
    (s.push codes).Hearing subscribed base owed := by
  have weaker : s.Leaving → (s.push codes).Leaving :=
    fun leaving attached => List.mem_append_right _ (leaving attached)
  refine ⟨h.unsubscribed, fun hsub hlist => weaker (h.entries hsub hlist), fun hmem => ?_,
    fun hmem => ?_, List.forall_mem_append.mpr ⟨hspent, h.spent⟩, ?_⟩
  · rcases List.mem_append.mp hmem with hmem | hmem
    · exact fun attached => List.mem_append_left _ (hleaving hmem attached)
    · exact weaker (h.leaving hmem)
  · exact (List.mem_append.mp hmem).elim hdetached h.detached
  · obtain ⟨acts, hlog, hbalance⟩ := h.balance
    refine ⟨acts, hlog, ?_⟩
    have hnil : codes.flatMap Code.notices = [] := List.flatMap_eq_nil_iff.mpr hnotices
    have htodo : (s.push codes).todo = codes ++ s.todo := rfl
    rw [htodo, List.flatMap_append, hnil, List.nil_append, hbalance]

/-- Nothing happens to notifications. -/
theorem quiet (h : s.Hearing subscribed base owed) (step : Quiet s t) :
    t.Hearing subscribed base owed := by
  obtain ⟨acts, hlog, hacts⟩ := step.log
  obtain ⟨codes, htodo, hcodes⟩ := step.todo
  have pushed : (s.push codes).Hearing subscribed base owed :=
    h.push codes (fun c hc => Code.spent_of_quiet (hcodes c hc))
      (fun c hc => Code.notices_of_quiet (hcodes c hc))
      (fun hmem => nomatch hcodes _ hmem) (fun hmem => nomatch hcodes _ hmem)
  have recorded : ((s.push codes).record acts).Hearing subscribed base owed := by
    obtain ⟨acts', hlog', hbalance⟩ := pushed.balance
    refine ⟨pushed.unsubscribed, pushed.entries, pushed.leaving, pushed.detached, pushed.spent,
      acts' ++ acts, ?_, ?_⟩
    · have hlog' : s.log = base ++ acts' := hlog'
      rw [Link.record, Link.push, hlog', List.append_assoc]
    · have htold : toldIn (acts' ++ acts) = toldIn acts' := by
        rw [toldIn, List.filterMap_append, ← toldIn, ← toldIn, toldIn_of_quiet hacts,
          List.append_nil]
      have harrived : arrivedIn (acts' ++ acts) = arrivedIn acts' := by
        rw [arrivedIn, List.filterMap_append, ← arrivedIn, ← arrivedIn, arrivedIn_of_quiet hacts,
          List.append_nil]
      rw [htold, harrived]
      exact hbalance
  exact recorded.of_eq step.notifyList_eq step.attached_eq hlog htodo

/-- The channel is detached. -/
theorem detach (h : s.Hearing subscribed base owed) :
    { s with attached := false }.Hearing subscribed base owed :=
  ⟨h.unsubscribed, fun _ _ => nofun, fun _ => nofun, fun _ => rfl, h.spent, h.balance⟩

/-- Code is taken from the stack, and owes what it tells. -/
theorem pop {code : Code} (h : s.Hearing subscribed base []) (htodo : s.todo = code :: rest)
    (hfree : code ≠ .attFree ∨ s.attached = false) :
    { s with todo := rest }.Hearing subscribed base code.notices := by
  have keeps : s.Leaving → { s with todo := rest }.Leaving := fun leaving attached => by
    have hmem := leaving attached
    rw [htodo] at hmem
    have attached : s.attached = true := attached
    rw [attached] at hfree
    exact List.mem_of_ne_of_mem (hfree.resolve_right nofun).symm hmem
  have tail : ∀ {c}, c ∈ rest → c ∈ s.todo := fun hc => htodo ▸ List.mem_cons_of_mem _ hc
  refine ⟨h.unsubscribed, fun hsub hlist => keeps (h.entries hsub hlist),
    fun hmem => keeps (h.leaving (tail hmem)), fun hmem => h.detached (tail hmem),
    fun c hc => h.spent c (tail hc), ?_⟩
  obtain ⟨acts, hlog, hbalance⟩ := h.balance
  refine ⟨acts, hlog, ?_⟩
  rw [htodo, List.flatMap_cons, List.append_nil] at hbalance
  rw [List.append_assoc]
  exact hbalance

/-- The event handler is told the next event that is owed. -/
theorem tell {event : Event} (h : s.Hearing subscribed base (event :: owed)) :
    (s.record [.event .notification event]).Hearing subscribed base owed := by
  obtain ⟨acts, hlog, hbalance⟩ := h.balance
  refine ⟨h.unsubscribed, h.entries, h.leaving, h.detached, h.spent,
    acts ++ [.event .notification event], ?_, ?_⟩
  · rw [Link.record, hlog, List.append_assoc]
  · have htold : toldIn (acts ++ [.event .notification event]) = toldIn acts ++ [event] := by
      simp [toldIn, Act.told]
    have harrived : arrivedIn (acts ++ [.event .notification event]) = arrivedIn acts := by
      simp [arrivedIn, Act.arrived]
    rw [htold, harrived, List.append_assoc (toldIn acts), List.singleton_append]
    exact hbalance

/-- What is owed is left to suspended code. -/
theorem emits (h : s.Hearing subscribed base owed) :
    (s.push (owed.map (.emit .notification))).Hearing subscribed base [] := by
  obtain ⟨acts, hlog, hbalance⟩ := h.balance
  have hmem : ∀ c ∈ owed.map (Code.emit .notification), ∃ e, c = .emit .notification e :=
    List.forall_mem_map.mpr fun e _ => ⟨e, rfl⟩
  have weaker : s.Leaving → (s.push (owed.map (.emit .notification))).Leaving :=
    fun leaving attached => List.mem_append_right _ (leaving attached)
  refine ⟨h.unsubscribed, fun hsub hlist => weaker (h.entries hsub hlist), fun hc => ?_,
    fun hc => ?_, fun c hc => ?_, acts, hlog, ?_⟩
  · rcases List.mem_append.mp hc with hc | hc
    · obtain ⟨e, he⟩ := hmem _ hc
      cases he
    · exact weaker (h.leaving hc)
  · rcases List.mem_append.mp hc with hc | hc
    · obtain ⟨e, he⟩ := hmem _ hc
      cases he
    · exact h.detached hc
  · rcases List.mem_append.mp hc with hc | hc
    · obtain ⟨e, rfl⟩ := hmem _ hc
      rfl
    · exact h.spent c hc
  · have htodo : (s.push (owed.map (.emit .notification))).todo.flatMap Code.notices =
        owed ++ s.todo.flatMap Code.notices := by
      rw [Link.push, List.flatMap_append, List.flatMap_map]
      congr 1
      exact List.flatMap_singleton' owed
    rw [htodo, List.append_nil, ← List.append_assoc]
    exact hbalance

end Hearing

namespace Hearing

variable {subscribed : Bool} {base : List Act} {owed : List Event}

/-- The loop of `handle_notify` at the first subscription. -/
theorem notifyFirst {pdu : Pdu} (h : s.Hearing subscribed base (handled pdu))
    (hlist : s.notifyList ≠ []) (found : Bool) :
    (s.notifyNext (some 0) pdu found).Hearing subscribed base [] := by
  obtain ⟨cb, cbs, hcbs⟩ := List.exists_cons_of_ne_nil hlist
  have hentry : s.notifyList[0]? = some cb := by rw [hcbs]; rfl
  simp only [Link.notifyNext, hentry]
  generalize (if 0 + 1 < s.notifyList.length then some (0 + 1) else none) = next
  split
  · have checks : (s.push [.notifyCheck next pdu]).Hearing subscribed base (handled pdu) :=
      h.push _ (by simp [Code.spent]) (by simp [Code.notices]) (by simp) (by simp)
    exact emits (checks.of_eq rfl rfl rfl rfl)
  · rename_i hop
    have hnil : handled pdu = [] := if_neg hop
    rw [hnil] at h
    refine h.push _ ?_ (by simp [Code.notices]) (by simp) (by simp)
    cases next with
    | none => simp [Code.spent]
    | some i => simp [Code.spent, hop]

/-- The loop of `handle_notify` at an entry, for a PDU that is no notification. -/
theorem notifyOther {pdu : Pdu} (h : s.Hearing subscribed base [])
    (hop : byteAt pdu 0 ≠ opHandleNfy) (i : Nat) (found : Bool) :
    (s.notifyNext (some i) pdu found).Hearing subscribed base [] := by
  simp only [Link.notifyNext, if_neg hop]
  split
  · exact h.quiet (Quiet.notifyEnd s pdu found)
  · generalize (if i + 1 < s.notifyList.length then some (i + 1) else none) = next
    refine h.push _ ?_ (by simp [Code.notices]) (by simp) (by simp)
    cases next with
    | none => simp [Code.spent]
    | some i => simp [Code.spent, hop]

/-- Suspended code is run. -/
theorem resume {code : Code} (h : s.Hearing subscribed base []) (htodo : s.todo = code :: rest)
    (once : code.solo = false → s.notifyList = []) :
    ({ s with todo := rest }.run code).Hearing subscribed base [] := by
  have hspent : code.spent = true := h.spent code (htodo ▸ List.mem_cons_self)
  have quietly : code.quiet = true → (code = .attUnref → s.attRef ≠ 1) →
      ({ s with todo := rest }.run code).Hearing subscribed base [] := fun quiet more => by
    have popped := h.pop htodo (.inl fun hcode => by subst hcode; cases quiet)
    rw [Code.notices_of_quiet quiet] at popped
    exact popped.quiet (Quiet.run quiet more)
  cases code with
  | emit source event =>
    cases source with
    | procedure owner => exact quietly rfl (by simp)
    | notification =>
      have told := (h.pop htodo (.inl (by simp))).tell
      exact told.push [.handler] (by simp [Code.spent]) (by simp [Code.notices]) (by simp) (by simp)
  | attUnref =>
    by_cases more : s.attRef = 1
    · have popped := h.pop htodo (.inl (by simp))
      have pushed := popped.push [.unregisterAll, .cancelAll, .attFree]
        (by simp [Code.spent]) (by simp [Code.notices]) (by simp) (by simp)
      rw [run, Ledger.attUnref_last (s := { s with todo := rest }) more]
      exact pushed.of_eq rfl rfl rfl rfl
    · exact quietly rfl fun _ => more
  | notifyNext entry pdu found =>
    have popped := h.pop htodo (.inl (by simp))
    cases entry with
    | some i => exact popped.notifyOther (of_decide_eq_true hspent) i found
    | none => exact popped.quiet (Quiet.notifyEnd _ pdu found)
  | notifyCheck entry pdu =>
    have popped := h.pop htodo (.inl (by simp))
    simp only [run]
    split
    · exact popped.quiet (Quiet.notifyEnd _ pdu true)
    · rename_i hne
      cases entry with
      | some i => exact absurd (once rfl) hne
      | none => exact popped.quiet (Quiet.notifyEnd _ pdu true)
  | chanFree =>
    have popped := h.pop htodo (.inl (by simp))
    have detached : ({ s with todo := rest } : Link).attached = false :=
      h.detached (htodo ▸ List.mem_cons_self)
    generalize ({ s with todo := rest } : Link) = v at popped detached ⊢
    have freed : { (v.use .att).free .chan with attRef := v.attRef + 1 }.Hearing
        subscribed base [] := popped.of_eq rfl rfl rfl rfl
    exact freed.push [.unregisterAll, .attUnref] (by simp [Code.spent]) (by simp [Code.notices])
      (by simp) fun _ attached => Bool.noConfusion (detached.symm.trans attached)
  | unregisterAll =>
    have leaving : s.Leaving := h.leaving (htodo ▸ List.mem_cons_self)
    have popped := h.pop htodo (.inl (by simp))
    have left : { s with todo := rest, notifyList := [] }.Leaving := fun attached => by
      have hmem := leaving attached
      rw [htodo] at hmem
      exact (List.mem_cons.mp hmem).resolve_left (by simp)
    have cleared : { s with todo := rest, notifyList := [] }.Hearing subscribed base [] :=
      ⟨fun _ => rfl, fun _ _ => left, popped.leaving, popped.detached, popped.spent, popped.balance⟩
    exact cleared.quiet (Quiet.push _ _ (Quiet.callbacksRemoves s.notifyList))
  | attFree =>
    have popped := h.detach.pop htodo (.inr rfl)
    refine popped.quiet ?_
    simp only [run, Link.attFree]
    split
    · refine (Quiet.push _ (s.pendingReq.toList.map .destroyOp) (Quiet.destroyOps _)).trans ?_
      exact Quiet.of_eq rfl rfl rfl rfl
    · rename_i detached
      exact Quiet.of_eq rfl (Bool.eq_false_iff.mpr detached) rfl rfl
  | discOp | discPending | rspDone | discDone => exact quietly rfl (by simp)
  | handler | freeRequest | destroyOp | timeoutDone => exact quietly rfl (by simp)
  | callbacksRemove | callbacksFree | recordUnref | recordFree => exact quietly rfl (by simp)
  | attribUnref | callbacksDestroy | attribFree | cancelAll | cancelPending =>
    exact quietly rfl (by simp)

/-- The link is lost. -/
theorem disconnectCb (h : s.Hearing subscribed base []) :
    s.disconnectCb.Hearing subscribed base [] := by
  have pushed := h.detach.push
    ((s.reqQueue ++ s.writeQueue).map .discOp ++ [.discPending, .chanFree])
    (List.forall_mem_append.mpr ⟨List.forall_mem_map.mpr fun _ _ => rfl, by simp [Code.spent]⟩)
    (List.forall_mem_append.mpr ⟨List.forall_mem_map.mpr fun _ _ => rfl, by simp [Code.notices]⟩)
    (fun _ => rfl) (by simp)
  exact pushed.of_eq rfl rfl rfl rfl

/-- With the first subscription everything starts anew. -/
theorem listen (h : s.Hearing false base []) : s.listen.Hearing true s.listen.log [] := by
  have hnotices : s.todo.flatMap Code.notices = [] := by
    obtain ⟨acts, -, hbalance⟩ := h.balance
    have hnil : (arrivedIn acts).flatMap (due false) = [] :=
      List.flatMap_eq_nil_iff.mpr fun _ _ => rfl
    exact (List.append_eq_nil_iff.mp (hbalance.trans hnil)).2
  simp only [Link.listen]
  split
  · exact ⟨by simp, fun _ hnil => absurd hnil (by simp), h.leaving, h.detached, h.spent, [],
      (List.append_nil _).symm, hnotices⟩
  · rename_i detached
    exact ⟨by simp, fun _ _ attached => absurd attached detached, h.leaving, h.detached, h.spent,
      [],
      (List.append_nil _).symm, hnotices⟩

/-- With another subscription everything goes on. -/
theorem listenAgain (h : s.Hearing true base owed) : s.listen.Hearing true base owed := by
  simp only [Link.listen]
  split
  · exact ⟨by simp, fun _ hnil => absurd hnil (by simp), h.leaving, h.detached, h.spent,
      h.balance⟩
  · exact ⟨by simp, h.entries, h.leaving, h.detached, h.spent, h.balance⟩

end Hearing

/-- `handle_notify` does not go on from a callback to a further subscription. -/
def Once (s : Link) (label : Label) : Prop :=
  label = .resume → s.todo.head?.all Code.solo = false → s.notifyList = []

instance (s : Link) (label : Label) : Decidable (s.Once label) :=
  inferInstanceAs (Decidable (_ → _ → _))

/-- The PDU that has just arrived may still be owed to the subscription. -/
inductive Listening (subscribed : Bool) (base : List Act) (s : Link) : Prop
  | settled (h : s.Hearing subscribed base [])
  | arrived {pdu : Pdu} {rest : List Code}
      (htodo : s.todo = .notifyNext (some 0) pdu false :: rest)
      (hlist : s.notifyList ≠ [])
      (h : { s with todo := rest }.Hearing subscribed base (handled pdu))

namespace Listening

variable {subscribed : Bool} {base : List Act}

/-- While the application is in control nothing is owed. -/
theorem hearing (h : s.Listening subscribed base) (hcontrol : s.AppInControl) :
    s.Hearing subscribed base [] := by
  cases h with
  | settled h => exact h
  | arrived htodo =>
    rcases hcontrol with hidle | hhandler
    · cases htodo.symm.trans hidle
    · rw [htodo] at hhandler
      cases hhandler

theorem canReadData (h : s.Hearing subscribed base []) (hdispatches : s.Dispatches) (bytes : Pdu)
    (security : Int) (setOk : Bool) :
    (s.canReadData bytes security setOk).Listening subscribed base := by
  cases bytes with
  | nil => exact .settled h
  | cons opcode pdu =>
    obtain ⟨hidle, attached⟩ := hdispatches
    have hne : subscribed = true → s.notifyList ≠ [] := fun hsub hnil => by
      have hmem := h.entries hsub hnil attached
      rw [hidle] at hmem
      cases hmem
    obtain ⟨u, hlist, hattached, hlog, htodo, hcases⟩ :=
      canReadData_cases s opcode pdu security setOk
    have arrived : u.Hearing subscribed base (due subscribed (opcode :: pdu)) := by
      obtain ⟨acts, hacts, hbalance⟩ := h.balance
      rw [hidle] at htodo hbalance
      have htold : toldIn (acts ++ [.received (opcode :: pdu)]) = toldIn acts := by
        simp [toldIn, Act.told]
      have harrived : arrivedIn (acts ++ [.received (opcode :: pdu)]) =
          arrivedIn acts ++ [opcode :: pdu] := by
        simp [arrivedIn, Act.arrived]
      refine ⟨fun hsub => hlist ▸ h.unsubscribed hsub,
        fun hsub hnil => absurd (hlist ▸ hnil) (hne hsub), by simp [htodo], by simp [htodo],
        by simp [htodo, Code.spent], acts ++ [.received (opcode :: pdu)],
        by rw [hlog, hacts, List.append_assoc], ?_⟩
      simp only [List.flatMap_nil, List.append_nil] at hbalance
      rw [htold, harrived, htodo, List.flatMap_append, hbalance]
      simp [Code.notices]
    rcases hcases with ⟨hnil, quiet⟩ | hnotify
    · have hdue : due subscribed (opcode :: pdu) = [] := by simp [due, hnil]
      rw [hdue] at arrived
      exact .settled (arrived.quiet quiet)
    · rw [hnotify, handleNotify]
      cases subscribed with
      | false =>
        have hempty : u.notifyList = [] := hlist ▸ h.unsubscribed rfl
        rw [if_pos hempty]
        have pushed := arrived.push [.notifyNext none (opcode :: pdu) false]
          (by simp [Code.spent]) (by simp [Code.notices]) (by simp) (by simp)
        exact .settled (pushed.of_eq rfl rfl rfl rfl)
      | true =>
        have hne : u.notifyList ≠ [] := hlist ▸ hne rfl
        rw [if_neg hne]
        exact .arrived rfl hne (arrived.of_eq rfl rfl rfl rfl)

/-- Before the first subscription there is none to go on to. -/
theorem once (h : s.Listening false base) (label : Label) : s.Once label := by
  rintro rfl hsolo
  cases h with
  | settled h => exact h.unsubscribed rfl
  | arrived htodo =>
    rw [htodo] at hsolo
    cases hsolo

/-- What is owed to the event handler, in every step but the first subscription. -/
theorem step (h : s.Listening subscribed base) {label : Label}
    (hlabel : label = .listen → subscribed = true) (once : s.Once label)
    (hstep : s.step label = some t) : t.Listening subscribed base := by
  cases label with
  | call call =>
    obtain ⟨hcontrol, -, -, rfl⟩ := step_call hstep
    exact .settled ((h.hearing hcontrol).quiet (Quiet.call s call))
  | listen =>
    obtain ⟨hcontrol, -, rfl⟩ := step_listen hstep
    obtain rfl := hlabel rfl
    exact .settled (h.hearing hcontrol).listenAgain
  | drop =>
    obtain ⟨hcontrol, -, rfl⟩ := step_drop hstep
    have pushed := (h.hearing hcontrol).quiet (Quiet.push s [.attribUnref] (by simp [Code.quiet]))
    exact .settled (pushed.of_eq rfl rfl rfl rfl)
  | ret =>
    obtain ⟨todo, htodo, rfl⟩ := step_ret hstep
    have hcontrol : s.AppInControl := .inr (by rw [htodo]; rfl)
    exact .settled ((h.hearing hcontrol).pop htodo (.inl nofun))
  | resume =>
    obtain ⟨code, todo, htodo, -, rfl⟩ := step_resume hstep
    cases h with
    | settled h =>
      refine .settled (h.resume htodo fun hsolo => once rfl ?_)
      rw [htodo]
      exact hsolo
    | @arrived pdu rest' htodo' hlist h =>
      obtain ⟨rfl, rfl⟩ := List.cons.inj (htodo.symm.trans htodo')
      exact .settled (h.notifyFirst hlist false)
  | canWrite ret =>
    obtain ⟨hdispatches, -, rfl⟩ := step_canWrite hstep
    exact .settled ((h.hearing (.inl hdispatches.1)).quiet (Quiet.canWriteData s ret))
  | canRead bytes security setOk =>
    obtain ⟨hdispatches, -, rfl⟩ := step_canRead hstep
    exact canReadData (h.hearing (.inl hdispatches.1)) hdispatches bytes security setOk
  | hup =>
    obtain ⟨hdispatches, rfl⟩ := step_hup hstep
    exact .settled (h.hearing (.inl hdispatches.1)).disconnectCb
  | timeout =>
    obtain ⟨op, -, hdispatches, rfl⟩ := step_timeout hstep
    exact .settled ((h.hearing (.inl hdispatches.1)).quiet (Quiet.timeoutCb s op))

end Listening

/-- **Every PDU is handled once**, in the order of arrival, as long as `handle_notify` does not go
on from a callback to a further subscription. -/
theorem told_of_once {mtu : Mtu} {before after : List Label}
    (run : machine.Run (fun _ l => l ≠ .listen) (Link.new mtu) before s)
    (hlisten : s.step .listen = some t) (run' : machine.Run Once t after u) :
    ∃ acts, u.log = t.log ++ acts ∧
      toldIn acts <+: (arrivedIn acts).flatMap handled ∧
      (u.todo = [] → toldIn acts = (arrivedIn acts).flatMap handled) := by
  have listening := run.invariant (P := fun v => v.Listening false []) (.settled (.new mtu))
    fun h hlabel hstep => h.step (fun heq => absurd heq hlabel) (h.once _) hstep
  obtain ⟨hcontrol, -, rfl⟩ := step_listen hlisten
  have listening' := run'.invariant (P := fun v => v.Listening true s.listen.log)
    (.settled (listening.hearing hcontrol).listen)
    fun h once hstep => h.step (fun _ => rfl) once hstep
  have hdue : ∀ acts, (arrivedIn acts).flatMap (due true) = (arrivedIn acts).flatMap handled :=
    fun _ => rfl
  cases listening' with
  | settled h =>
    obtain ⟨acts, hlog, hbalance⟩ := h.balance
    rw [hdue, List.append_nil] at hbalance
    refine ⟨acts, hlog, ⟨_, hbalance⟩, fun hidle => ?_⟩
    rw [hidle, List.flatMap_nil, List.append_nil] at hbalance
    exact hbalance
  | arrived htodo hlist h =>
    obtain ⟨acts, hlog, hbalance⟩ := h.balance
    rw [hdue, List.append_assoc] at hbalance
    exact ⟨acts, hlog, ⟨_, hbalance⟩, fun hidle => nomatch htodo.symm.trans hidle⟩

/-! ### One subscription -/

/-- The code does not lead on to a further subscription. -/
def Code.single (code : Code) : Bool := code.solo && code.spent

theorem Code.single_of_quiet {code : Code} (h : code.quiet = true) : code.single = true := by
  rw [Code.single, Code.solo_of_quiet h, Code.spent_of_quiet h]
  rfl

/-- No subscription is added, and code that does not lead on to a further one is put in front. -/
structure Singly (s t : Link) : Prop where
  length_le : t.notifyList.length ≤ s.notifyList.length
  todo : ∃ codes, t.todo = codes ++ s.todo ∧ ∀ c ∈ codes, c.single = true

namespace Singly

theorem of_quiet (step : Quiet s t) : Singly s t := by
  obtain ⟨codes, htodo, hcodes⟩ := step.todo
  exact ⟨Nat.le_of_eq (congrArg List.length step.notifyList_eq), codes, htodo,
    fun c hc => Code.single_of_quiet (hcodes c hc)⟩

/-- Code is put in front, and the subscriptions stay. -/
theorem push (codes : List Code) (hlist : t.notifyList = s.notifyList)
    (htodo : t.todo = codes ++ s.todo) (hcodes : ∀ c ∈ codes, c.single = true) : Singly s t :=
  ⟨Nat.le_of_eq (congrArg List.length hlist), codes, htodo, hcodes⟩

/-- The loop of `handle_notify` at an entry: there is no next one, or the PDU is no notification. -/
theorem notifyNext {entry : Option Nat} {pdu : Pdu} {found : Bool}
    (h : s.notifyList.length ≤ 1 ∨ (Code.notifyNext entry pdu found).single = true) :
    Singly s (s.notifyNext entry pdu found) := by
  simp only [Link.notifyNext]
  cases entry with
  | none => exact of_quiet (Quiet.notifyEnd s pdu found)
  | some i =>
    dsimp only
    generalize hnext : (if i + 1 < s.notifyList.length then some (i + 1) else none) = next
    split
    · exact of_quiet (Quiet.notifyEnd s pdu found)
    · split
      · rename_i hop
        have hle : s.notifyList.length ≤ 1 :=
          h.resolve_right (by simp [Code.single, Code.spent, hop])
        rw [if_neg (Nat.not_lt.mpr (Nat.le_trans hle (Nat.le_add_left 1 i)))] at hnext
        subst hnext
        refine push ((handled pdu).map (Code.emit .notification) ++ [.notifyCheck none pdu]) rfl
          (by simp [attribCallbackNotify, Link.push, Link.use, handled]) ?_
        exact List.forall_mem_append.mpr
          ⟨List.forall_mem_map.mpr fun _ _ => rfl, List.forall_mem_singleton.mpr rfl⟩
      · rename_i hop
        refine push [.notifyNext next pdu found] rfl rfl ?_
        cases next <;> simp [Code.single, Code.solo, Code.spent, hop]

/-- Suspended code is run. -/
theorem run {code : Code} (hcode : code.single = true) : Singly s (s.run code) := by
  have quietly : code.quiet = true → (code = .attUnref → s.attRef ≠ 1) → Singly s (s.run code) :=
    fun quiet more => of_quiet (Quiet.run quiet more)
  cases code with
  | emit source event => exact push [.handler] rfl rfl (by decide)
  | attUnref =>
    by_cases more : s.attRef = 1
    · rw [Link.run, Ledger.attUnref_last more]
      exact push [.unregisterAll, .cancelAll, .attFree] rfl rfl (by decide)
    · exact quietly rfl fun _ => more
  | notifyNext entry pdu found => exact notifyNext (.inr hcode)
  | notifyCheck entry pdu =>
    cases entry with
    | some i => cases hcode
    | none =>
      simp only [Link.run]
      split
      · exact of_quiet (Quiet.notifyEnd s pdu true)
      · exact notifyNext (.inr rfl)
  | chanFree => exact push [.unregisterAll, .attUnref] rfl rfl (by decide)
  | unregisterAll =>
    exact ⟨Nat.zero_le _, s.notifyList.map .callbacksRemove, rfl,
      List.forall_mem_map.mpr fun _ _ => rfl⟩
  | attFree =>
    rw [Link.run]
    cases attached : s.attached with
    | true =>
      rw [Ledger.attFree_attached attached]
      have pushed : Singly s (s.push (s.pendingReq.toList.map .destroyOp)) :=
        push _ rfl rfl (List.forall_mem_map.mpr fun _ _ => rfl)
      generalize s.push (s.pendingReq.toList.map .destroyOp) = t at pushed ⊢
      exact ⟨pushed.length_le, pushed.todo⟩
    | false =>
      rw [Ledger.attFree_detached attached]
      exact push [] rfl rfl (List.forall_mem_nil _)
  | discOp | discPending | rspDone | discDone => exact quietly rfl (by simp)
  | handler | freeRequest | destroyOp | timeoutDone => exact quietly rfl (by simp)
  | callbacksRemove | callbacksFree | recordUnref | recordFree => exact quietly rfl (by simp)
  | attribUnref | callbacksDestroy | attribFree | cancelAll | cancelPending =>
    exact quietly rfl (by simp)

end Singly

/-- No code leads on to a further subscription, and the PDU that has just arrived goes to at most
one. -/
inductive Single (s : Link) : Prop
  | settled (h : ∀ c ∈ s.todo, c.single = true)
  | arrived {pdu : Pdu} {rest : List Code}
      (htodo : s.todo = .notifyNext (some 0) pdu false :: rest)
      (hlength : s.notifyList.length ≤ 1) (h : ∀ c ∈ rest, c.single = true)

/-- A notification finds at most one subscription when it arrives. -/
def FindsOne (s : Link) : Label → Prop
  | .canRead bytes _ _ => byteAt bytes 0 = opHandleNfy → s.notifyList.length ≤ 1
  | _ => True

theorem findsOne_of_length_le (h : s.notifyList.length ≤ 1) (label : Label) : s.FindsOne label := by
  cases label with
  | canRead bytes security setOk => exact fun _ => h
  | _ => trivial

namespace Single

/-- While the application is in control the PDU has been handled. -/
theorem single (h : s.Single) (hcontrol : s.AppInControl) : ∀ c ∈ s.todo, c.single = true := by
  cases h with
  | settled h => exact h
  | arrived htodo =>
    rcases hcontrol with hidle | hhandler
    · cases htodo.symm.trans hidle
    · rw [htodo] at hhandler
      cases hhandler

theorem of_singly (h : ∀ c ∈ s.todo, c.single = true) (step : Singly s t) :
    t.Single ∧ t.notifyList.length ≤ s.notifyList.length := by
  obtain ⟨codes, htodo, hcodes⟩ := step.todo
  refine ⟨.settled ?_, step.length_le⟩
  rw [htodo]
  exact List.forall_mem_append.mpr ⟨hcodes, h⟩

theorem canReadData (h : ∀ c ∈ s.todo, c.single = true) (bytes : Pdu) (security : Int)
    (setOk : Bool) (ok : s.FindsOne (.canRead bytes security setOk)) :
    (s.canReadData bytes security setOk).Single ∧
      (s.canReadData bytes security setOk).notifyList.length ≤ s.notifyList.length := by
  cases bytes with
  | nil => exact ⟨.settled h, Nat.le_refl _⟩
  | cons opcode pdu =>
    obtain ⟨u, hlist, -, -, htodo, hcases⟩ := canReadData_cases s opcode pdu security setOk
    have hu : ∀ c ∈ u.todo, c.single = true := by
      rw [htodo]
      exact List.forall_mem_cons.mpr ⟨rfl, h⟩
    rw [← hlist]
    rcases hcases with ⟨-, quiet⟩ | hnotify
    · exact of_singly hu (.of_quiet quiet)
    · rw [hnotify, handleNotify]
      by_cases hop : byteAt (opcode :: pdu) 0 = opHandleNfy
      · by_cases hnil : u.notifyList = []
        · rw [if_pos hnil]
          have single : ∀ c ∈ [Code.notifyNext none (opcode :: pdu) false], c.single = true :=
            List.forall_mem_singleton.mpr rfl
          exact of_singly hu (.push _ rfl rfl single)
        · rw [if_neg hnil]
          exact ⟨.arrived rfl (hlist ▸ ok hop) hu, Nat.le_refl _⟩
      · refine of_singly hu (.push [_] rfl rfl ?_)
        split <;> simp [Code.single, Code.solo, Code.spent, hop]

/-- What one step does; only another call of `lble_listen` adds a subscription. -/
theorem step (h : s.Single) {label : Label} (ok : s.FindsOne label)
    (hstep : s.step label = some t) :
    t.Single ∧ (label ≠ .listen → t.notifyList.length ≤ s.notifyList.length) := by
  have quietly : ∀ {u : Link}, s.AppInControl → Singly s u →
      u.Single ∧ (label ≠ .listen → u.notifyList.length ≤ s.notifyList.length) :=
    fun hcontrol step => (of_singly (h.single hcontrol) step).imp_right fun hle _ => hle
  cases label with
  | call call =>
    obtain ⟨hcontrol, -, -, rfl⟩ := step_call hstep
    exact quietly hcontrol (.of_quiet (Quiet.call s call))
  | listen =>
    obtain ⟨hcontrol, -, rfl⟩ := step_listen hstep
    have same : s.listen.todo = s.todo := by
      simp only [listen]
      split <;> rfl
    exact ⟨.settled (same ▸ h.single hcontrol), fun hlabel => absurd rfl hlabel⟩
  | drop =>
    obtain ⟨hcontrol, -, rfl⟩ := step_drop hstep
    exact quietly hcontrol (.push [.attribUnref] rfl rfl (by decide))
  | ret =>
    obtain ⟨todo, htodo, rfl⟩ := step_ret hstep
    have hsingle := h.single (.inr (by rw [htodo]; rfl))
    exact ⟨.settled fun c hc => hsingle c (htodo ▸ List.mem_cons_of_mem _ hc),
      fun _ => Nat.le_refl _⟩
  | resume =>
    obtain ⟨code, todo, htodo, -, rfl⟩ := step_resume hstep
    refine And.imp_right (fun hle _ => hle) ?_
    cases h with
    | settled h =>
      obtain ⟨hcode, htail⟩ := List.forall_mem_cons.mp (htodo ▸ h)
      exact of_singly (s := { s with todo := todo }) htail (Singly.run hcode)
    | @arrived pdu rest htodo' hlength h =>
      obtain ⟨rfl, rfl⟩ := List.cons.inj (htodo.symm.trans htodo')
      have next : Singly { s with todo := todo }
          ({ s with todo := todo }.notifyNext (some 0) pdu false) :=
        Singly.notifyNext (.inl hlength)
      exact of_singly (s := { s with todo := todo }) h next
  | canWrite ret =>
    obtain ⟨hdispatches, -, rfl⟩ := step_canWrite hstep
    exact quietly (.inl hdispatches.1) (.of_quiet (Quiet.canWriteData s ret))
  | canRead bytes security setOk =>
    obtain ⟨hdispatches, -, rfl⟩ := step_canRead hstep
    exact (canReadData (h.single (.inl hdispatches.1)) bytes security setOk ok).imp_right
      fun hle _ => hle
  | hup =>
    obtain ⟨hdispatches, rfl⟩ := step_hup hstep
    refine quietly (.inl hdispatches.1)
      (.push ((s.reqQueue ++ s.writeQueue).map .discOp ++ [.discPending, .chanFree]) rfl rfl ?_)
    exact List.forall_mem_append.mpr ⟨List.forall_mem_map.mpr fun _ _ => rfl, by decide⟩
  | timeout =>
    obtain ⟨op, -, hdispatches, rfl⟩ := step_timeout hstep
    exact quietly (.inl hdispatches.1) (.of_quiet (Quiet.timeoutCb s op))

/-- There is no other subscription to go on to. -/
theorem once (h : s.Single) (label : Label) : s.Once label := by
  rintro - hsolo
  cases h with
  | arrived htodo => simp [htodo, Code.solo] at hsolo
  | settled h =>
    cases htodo : s.todo with
    | nil => simp [htodo] at hsolo
    | cons code rest =>
      have hcode := h code (htodo ▸ List.mem_cons_self)
      simp [Code.single] at hcode
      simp [htodo, hcode.1] at hsolo

/-- As long as `lble_listen` is not called there is at most the subscription there was. -/
theorem step_of_ne_listen (h : s.Single ∧ s.notifyList.length ≤ 1) {label : Label}
    (hlabel : label ≠ .listen) (hstep : s.step label = some t) :
    t.Single ∧ t.notifyList.length ≤ 1 :=
  (h.1.step (findsOne_of_length_le h.2 label) hstep).imp_right
    fun hle => Nat.le_trans (hle hlabel) h.2

theorem new (mtu : Mtu) : (Link.new mtu).Single ∧ (Link.new mtu).notifyList.length ≤ 1 :=
  ⟨.settled nofun, Nat.zero_le _⟩

end Single

/-- **If every notification finds at most one subscription when it arrives**, `handle_notify` does
not go on from a callback to a further one, although the callback may call `lble_listen` again. -/
theorem once_of_findsOne {mtu : Mtu} {before after : List Label}
    (run : machine.Run (fun _ l => l ≠ .listen) (Link.new mtu) before s)
    (hlisten : s.step .listen = some t) (run' : machine.Run FindsOne t after u) :
    machine.Run Once t after u := by
  have single := run.invariant (P := fun v => v.Single ∧ v.notifyList.length ≤ 1)
    (Single.new mtu) fun h hlabel hstep => Single.step_of_ne_listen h hlabel hstep
  have ok : s.FindsOne .listen := trivial
  have start : t.Single := (single.1.step ok hlisten).1
  have once := run'.strengthen start fun h ok hstep => (h.step ok hstep).1
  exact once.mono fun h => h.1.once _

/-- **With one subscription every PDU is handled once**, in the order of arrival. -/
theorem told_of_run {mtu : Mtu} {before after : List Label}
    (run : machine.Run (fun _ l => l ≠ .listen) (Link.new mtu) before s)
    (hlisten : s.step .listen = some t)
    (run' : machine.Run (fun _ l => l ≠ .listen) t after u) :
    ∃ acts, u.log = t.log ++ acts ∧
      toldIn acts <+: (arrivedIn acts).flatMap handled ∧
      (u.todo = [] → toldIn acts = (arrivedIn acts).flatMap handled) := by
  have listening := run.invariant (P := fun v => v.Listening false []) (.settled (.new mtu))
    fun h hlabel hstep => h.step (fun heq => absurd heq hlabel) (h.once _) hstep
  have single := run.invariant (P := fun v => v.Single ∧ v.notifyList.length ≤ 1)
    (Single.new mtu) fun h hlabel hstep => Single.step_of_ne_listen h hlabel hstep
  obtain ⟨hcontrol, -, ht⟩ := step_listen hlisten
  have hnil : s.notifyList = [] := (listening.hearing hcontrol).unsubscribed rfl
  have hle : t.notifyList.length ≤ 1 := by
    rw [ht]
    simp only [listen]
    split
    · show (s.notifyList ++ [_]).length ≤ 1
      rw [hnil]
      exact Nat.le_refl _
    · exact single.2
  have start : t.Single ∧ t.notifyList.length ≤ 1 :=
    ⟨(single.1.step (findsOne_of_length_le single.2 _) hlisten).1, hle⟩
  have single' := run'.strengthen (P := fun v => v.Single ∧ v.notifyList.length ≤ 1) start
    fun h hlabel hstep => Single.step_of_ne_listen h hlabel hstep
  have ok : machine.Run FindsOne t after u :=
    single'.mono fun h => findsOne_of_length_le h.1.2 _
  exact told_of_once run hlisten (once_of_findsOne run hlisten ok)

/-! ### Which events are faithful -/

/-- `events_handler` on a notification, with what it reads: the handle and the length that the
event handler is told. -/
def readEventsHandler (len : UInt16) : Reading UInt8 (Option (UInt16 × UInt8)) := do
  let op ← .at 0 0
  if op = opHandleNfy then
    let handle ← readLe16 1
    return some (handle, (len - 3).toUInt8)
  else return none

theorem result_readEventsHandler {pdu : Pdu} (hop : byteAt pdu 0 = opHandleNfy) (len : UInt16) :
    (readEventsHandler len).result pdu = some (getLe16 pdu 1, (len - 3).toUInt8) := by
  have hread : (Reading.at 0 0).result pdu = opHandleNfy := hop
  rw [readEventsHandler, Reading.result_bind, Reading.result_ite, if_pos hread,
    Reading.result_bind, result_readLe16]
  rfl

/-- The event is made of what is read. -/
theorem eventsHandler_eq_read (pdu : Pdu) (len : UInt16) :
    eventsHandler pdu len = ((readEventsHandler len).result pdu).toList.map
      fun told => .device told.1 told.2 (pdu.drop 3) := by
  by_cases hop : byteAt pdu 0 = opHandleNfy
  · rw [eventsHandler, if_pos hop, result_readEventsHandler hop]
    rfl
  · have hread : ¬ (Reading.at 0 0).result pdu = opHandleNfy := hop
    rw [eventsHandler, if_neg hop, readEventsHandler, Reading.result_bind, Reading.result_ite,
      if_neg hread]
    rfl

theorem within_readEventsHandler {pdu : Pdu} {len : UInt16} (hop : byteAt pdu 0 = opHandleNfy) :
    (readEventsHandler len).Within pdu pdu.length ↔ 3 ≤ pdu.length := by
  have hop : (Reading.at 0 0).result pdu = opHandleNfy := hop
  rw [readEventsHandler, Reading.within_bind, Reading.within_at, Reading.within_ite, if_pos hop,
    Reading.within_bind, within_readLe16]
  simp only [Reading.within_pure, and_true]
  omega

/-- The handling of a notification is faithful: nothing behind its end is read, one that is too
short for a handle is dropped, and any other one leads to one event with its handle, the length of
its payload and its payload. -/
structure NotificationFaithful (pdu : Pdu) : Prop where
  within : (readEventsHandler (UInt16.ofNat pdu.length)).Within pdu pdu.length
  short : pdu.length < 3 → handled pdu = []
  event : 3 ≤ pdu.length → ∃ len : UInt8, len.toNat = (pdu.drop 3).length ∧
    handled pdu = [.device (getLe16 pdu 1) len (pdu.drop 3)]

/-- The handling of a value that was read is faithful: it leads to one event with the handle of the
request, the length of the value and the value. -/
def ValueFaithful (handle : UInt16) (value : List UInt8) : Prop :=
  ∃ len : UInt8, len.toNat = value.length ∧
    charReadCb handle 0 (opReadRsp :: value) (UInt16.ofNat (value.length + 1)) =
      [.device handle len value]

/-- The length that the event handler is told. -/
theorem toNat_told {n : Nat} (h : 3 ≤ n) (hlt : n < 2 ^ 16) :
    (UInt16.ofNat n - 3).toUInt8.toNat = (n - 3) % 2 ^ 8 := by
  have hof : (UInt16.ofNat n).toNat = n := UInt16.toNat_ofNat_of_lt' hlt
  have hle : (3 : UInt16) ≤ UInt16.ofNat n := UInt16.le_iff_toNat_le.mpr (by rw [hof]; exact h)
  rw [UInt16.toNat_toUInt8, UInt16.toNat_sub_of_le _ _ hle, hof]
  rfl

theorem handled_eq {pdu : Pdu} (hop : byteAt pdu 0 = opHandleNfy) :
    handled pdu =
      [.device (getLe16 pdu 1) (UInt16.ofNat pdu.length - 3).toUInt8 (pdu.drop 3)] := by
  rw [handled, eventsHandler_eq_read, result_readEventsHandler hop]
  rfl

theorem notificationFaithful_iff {pdu : Pdu} (hop : byteAt pdu 0 = opHandleNfy)
    (hlt : pdu.length < 2 ^ 16) :
    NotificationFaithful pdu ↔ 3 ≤ pdu.length ∧ pdu.length ≤ 258 := by
  constructor
  · intro h
    have hle : 3 ≤ pdu.length := (within_readEventsHandler hop).mp h.within
    obtain ⟨len, hlen, hevent⟩ := h.event hle
    obtain ⟨-, rfl, -⟩ :=
      Event.device.inj (List.singleton_inj.mp ((handled_eq hop).symm.trans hevent))
    rw [toNat_told hle hlt, List.length_drop] at hlen
    exact ⟨hle, by omega⟩
  · rintro ⟨hle, hle'⟩
    refine ⟨(within_readEventsHandler hop).mpr hle, fun h => absurd hle (Nat.not_le.mpr h),
      fun _ => ⟨_, ?_, handled_eq hop⟩⟩
    rw [toNat_told hle hlt, List.length_drop]
    omega

/-- `char_read_cb` makes a notification of the value. -/
theorem charReadCb_value (handle : UInt16) {value : List UInt8} (hpos : 1 ≤ value.length)
    (hlt : value.length + 3 < 2 ^ 16) :
    charReadCb handle 0 (opReadRsp :: value) (UInt16.ofNat (value.length + 1)) =
      [.device handle (UInt16.ofNat (value.length + 3) - 3).toUInt8 value] := by
  have hlen : (UInt16.ofNat (value.length + 1)).toNat = value.length + 1 :=
    UInt16.toNat_ofNat_of_lt' (Nat.lt_of_succ_lt (Nat.lt_of_succ_lt hlt))
  have hslice : Att.slice (opReadRsp :: value) 1 value.length = value := by
    rw [slice_eq _ (by simp [Nat.add_comm])]
    simp
  have hdec : decReadResp (opReadRsp :: value) (value.length + 1) value.length = some value := by
    have hop : ¬ byteAt (opReadRsp :: value) 0 ≠ opReadRsp := not_not.mpr rfl
    rw [decReadResp, if_neg hop, if_neg (by omega), if_neg (by omega), Nat.add_sub_cancel, hslice]
  have hhandle : getLe16 (opHandleNfy :: (putLe16 handle ++ value)) 1 = handle :=
    (getLe16_append_right [opHandleNfy] _ 0).trans (getLe16_putLe16 handle value)
  have hsub : value.length + 1 + 2 - 3 = value.length := by omega
  rw [charReadCb, if_neg (not_not.mpr rfl)]
  simp only [hlen, hsub, hdec]
  have hop : byteAt (opHandleNfy :: (putLe16 handle ++ value)) 0 = opHandleNfy := rfl
  rw [eventsHandler, if_pos hop, hhandle]
  rfl

theorem valueFaithful_iff (handle : UInt16) {value : List UInt8} (hpos : 1 ≤ value.length)
    (hle : value.length ≤ 512) : ValueFaithful handle value ↔ value.length ≤ 255 := by
  have htold := toNat_told (n := value.length + 3) (by omega) (by omega)
  rw [ValueFaithful, charReadCb_value handle hpos (by omega)]
  constructor
  · rintro ⟨len, hlen, hevent⟩
    obtain ⟨-, rfl, -⟩ := Event.device.inj (List.singleton_inj.mp hevent)
    omega
  · intro hle
    exact ⟨_, by omega, rfl⟩

/-- **Which events are faithful.** With one subscription every PDU that arrives is handled once; a
notification is handled faithfully if and only if it has 3 to 258 bytes, and a value that was read
if and only if it has at most 255. -/
theorem device_faithful_iff {mtu : Mtu} {before after : List Label}
    (run : machine.Run (fun _ l => l ≠ .listen) (Link.new mtu) before s)
    (hlisten : s.step .listen = some t)
    (run' : machine.Run (fun _ l => l ≠ .listen) t after u) :
    (∃ acts, u.log = t.log ++ acts ∧ toldIn acts <+: (arrivedIn acts).flatMap handled ∧
      (u.todo = [] → toldIn acts = (arrivedIn acts).flatMap handled)) ∧
    (∀ pdu : Pdu, byteAt pdu 0 = opHandleNfy → pdu.length ≤ mtu.buflen →
      (NotificationFaithful pdu ↔ 3 ≤ pdu.length ∧ pdu.length ≤ 258)) ∧
    ∀ (handle : UInt16) (value : List UInt8), 1 ≤ value.length → value.length ≤ 512 →
      (ValueFaithful handle value ↔ value.length ≤ 255) :=
  ⟨told_of_run run hlisten run',
    fun _ hop hle => notificationFaithful_iff hop (Nat.lt_of_le_of_lt hle mtu.val.toNat_lt),
    fun handle _ hpos hle => valueFaithful_iff handle hpos hle⟩

/-- A subscribed connection on which one PDU arrives and is handled. -/
def notifiedRun (pdu : Pdu) : Option Link :=
  machine.execGuarded (fun _ l => l ≠ .listen) (Link.new attDefaultLeMtu).listen
    ([.canRead pdu 1 true] ++ .replicate 2 .resume ++ [.ret] ++ .replicate 3 .resume)

/-- A notification of the handle 5 with two bytes is handled faithfully. -/
theorem device_faithful_iff_notifiedRun : ∃ u, notifiedRun [0x1b, 5, 0, 7, 8] = some u ∧
    (∃ acts, u.log = [] ++ acts ∧ toldIn acts = (arrivedIn acts).flatMap handled) ∧
    NotificationFaithful [0x1b, 5, 0, 7, 8] := by
  have hidle : (notifiedRun [0x1b, 5, 0, 7, 8]).map (·.todo) = some [] := by decide
  obtain ⟨u, hu, htodo⟩ := Option.map_eq_some_iff.mp hidle
  have faithful := device_faithful_iff .nil rfl (machine.run_of_execGuarded hu)
  obtain ⟨acts, hlog, -, hall⟩ := faithful.1
  exact ⟨u, hu, ⟨acts, hlog, hall htodo⟩,
    (faithful.2.1 [0x1b, 5, 0, 7, 8] rfl (by decide)).mpr (by decide)⟩

/-- Two bytes are too short for a handle but lead to an event with the length 255, and the length
of 256 bytes that were read is 0. -/
theorem not_faithful_notifiedRun :
    (notifiedRun [0x1b, 5]).map (fun u => toldIn u.log) = some [.device 5 255 []] ∧
      ¬ NotificationFaithful [0x1b, 5] ∧ ¬ ValueFaithful 5 (List.replicate 256 0) := by
  have hlength : (List.replicate 256 (0 : UInt8)).length = 256 := List.length_replicate
  refine ⟨by decide, fun h => ?_, fun h => ?_⟩
  · exact absurd ((notificationFaithful_iff rfl (by decide)).mp h) (by decide)
  · have hle := (valueFaithful_iff 5 (by omega) (by omega)).mp h
    omega

/-! ### Several subscriptions -/

/-- **A notification leads to one event**, and the events come in the order of arrival, as long as
`handle_notify` does not go on from a callback to a further subscription. -/
theorem notified_once {mtu : Mtu} {before after : List Label}
    (run : machine.Run (fun _ l => l ≠ .listen) (Link.new mtu) before s)
    (hlisten : s.step .listen = some t) (run' : machine.Run Once t after u) :
    (∃ acts, u.log = t.log ++ acts ∧ toldIn acts <+: (arrivedIn acts).flatMap handled ∧
      (u.todo = [] → toldIn acts = (arrivedIn acts).flatMap handled)) ∧
    ∀ pdu : Pdu, (byteAt pdu 0 = opHandleNfy →
        ∃ len, handled pdu = [.device (getLe16 pdu 1) len (pdu.drop 3)]) ∧
      (byteAt pdu 0 ≠ opHandleNfy → handled pdu = []) :=
  ⟨told_of_once run hlisten run', fun _ => ⟨fun hop => ⟨_, handled_eq hop⟩, fun hop => if_neg hop⟩⟩

/-- The event handler listens again while it is told about a notification. -/
def relistenedRun : Option Link :=
  machine.execGuarded Once (Link.new attDefaultLeMtu).listen
    ([.canRead [0x1b, 5, 0, 7] 1 true, .resume, .resume, .listen, .ret] ++ .replicate 3 .resume)

theorem notified_once_relistenedRun : ∃ u, relistenedRun = some u ∧ u.notifyList.length = 2 ∧
    ∃ acts, u.log = [] ++ acts ∧ toldIn acts = (arrivedIn acts).flatMap handled := by
  have hrun : relistenedRun.map (fun u => (u.todo, u.notifyList.length)) = some ([], 2) := by decide
  obtain ⟨u, hu, hdata⟩ := Option.map_eq_some_iff.mp hrun
  obtain ⟨htodo, hlength⟩ := Prod.mk.inj hdata
  have once := notified_once .nil rfl (machine.run_of_execGuarded hu)
  obtain ⟨acts, hlog, -, hall⟩ := once.1
  exact ⟨u, hu, hlength, acts, hlog, hall htodo⟩

/-- A notification arrives after `lble_listen` has been called twice. -/
def doubledRun : Option Link :=
  machine.execGuarded (fun _ _ => True) (Link.new attDefaultLeMtu)
    ([.listen, .listen, .canRead [0x1b, 5, 0, 7] 1 true, .resume, .resume, .ret, .resume, .resume,
      .ret] ++ .replicate 3 .resume)

theorem not_once_doubledRun :
    doubledRun.map (fun u => (u.todo, arrivedIn u.log, toldIn u.log)) =
        some ([], [[0x1b, 5, 0, 7]], [.device 5 1 [7], .device 5 1 [7]]) ∧
      handled [0x1b, 5, 0, 7] = [.device 5 1 [7]] := by
  decide

end Link

end Libble

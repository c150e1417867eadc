import Libble.Foundation.Tally
import Libble.Link.Machine

/-!
# The accounts of a connection

The release of the records of a connection is spread over three reference counts, the list
`callbacks` of the `GAttrib` and destroy functions that run nested inside each other. This file
keeps the accounts: every `attrib_callbacks` that an operation, a subscription or suspended code
will hand to `attrib_callbacks_remove` is in `callbacks`, once; every reference count is the
number of the references that exist; and every object that was allocated is in use, about to be
released, or released.

## Main definitions

* `Link.holds`: how often an `attrib_callbacks` will be removed.
* `Link.Ledger`: the accounts of a connection with the code that is still to be run.
* `Link.Balanced`: the accounts with all the suspended code.

## Main results

* `Link.Ledger.run`: suspended code keeps the accounts.
* `Link.Ledger.call`, `Link.Ledger.listen`, `Link.Ledger.drop`: so do the calls.
* `Link.Ledger.dispatch`: so do the dispatches.
-/

namespace Libble

open Att Gatt

namespace Link

/-! ### What suspended code counts for -/

/-- The operation holds `cb`. -/
def Op.holds (cb : Cb) (op : Op) : Nat := if op.cb = some cb then 1 else 0

namespace Code

/-- The code will remove `cb`. -/
def holds (cb : Cb) : Code → Nat
  | destroyOp op | discOp op => op.holds cb
  | callbacksRemove c => isOne cb c
  | _ => 0

/-- The code will release the `attrib_callbacks` at the address. -/
def dies (a : Nat) : Code → Nat
  | callbacksFree cb => isOne a cb.addr
  | _ => 0

/-- The code will give a reference to the record back. -/
def unrefs (r : Nat) : Code → Nat
  | recordUnref q => isOne r q
  | _ => 0

/-- The code will release the record. -/
def frees (r : Nat) : Code → Nat
  | recordFree q => isOne r q
  | _ => 0

/-- The code will give a reference to the `bt_att` back. -/
def attRefs : Code → Nat
  | attUnref | notifyNext .. | notifyCheck .. => 1
  | _ => 0

/-- The code will clear the pending request, which the operation has already left. -/
def ends : Code → Nat
  | rspDone | discDone => 1
  | _ => 0

/-- The code does not count for anything. -/
def inert : Code → Bool
  | emit .. | handler | freeRequest _ | discPending | timeoutDone | callbacksDestroy
  | unregisterAll | cancelAll | cancelPending => true
  | _ => false

/-- The weights of code in the accounts, except `holds` and `ends`. -/
inductive IsWeight : (Code → Nat) → Prop
  | dies (a : Nat) : IsWeight (dies a)
  | unrefs (r : Nat) : IsWeight (unrefs r)
  | frees (r : Nat) : IsWeight (frees r)
  | attribUnref : IsWeight (isOne attribUnref)
  | attUnref : IsWeight attRefs
  | attribFree : IsWeight (isOne attribFree)
  | attFree : IsWeight (isOne attFree)
  | chanFree : IsWeight (isOne chanFree)

theorem holds_of_inert {code : Code} (h : code.inert = true) (cb : Cb) : code.holds cb = 0 := by
  cases code <;> first | rfl | cases h

theorem ends_of_inert {code : Code} (h : code.inert = true) : code.ends = 0 := by
  cases code <;> first | rfl | cases h

/-- The code counts for nothing but what it holds. -/
def moving : Code → Bool
  | notifyNext .. | notifyCheck .. | callbacksFree _ | recordUnref _ | recordFree _
  | attribUnref | attUnref | attribFree | attFree
  | chanFree => false
  | _ => true

theorem weight_of_moving {f : Code → Nat} (hf : IsWeight f) {code : Code}
    (h : code.moving = true) : f code = 0 := by
  cases hf <;> cases code <;> first | rfl | cases h

theorem moving_of_inert {code : Code} (h : code.inert = true) : code.moving = true := by
  cases code <;> first | rfl | cases h

end Code

/-- The `attrib_callbacks` is at the address. -/
def Cb.at (a : Nat) (cb : Cb) : Nat := isOne a cb.addr

/-- The `attrib_callbacks` holds a reference to the record. -/
def Cb.refers (r : Nat) (cb : Cb) : Nat := if cb.record = some r then 1 else 0

/-- The pending request, unless it is being ended, holds `cb`. -/
def pendingHolds (s : Link) (codes : List Code) (cb : Cb) : Nat :=
  if tally Code.ends codes = 0 then tally (Op.holds cb) s.pendingReq.toList else 0

/-- How often `cb` will be removed. -/
def holds (s : Link) (codes : List Code) (cb : Cb) : Nat :=
  tally (Op.holds cb) s.reqQueue + tally (Op.holds cb) s.writeQueue + s.pendingHolds codes cb +
    tally (isOne cb) s.notifyList + tally (Code.holds cb) codes

/-- Whether a reference count is positive. -/
def positive (n : Int) : Nat := if 0 < n then 1 else 0

theorem positive_of_pos {n : Int} (h : 0 < n) : positive n = 1 := if_pos h

theorem positive_of_not_pos {n : Int} (h : ¬ 0 < n) : positive n = 0 := if_neg h

theorem positive_congr {m n : Int} (h : 0 < m ↔ 0 < n) : positive m = positive n :=
  if_congr h rfl rfl

/-- The accounts of a connection on which `codes` are still to be run. -/
structure Ledger (s : Link) (codes : List Code) : Prop where
  /-- What will be removed is there. -/
  holds_le : ∀ cb, s.holds codes cb ≤ tally (isOne cb) s.callbacks
  /-- An `attrib_callbacks` is in `callbacks`, about to be released, or released. -/
  addr_eq : ∀ a, tally (Cb.at a) s.callbacks + tally (Code.dies a) codes +
    s.freed.count (.callbacks a) = s.allocated.count (.callbacks a)
  /-- Addresses are given once. -/
  addr_le : ∀ a, s.allocated.count (.callbacks a) ≤ 1
  addr_lt : ∀ a, s.nextAddr ≤ a → s.allocated.count (.callbacks a) = 0
  /-- The reference count of a record. -/
  ref_eq : ∀ r, s.recordRef r = tally (Cb.refers r) s.callbacks + tally (Code.unrefs r) codes
  /-- A record is referred to, about to be released, or released. -/
  record_eq : ∀ r, positive (s.recordRef r) + tally (Code.frees r) codes +
    s.freed.count (.record r) = s.allocated.count (.record r)
  /-- A call has one record. -/
  record_le : ∀ r, s.allocated.count (.record r) ≤ 1
  record_lt : ∀ r, s.nextOwner ≤ r → s.allocated.count (.record r) = 0
  /-- The reference count of the `GAttrib`: the handle and every record that is referred to have
  a reference. -/
  attribRef_eq : ∃ live : List Nat, live.Nodup ∧ (∀ r, r ∈ live ↔ 0 < s.recordRef r) ∧
    s.attribRef = s.app.toNat + live.length + tally (isOne .attribUnref) codes
  /-- The reference count of the `bt_att`. -/
  attRef_eq : s.attRef = positive s.attribRef + tally Code.attRefs codes
  attrib_eq : positive s.attribRef + tally (isOne .attribFree) codes + s.freed.count .attrib = 1
  att_eq : positive s.attRef + tally (isOne .attFree) codes + s.freed.count .att = 1
  chan_eq : s.attached.toNat + tally (isOne .chanFree) codes + s.freed.count .chan = 1

/-- The accounts of a connection with all the code that is still to be run. -/
abbrev Balanced (s : Link) : Prop := s.Ledger s.todo

namespace Ledger

variable {s : Link} {codes rest : List Code} {cb : Cb} {r : Nat}

/-! ### Moving what is held -/

/-- The accounts are kept when the code `old` moves what it holds to other places. -/
theorem moved (old codes : List Code) (h : s.Ledger (old ++ rest)) {reqQueue writeQueue : List Op}
    {notifyList : List Cb} {pendingReq : Option Op} {todo : List Code}
    (hold : ∀ c ∈ old, c.moving = true) (hcodes : ∀ c ∈ codes, c.moving = true)
    (holds : ∀ cb, { s with reqQueue := reqQueue, writeQueue := writeQueue,
                            notifyList := notifyList, pendingReq := pendingReq,
                            todo := todo }.holds (codes ++ rest) cb ≤ s.holds (old ++ rest) cb) :
    { s with reqQueue := reqQueue, writeQueue := writeQueue, notifyList := notifyList,
             pendingReq := pendingReq, todo := todo }.Ledger (codes ++ rest) := by
  have weights : ∀ f, Code.IsWeight f → tally f (old ++ rest) = tally f (codes ++ rest) := by
    intro f hf
    rw [tally_append, tally_append,
      tally_eq_zero fun c hc => Code.weight_of_moving hf (hold c hc),
      tally_eq_zero fun c hc => Code.weight_of_moving hf (hcodes c hc)]
  exact {
    holds_le := fun cb => Nat.le_trans (holds cb) (h.holds_le cb)
    addr_eq := fun a => by rw [← h.addr_eq a, weights _ (.dies a)]
    addr_le := h.addr_le
    addr_lt := h.addr_lt
    ref_eq := fun r => by rw [h.ref_eq r, weights _ (.unrefs r)]
    record_eq := fun r => by rw [← h.record_eq r, weights _ (.frees r)]
    record_le := h.record_le
    record_lt := h.record_lt
    attribRef_eq := by simpa only [weights _ .attribUnref] using h.attribRef_eq
    attRef_eq := by simpa only [weights _ .attUnref] using h.attRef_eq
    attrib_eq := by simpa only [weights _ .attribFree] using h.attrib_eq
    att_eq := by simpa only [weights _ .attFree] using h.att_eq
    chan_eq := by simpa only [weights _ .chanFree] using h.chan_eq }

theorem push (codes : List Code) (h : s.Ledger rest) (inert : ∀ c ∈ codes, c.inert = true) :
    s.Ledger (codes ++ rest) := by
  refine h.moved [] _ nofun (fun c hc => Code.moving_of_inert (inert c hc)) fun cb => ?_
  simp only [Link.holds, pendingHolds, List.nil_append, tally_append,
    tally_eq_zero fun c hc => Code.holds_of_inert (inert c hc) cb,
    tally_eq_zero fun c hc => Code.ends_of_inert (inert c hc), Nat.zero_add]
  exact Nat.le_refl _

theorem pop {code : Code} (h : s.Ledger (code :: rest)) (inert : code.inert = true) :
    s.Ledger rest := by
  refine h.moved [code] []
    (List.forall_mem_singleton.mpr (Code.moving_of_inert inert)) nofun fun cb => ?_
  simp only [Link.holds, pendingHolds, List.nil_append, List.cons_append, tally_cons,
    Code.holds_of_inert inert, Code.ends_of_inert inert, Nat.zero_add]
  exact Nat.le_refl _

/-- The accounts do not depend on the other fields. -/
theorem congr (h : s.Ledger codes) (mtu : Mtu) (inReq writerActive : Bool) (faults : List Obj)
    (todo : List Code) (log : List Act) :
    { s with mtu := mtu, inReq := inReq, writerActive := writerActive, faults := faults,
             todo := todo, log := log }.Ledger codes :=
  ⟨h.1, h.2, h.3, h.4, h.5, h.6, h.7, h.8, h.9, h.10, h.11, h.12, h.13⟩

theorem use (h : s.Ledger codes) (o : Obj) : (s.use o).Ledger codes := h.congr _ _ _ _ _ _

theorem balanced_use (h : s.Balanced) (o : Obj) : (s.use o).Balanced := h.use o

theorem pushed (h : s.Ledger codes) (more : List Code) : (s.push more).Ledger codes :=
  h.congr _ _ _ _ _ _

theorem wakeupChanWriter (h : s.Ledger codes) : s.wakeupChanWriter.Ledger codes :=
  h.congr _ _ _ _ _ _

theorem wakeupWriter (h : s.Ledger codes) : s.wakeupWriter.Ledger codes := by
  rw [Link.wakeupWriter]
  split
  · exact h.wakeupChanWriter
  · exact h

/-- The release of a `request_t` is not in these accounts. -/
theorem freeRequest (h : s.Ledger codes) (r : Nat) : (s.free (.request r)).Ledger codes := by
  obtain ⟨h1, h2, h3, h4, h5, h6, h7, h8, h9, h10, h11, h12, h13⟩ := h
  refine ⟨h1, ?_, h3, h4, h5, ?_, h7, h8, h9, h10, ?_, ?_, ?_⟩ <;>
    simpa [free, Link.use, List.count_append] using ‹_›

/-! ### Suspended code -/

/-- `destroy_att_send_op` hands the callbacks of the operation on. -/
theorem destroyOp {op : Op} (h : s.Ledger (.destroyOp op :: rest)) :
    s.Ledger (op.cb.toList.map .callbacksRemove ++ rest) := by
  refine h.moved [_] _ (by simp [Code.moving]) (by simp [Code.moving]) fun cb => ?_
  cases hcb : op.cb <;>
    simp [Link.holds, pendingHolds, hcb, Code.holds, Code.ends, Op.holds, isOne]

/-- The pending request is cleared after its operation has left it. -/
theorem pendingClear {code : Code} (h : s.Ledger (code :: rest)) (hends : code.ends = 1) :
    { s with pendingReq := none }.Ledger rest := by
  have hcode : code = .rspDone ∨ code = .discDone := by
    cases code <;> simp [Code.ends] at hends ⊢
  refine h.moved [code] []
    (by rcases hcode with rfl | rfl <;> simp [Code.moving]) nofun fun cb => ?_
  rcases hcode with rfl | rfl <;>
    simp [Link.holds, pendingHolds, Code.holds, Code.ends]

/-- `disconnect_cb` ends the pending request. -/
theorem discPending (h : s.Ledger (.discPending :: rest)) (idle : tally Code.ends rest = 0) :
    s.Ledger (s.pendingReq.toList.flatMap (fun op => [.discOp op, .discDone]) ++ rest) := by
  refine h.moved [_] _ (by simp [Code.moving]) ?_ fun cb => ?_
  · cases s.pendingReq <;> simp [Code.moving]
  · cases hp : s.pendingReq <;>
      simp [Link.holds, pendingHolds, hp, idle, Code.holds, Code.ends]
    omega

theorem unregisterAll (h : s.Ledger (.unregisterAll :: rest)) :
    { s with notifyList := [] }.Ledger (s.notifyList.map Code.callbacksRemove ++ rest) := by
  refine h.moved [_] _ (by simp [Code.moving]) (by simp [Code.moving]) fun cb => ?_
  have hholds : tally (Code.holds cb) (s.notifyList.map Code.callbacksRemove) =
      tally (isOne cb) s.notifyList := tally_map ..
  have hends : tally Code.ends (s.notifyList.map Code.callbacksRemove) = 0 := by
    rw [tally_map]
    exact tally_eq_zero fun _ _ => rfl
  simp only [Link.holds, pendingHolds, tally_cons, tally_append, tally_nil, hholds, hends,
    Code.holds, Code.ends, Nat.zero_add]
  omega

/-- Operations leave the queues for code that ends or destroys them. -/
theorem queues (wrap : Op → Code) (code : Code) (h : s.Ledger rest)
    (wrapped : wrap = .destroyOp ∨ wrap = .discOp) (inert : code.inert = true) :
    { s with reqQueue := [], writeQueue := [] }.Ledger
      ((s.reqQueue ++ s.writeQueue).map wrap ++ ([code] ++ rest)) := by
  rw [← List.append_assoc]
  refine h.moved [] _ nofun ?_ fun cb => ?_
  · simp only [List.mem_append, List.mem_map, List.mem_singleton]
    rintro c (⟨op, -, rfl⟩ | rfl)
    · rcases wrapped with rfl | rfl <;> rfl
    · exact Code.moving_of_inert inert
  · have hholds : tally (Code.holds cb) ((s.reqQueue ++ s.writeQueue).map wrap) =
        tally (Op.holds cb) s.reqQueue + tally (Op.holds cb) s.writeQueue := by
      rw [tally_map, ← tally_append]
      rcases wrapped with rfl | rfl <;> rfl
    have hends : tally Code.ends ((s.reqQueue ++ s.writeQueue).map wrap) = 0 := by
      rw [tally_map]
      refine tally_eq_zero fun _ _ => ?_
      rcases wrapped with rfl | rfl <;> rfl
    simp only [Link.holds, pendingHolds, List.nil_append, tally_cons, tally_append, tally_nil,
      hholds, hends, Code.holds_of_inert inert, Code.ends_of_inert inert, Nat.zero_add]
    omega

/-- The callbacks of the pending request are destroyed, if it has not been ended already. -/
theorem cancelPending (h : s.Ledger (.cancelPending :: s.todo))
    (idle : tally Code.ends s.todo = 0) : s.cancelPending.Balanced := by
  simp only [Link.cancelPending]
  split
  · rename_i op _ hp
    refine h.moved [_] _ (by simp [Code.moving]) (by simp [Code.moving]) fun cb => ?_
    cases hcb : op.cb <;>
      simp [Link.holds, pendingHolds, Link.push, hp, hcb, idle, Code.holds, Code.ends,
        Op.holds, isOne]
    omega
  · exact h.pop rfl

/-- `attrib_callbacks_remove` finds what it is given. -/
theorem mem_callbacks (h : s.Ledger codes) (hholds : 0 < s.holds codes cb) : cb ∈ s.callbacks :=
  mem_of_tally_isOne_pos (Nat.lt_of_lt_of_le hholds (h.holds_le cb))

theorem holds_pos : 0 < s.holds (.callbacksRemove cb :: rest) cb := by
  simp only [Link.holds, tally_cons, Code.holds, isOne_self]
  omega

/-- What the code of `attrib_callbacks_destroy` counts for. -/
theorem tally_callbacksDestroy (f : Code → Nat) :
    tally f (Link.callbacksDestroy cb) =
      tally (fun r => f (.recordUnref r)) cb.record.toList + f (.callbacksFree cb) := by
  rw [Link.callbacksDestroy, tally_append, tally_map, tally_cons, tally_nil, Nat.add_zero]
  rfl

theorem unrefs_callbacksDestroy :
    tally (Code.unrefs r) (Link.callbacksDestroy cb) = Cb.refers r cb := by
  rw [tally_callbacksDestroy]
  cases hr : cb.record <;> simp [Code.unrefs, Cb.refers, isOne, hr]

theorem dies_callbacksDestroy (a : Nat) :
    tally (Code.dies a) (Link.callbacksDestroy cb) = Cb.at a cb := by
  rw [tally_callbacksDestroy, tally_eq_zero (fun _ _ => by rfl), Nat.zero_add]
  rfl

theorem other_callbacksDestroy {f : Code → Nat} (h₁ : ∀ r, f (.recordUnref r) = 0)
    (h₂ : f (.callbacksFree cb) = 0) : tally f (Link.callbacksDestroy cb) = 0 := by
  rw [tally_callbacksDestroy, tally_eq_zero fun r _ => h₁ r, h₂]

/-- An `attrib_callbacks` that is removed is about to be released. -/
theorem callbacksDestroy (h : s.Ledger (.callbacksRemove cb :: rest)) :
    { s with callbacks := s.callbacks.erase cb }.Ledger (Link.callbacksDestroy cb ++ rest) := by
  have he := fun f : Cb → Nat => tally_erase (f := f) (h.mem_callbacks holds_pos)
  obtain ⟨h1, h2, h3, h4, h5, h6, h7, h8, h9, h10, h11, h12, h13⟩ := h
  simp only [tally_cons, Code.dies, Code.unrefs, Code.frees, Code.attRefs, isOne, reduceCtorEq,
    if_false, Nat.zero_add] at h2 h5 h6 h9 h10 h11 h12 h13
  refine ⟨fun c => ?_, fun a => ?_, h3, h4, fun r => ?_, fun r => ?_, h7, h8, ?_, ?_, ?_, ?_, ?_⟩
  · have := h1 c
    have hc := he (isOne c)
    simp only [Link.holds, pendingHolds, tally_cons, tally_append,
      other_callbacksDestroy (f := Code.holds c) (fun _ => rfl) rfl,
      other_callbacksDestroy (f := Code.ends) (fun _ => rfl) rfl, Code.holds, Code.ends,
      Nat.zero_add] at this ⊢
    omega
  · have := h2 a
    have ha := he (Cb.at a)
    simp only [tally_append, dies_callbacksDestroy]
    omega
  · have := h5 r
    have ha := he (Cb.refers r)
    simp only [tally_append, unrefs_callbacksDestroy]
    omega
  · rw [tally_append, other_callbacksDestroy (fun _ => rfl) rfl, Nat.zero_add]
    exact h6 r
  · rwa [tally_append, other_callbacksDestroy (fun _ => rfl) rfl, Nat.zero_add]
  · rwa [tally_append, other_callbacksDestroy (fun _ => rfl) rfl, Nat.zero_add]
  · rwa [tally_append, other_callbacksDestroy (fun _ => rfl) rfl, Nat.zero_add]
  · rwa [tally_append, other_callbacksDestroy (fun _ => rfl) rfl, Nat.zero_add]
  · rwa [tally_append, other_callbacksDestroy (fun _ => rfl) rfl, Nat.zero_add]

theorem callbacksRemove (h : s.Ledger (.callbacksRemove cb :: s.todo)) :
    (s.callbacksRemove cb).Balanced := by
  have hmem : cb ∈ s.callbacks := h.mem_callbacks holds_pos
  simp only [Link.callbacksRemove, Link.use, hmem, if_true]
  exact h.callbacksDestroy.congr _ _ _ _ _ _

theorem callbacksFree (h : s.Ledger (.callbacksFree cb :: s.todo)) :
    ((s.use .attrib).free (.callbacks cb.addr)).Balanced := by
  obtain ⟨h1, h2, h3, h4, h5, h6, h7, h8, h9, h10, h11, h12, h13⟩ := h
  simp only [Link.holds, pendingHolds, tally_cons, Code.holds, Code.ends, Code.unrefs, Code.frees,
    Code.attRefs, isOne, reduceCtorEq, if_false, Nat.zero_add] at h1 h5 h6 h9 h10 h11 h12 h13
  refine ⟨h1, fun a => ?_, h3, h4, h5, fun r => ?_, h7, h8, h9, h10, ?_, ?_, ?_⟩
  · have := h2 a
    have hcount : [Obj.callbacks cb.addr].count (.callbacks a) = isOne a cb.addr := by
      simp [isOne, List.count_singleton]
    simp only [free, Link.use, List.count_append, hcount, tally_cons, Code.dies] at this ⊢
    omega
  · simpa [free, Link.use, List.count_append] using h6 r
  · simpa [free, Link.use, List.count_append] using h11
  · simpa [free, Link.use, List.count_append] using h12
  · simpa [free, Link.use, List.count_append] using h13

theorem recordFree (h : s.Ledger (.recordFree r :: s.todo)) :
    (s.free (.record r)).Balanced := by
  obtain ⟨h1, h2, h3, h4, h5, h6, h7, h8, h9, h10, h11, h12, h13⟩ := h
  simp only [Link.holds, pendingHolds, tally_cons, Code.holds, Code.ends, Code.unrefs, Code.dies,
    Code.attRefs, isOne, reduceCtorEq, if_false, Nat.zero_add] at h1 h2 h5 h9 h10 h11 h12 h13
  refine ⟨h1, fun a => ?_, h3, h4, h5, fun q => ?_, h7, h8, h9, h10, ?_, ?_, ?_⟩
  · simpa [free, Link.use, List.count_append] using h2 a
  · have := h6 q
    have hcount : [Obj.record r].count (.record q) = isOne q r := by
      simp [isOne, List.count_singleton]
    simp only [free, Link.use, List.count_append, hcount, tally_cons, Code.frees] at this ⊢
    omega
  · simpa [free, Link.use, List.count_append] using h11
  · simpa [free, Link.use, List.count_append] using h12
  · simpa [free, Link.use, List.count_append] using h13

/-! ### Reference counts -/

theorem recordUnref_last (h : s.recordRef r = 1) :
    s.recordUnref r = { s with
      recordRef := Function.update s.recordRef r 0
      todo := .attribUnref :: .recordFree r :: s.todo }.use (.record r) := by
  simp [Link.recordUnref, Link.use, Link.push, h]

theorem recordUnref_more (h : 1 < s.recordRef r) :
    s.recordUnref r = { s with
      recordRef := Function.update s.recordRef r (s.recordRef r - 1) }.use (.record r) := by
  simp [Link.recordUnref, Link.use, h]

/-- A record without references is about to be released, and with it its reference to the
`GAttrib`. -/
theorem recordUnref (h : s.Ledger (.recordUnref r :: s.todo)) : (s.recordUnref r).Balanced := by
  obtain ⟨h1, h2, h3, h4, h5, h6, h7, h8, ⟨live, hnodup, hlive, h9⟩, h10, h11, h12, h13⟩ := h
  simp only [Link.holds, pendingHolds, tally_cons, Code.holds, Code.ends, Code.dies, Code.unrefs,
    Code.frees, Code.attRefs, isOne, reduceCtorEq, if_false, Nat.zero_add]
    at h1 h2 h5 h6 h9 h10 h11 h12 h13
  have hr := h5 r
  rw [if_pos rfl] at hr
  -- the count of another record does not change
  have other : ∀ n q, q ≠ r → Function.update s.recordRef r n q = s.recordRef q :=
    fun n q hq => Function.update_of_ne hq ..
  have href : ∀ n, n = s.recordRef r - 1 → ∀ q, Function.update s.recordRef r n q =
      tally (Cb.refers q) s.callbacks + tally (Code.unrefs q) s.todo := by
    intro n hn q
    by_cases hq : q = r
    · subst hq
      rw [Function.update_self]
      omega
    · rw [other n q hq, h5 q, if_neg (Ne.symm hq)]
      omega
  by_cases hlast : s.recordRef r = 1
  · rw [recordUnref_last hlast]
    refine balanced_use ?_ _
    have hmem : r ∈ live := (hlive r).mpr (by omega)
    refine ⟨fun c => ?_, fun a => ?_, h3, h4, fun q => ?_, fun q => ?_, h7, h8,
      ⟨live.erase r, hnodup.erase r, fun q => ?_, ?_⟩, ?_, ?_, ?_, ?_⟩
    · simpa only [Link.holds, pendingHolds, tally_cons, Code.holds, Code.ends, Nat.zero_add]
        using h1 c
    · simpa only [tally_cons, Code.dies, Nat.zero_add] using h2 a
    · simpa only [tally_cons, Code.unrefs, Nat.zero_add] using href 0 (by omega) q
    · have := h6 q
      simp only [tally_cons, Code.frees, Nat.zero_add]
      by_cases hq : q = r
      · subst hq
        rw [positive_of_pos (by omega)] at this
        rw [Function.update_self, isOne_self, positive_of_not_pos (by omega)]
        omega
      · simp only [other 0 q hq, isOne, if_neg (Ne.symm hq), Nat.zero_add]
        exact this
    · rw [hnodup.mem_erase_iff, hlive q]
      show _ ↔ 0 < Function.update s.recordRef r 0 q
      by_cases hq : q = r
      · subst hq
        simp
      · rw [other 0 q hq]
        simp [hq]
    · have hlength := List.length_erase_add_one hmem
      simp only [tally_cons, isOne, reduceCtorEq, if_true, if_false, Nat.zero_add]
      omega
    · simpa only [tally_cons, Code.attRefs, Nat.zero_add] using h10
    · simpa only [tally_cons, isOne, reduceCtorEq, if_false, Nat.zero_add] using h11
    · simpa only [tally_cons, isOne, reduceCtorEq, if_false, Nat.zero_add] using h12
    · simpa only [tally_cons, isOne, reduceCtorEq, if_false, Nat.zero_add] using h13
  · rw [recordUnref_more (by omega)]
    refine balanced_use ?_ _
    have hiff : ∀ q, 0 < Function.update s.recordRef r (s.recordRef r - 1) q ↔
        0 < s.recordRef q := by
      intro q
      by_cases hq : q = r
      · subst hq
        rw [Function.update_self]
        omega
      · rw [other _ q hq]
    refine ⟨h1, h2, h3, h4, href _ rfl, fun q => ?_, h7, h8,
      ⟨live, hnodup, fun q => (hlive q).trans (hiff q).symm, h9⟩, h10, h11, h12, h13⟩
    simpa only [positive_congr (hiff q)] using h6 q

theorem attribUnref_last (h : s.attribRef = 1) :
    s.attribUnref = { s with
      attribRef := 0
      todo := .attUnref :: .callbacksDestroy :: .attribFree :: s.todo }.use .attrib := by
  simp [Link.attribUnref, Link.use, Link.push, h]

theorem attribUnref_more (h : s.attribRef ≠ 1) :
    s.attribUnref = { s with attribRef := s.attribRef - 1 }.use .attrib := by
  have hne : s.attribRef - 1 ≠ 0 := by omega
  simp [Link.attribUnref, Link.use, hne]

theorem attUnref_last (h : s.attRef = 1) :
    s.attUnref = { s with
      attRef := 0
      todo := .unregisterAll :: .cancelAll :: .attFree :: s.todo }.use .att := by
  simp [Link.attUnref, Link.use, Link.push, h]

theorem attUnref_more (h : s.attRef ≠ 1) :
    s.attUnref = { s with attRef := s.attRef - 1 }.use .att := by
  have hne : s.attRef - 1 ≠ 0 := by omega
  simp [Link.attUnref, Link.use, hne]

/-- The last reference to the `GAttrib` takes the reference to the `bt_att` with it. -/
theorem attribUnref (h : s.Ledger (.attribUnref :: s.todo)) : s.attribUnref.Balanced := by
  obtain ⟨h1, h2, h3, h4, h5, h6, h7, h8, ⟨live, hnodup, hlive, h9⟩, h10, h11, h12, h13⟩ := h
  simp only [Link.holds, pendingHolds, tally_cons, Code.holds, Code.ends, Code.dies, Code.unrefs,
    Code.frees, Code.attRefs, isOne, reduceCtorEq, if_false, if_true, Nat.zero_add]
    at h1 h2 h5 h6 h9 h10 h11 h12 h13
  by_cases hlast : s.attribRef = 1
  · rw [attribUnref_last hlast]
    refine balanced_use ?_ _
    rw [hlast, positive_of_pos (by omega)] at h10 h11
    refine ⟨fun c => ?_, fun a => ?_, h3, h4, fun q => ?_, fun q => ?_, h7, h8,
      ⟨live, hnodup, hlive, ?_⟩, ?_, ?_, ?_, ?_⟩
    · simpa only [Link.holds, pendingHolds, tally_cons, Code.holds, Code.ends, Nat.zero_add]
        using h1 c
    · simpa only [tally_cons, Code.dies, Nat.zero_add] using h2 a
    · simpa only [tally_cons, Code.unrefs, Nat.zero_add] using h5 q
    · simpa only [tally_cons, Code.frees, Nat.zero_add] using h6 q
    · simp only [tally_cons, isOne, reduceCtorEq, if_false, Nat.zero_add]
      omega
    · simp only [tally_cons, Code.attRefs]
      rw [positive_of_not_pos (by omega)]
      omega
    · simp only [tally_cons, isOne, reduceCtorEq, if_true, if_false, Nat.zero_add]
      rw [positive_of_not_pos (by omega)]
      omega
    · simpa only [tally_cons, isOne, reduceCtorEq, if_false, Nat.zero_add] using h12
    · simpa only [tally_cons, isOne, reduceCtorEq, if_false, Nat.zero_add] using h13
  · rw [attribUnref_more hlast]
    refine balanced_use ?_ _
    have hpos : positive (s.attribRef - 1) = positive s.attribRef := by
      rw [positive_of_pos (by omega), positive_of_pos (by omega)]
    refine ⟨h1, h2, h3, h4, h5, h6, h7, h8, ⟨live, hnodup, hlive, ?_⟩, ?_, ?_, h12, h13⟩
    · dsimp only
      omega
    · simpa only [hpos] using h10
    · simpa only [hpos] using h11

/-- The last reference to the `bt_att` is given back when the `GAttrib` has none any more. -/
theorem attUnref (h : s.Ledger (.attUnref :: s.todo)) : s.attUnref.Balanced := by
  obtain ⟨h1, h2, h3, h4, h5, h6, h7, h8, ⟨live, hnodup, hlive, h9⟩, h10, h11, h12, h13⟩ := h
  simp only [Link.holds, pendingHolds, tally_cons, Code.holds, Code.ends, Code.dies, Code.unrefs,
    Code.frees, Code.attRefs, isOne, reduceCtorEq, if_false, Nat.zero_add]
    at h1 h2 h5 h6 h9 h10 h11 h12 h13
  by_cases hlast : s.attRef = 1
  · rw [attUnref_last hlast]
    refine balanced_use ?_ _
    rw [hlast, positive_of_pos (by omega)] at h12
    refine ⟨fun c => ?_, fun a => ?_, h3, h4, fun q => ?_, fun q => ?_, h7, h8,
      ⟨live, hnodup, hlive, ?_⟩, ?_, ?_, ?_, ?_⟩
    · simpa only [Link.holds, pendingHolds, tally_cons, Code.holds, Code.ends, Nat.zero_add]
        using h1 c
    · simpa only [tally_cons, Code.dies, Nat.zero_add] using h2 a
    · simpa only [tally_cons, Code.unrefs, Nat.zero_add] using h5 q
    · simpa only [tally_cons, Code.frees, Nat.zero_add] using h6 q
    · simpa only [tally_cons, isOne, reduceCtorEq, if_false, Nat.zero_add] using h9
    · simp only [tally_cons, Code.attRefs, Nat.zero_add]
      omega
    · simpa only [tally_cons, isOne, reduceCtorEq, if_false, Nat.zero_add] using h11
    · simp only [tally_cons, isOne, reduceCtorEq, if_true, if_false, Nat.zero_add]
      rw [positive_of_not_pos (by omega)]
      omega
    · simpa only [tally_cons, isOne, reduceCtorEq, if_false, Nat.zero_add] using h13
  · rw [attUnref_more hlast]
    refine balanced_use ?_ _
    have hpos : positive (s.attRef - 1) = positive s.attRef := by
      rw [positive_of_pos (by omega), positive_of_pos (by omega)]
    refine ⟨h1, h2, h3, h4, h5, h6, h7, h8, ⟨live, hnodup, hlive, h9⟩, ?_, h11, ?_, h13⟩
    · dsimp only
      omega
    · simpa only [hpos] using h12

theorem attribFree (h : s.Ledger (.attribFree :: s.todo)) : (s.free .attrib).Balanced := by
  obtain ⟨h1, h2, h3, h4, h5, h6, h7, h8, h9, h10, h11, h12, h13⟩ := h
  simp only [Link.holds, pendingHolds, tally_cons, Code.holds, Code.ends, Code.unrefs, Code.dies,
    Code.frees, Code.attRefs, isOne, reduceCtorEq, if_false, if_true, Nat.zero_add]
    at h1 h2 h5 h6 h9 h10 h11 h12 h13
  refine ⟨h1, fun a => ?_, h3, h4, h5, fun q => ?_, h7, h8, h9, h10, ?_, ?_, ?_⟩
  · simpa [free, Link.use, List.count_append] using h2 a
  · simpa [free, Link.use, List.count_append] using h6 q
  · simp only [free, Link.use, List.count_append, List.count_singleton_self]
    omega
  · simpa [free, Link.use, List.count_append] using h12
  · simpa [free, Link.use, List.count_append] using h13

/-- The `GAttrib` destroys the callbacks that nothing will remove. -/
theorem callbacksDestroyAll (h : s.Ledger (.callbacksDestroy :: s.todo))
    (unheld : ∀ cb, s.holds s.todo cb = 0) : (s.run .callbacksDestroy).Balanced := by
  obtain ⟨h1, h2, h3, h4, h5, h6, h7, h8, h9, h10, h11, h12, h13⟩ := h
  simp only [tally_cons, Code.unrefs, Code.dies, Code.frees, Code.attRefs, isOne, reduceCtorEq,
    if_false, Nat.zero_add] at h2 h5 h6 h9 h10 h11 h12 h13
  have other : ∀ f : Code → Nat, (∀ r, f (.recordUnref r) = 0) →
      (∀ cb, f (.callbacksFree cb) = 0) →
      tally f (s.callbacks.flatMap Link.callbacksDestroy) = 0 := by
    intro f h₁ h₂
    rw [tally_flatMap]
    exact tally_eq_zero fun cb _ => other_callbacksDestroy h₁ (h₂ cb)
  simp only [Link.run, Link.push]
  refine ⟨fun cb => ?_, fun a => ?_, h3, h4, fun r => ?_, fun r => ?_, h7, h8, ?_, ?_, ?_, ?_, ?_⟩
  · have := unheld cb
    simp only [Link.holds, pendingHolds, tally_append,
      other (Code.holds cb) (fun _ => rfl) (fun _ => rfl),
      other Code.ends (fun _ => rfl) (fun _ => rfl), Nat.zero_add] at this ⊢
    omega
  · have := h2 a
    have hdies : tally (Code.dies a) (s.callbacks.flatMap Link.callbacksDestroy) =
        tally (Cb.at a) s.callbacks := by
      rw [tally_flatMap]
      exact tally_congr fun cb _ => dies_callbacksDestroy a
    simp only [tally_append, hdies, tally_nil]
    omega
  · have := h5 r
    have hunrefs : tally (Code.unrefs r) (s.callbacks.flatMap Link.callbacksDestroy) =
        tally (Cb.refers r) s.callbacks := by
      rw [tally_flatMap]
      exact tally_congr fun cb _ => unrefs_callbacksDestroy
    simp only [tally_append, hunrefs, tally_nil]
    omega
  · rw [tally_append, other _ (fun _ => rfl) (fun _ => rfl), Nat.zero_add]
    exact h6 r
  · rwa [tally_append, other _ (fun _ => rfl) (fun _ => rfl), Nat.zero_add]
  · rwa [tally_append, other _ (fun _ => rfl) (fun _ => rfl), Nat.zero_add]
  · rwa [tally_append, other _ (fun _ => rfl) (fun _ => rfl), Nat.zero_add]
  · rwa [tally_append, other _ (fun _ => rfl) (fun _ => rfl), Nat.zero_add]
  · rwa [tally_append, other _ (fun _ => rfl) (fun _ => rfl), Nat.zero_add]

theorem attFree_attached (h : s.attached = true) :
    s.attFree = ({ (s.push (s.pendingReq.toList.map .destroyOp)).free .chan with
      attached := false
      pendingReq := none }).free .att := by
  simp [Link.attFree, h]

theorem attFree_detached (h : s.attached = false) : s.attFree = s.free .att := by
  simp [Link.attFree, h]

/-- The channel that is still attached destroys its pending request. -/
theorem attFree (h : s.Ledger (.attFree :: s.todo)) (idle : tally Code.ends s.todo = 0) :
    s.attFree.Balanced := by
  obtain ⟨h1, h2, h3, h4, h5, h6, h7, h8, h9, h10, h11, h12, h13⟩ := h
  simp only [Link.holds, pendingHolds, tally_cons, Code.holds, Code.ends, Code.unrefs, Code.dies,
    Code.frees, Code.attRefs, isOne, reduceCtorEq, if_false, if_true, Nat.zero_add]
    at h1 h2 h5 h6 h9 h10 h11 h12 h13
  cases hattached : s.attached with
  | false =>
    rw [attFree_detached hattached]
    refine ⟨h1, fun a => ?_, h3, h4, h5, fun q => ?_, h7, h8, h9, h10, ?_, ?_, ?_⟩
    · simpa [free, Link.use, List.count_append] using h2 a
    · simpa [free, Link.use, List.count_append] using h6 q
    · simpa [free, Link.use, List.count_append] using h11
    · simp only [free, Link.use, List.count_append, List.count_singleton_self]
      omega
    · simpa [free, Link.use, List.count_append, hattached] using h13
  | true =>
    have destroyed : ∀ f : Code → Nat, (∀ op, f (.destroyOp op) = 0) →
        tally f (s.pendingReq.toList.map .destroyOp) = 0 := by
      intro f hf
      rw [tally_map]
      exact tally_eq_zero fun op _ => hf op
    rw [attFree_attached hattached]
    simp only [free, Link.use, Link.push]
    refine ⟨fun cb => ?_, fun a => ?_, h3, h4, fun r => ?_, fun q => ?_, h7, h8, ?_, ?_, ?_, ?_, ?_⟩
    · have := h1 cb
      have hholds : tally (Code.holds cb) (s.pendingReq.toList.map .destroyOp) =
          tally (Op.holds cb) s.pendingReq.toList := tally_map ..
      rw [if_pos idle] at this
      simp only [Link.holds, pendingHolds, tally_append, destroyed Code.ends (fun _ => rfl), idle,
        hholds, Option.toList_none, tally_nil, Nat.zero_add, if_true]
      omega
    · rw [tally_append, destroyed _ (fun _ => rfl)]
      simpa [List.count_append] using h2 a
    · rw [tally_append, destroyed _ (fun _ => rfl), Nat.zero_add]
      exact h5 r
    · rw [tally_append, destroyed _ (fun _ => rfl)]
      simpa [List.count_append] using h6 q
    · rwa [tally_append, destroyed _ (fun _ => rfl), Nat.zero_add]
    · rwa [tally_append, destroyed _ (fun _ => rfl), Nat.zero_add]
    · rw [tally_append, destroyed _ (fun _ => rfl)]
      simpa [List.count_append] using h11
    · have hcount :
          (s.freed ++ [Obj.chan] ++ [Obj.att]).count Obj.att = s.freed.count .att + 1 := by
        simp [List.count_append]
      rw [tally_append, destroyed _ (fun _ => rfl), hcount]
      dsimp only
      omega
    · have hcount :
          (s.freed ++ [Obj.chan] ++ [Obj.att]).count Obj.chan = s.freed.count .chan + 1 := by
        simp [List.count_append]
      rw [hattached, Bool.toNat_true] at h13
      rw [tally_append, destroyed _ (fun _ => rfl), hcount, Bool.toNat_false]
      omega

/-- The channel that was lost is released while there are references to the `bt_att`. -/
theorem chanFree (h : s.Ledger (.chanFree :: s.todo)) (pos : 0 < s.attRef) :
    (s.run .chanFree).Balanced := by
  obtain ⟨h1, h2, h3, h4, h5, h6, h7, h8, h9, h10, h11, h12, h13⟩ := h
  simp only [Link.holds, pendingHolds, tally_cons, Code.holds, Code.ends, Code.unrefs, Code.dies,
    Code.frees, Code.attRefs, isOne, reduceCtorEq, if_false, if_true, Nat.zero_add]
    at h1 h2 h5 h6 h9 h10 h11 h12 h13
  have hpos : positive (s.attRef + 1) = positive s.attRef := by
    rw [positive_of_pos (by omega), positive_of_pos pos]
  simp only [Link.run, free, Link.use, Link.push, List.cons_append, List.nil_append]
  refine ⟨fun cb => ?_, fun a => ?_, h3, h4, fun r => ?_, fun q => ?_, h7, h8, ?_, ?_, ?_, ?_, ?_⟩
  · simpa only [Link.holds, pendingHolds, tally_cons, Code.holds, Code.ends, Nat.zero_add]
      using h1 cb
  · simpa [List.count_append, Code.dies] using h2 a
  · simpa only [tally_cons, Code.unrefs, Nat.zero_add] using h5 r
  · simpa [List.count_append, Code.frees] using h6 q
  · simpa only [tally_cons, isOne, reduceCtorEq, if_false, Nat.zero_add] using h9
  · simp only [tally_cons, Code.attRefs, Nat.zero_add]
    omega
  · simpa [List.count_append, isOne] using h11
  · simpa [List.count_append, isOne, hpos] using h12
  · simp only [tally_cons, isOne, reduceCtorEq, if_false, Nat.zero_add, List.count_append,
      List.count_singleton_self]
    omega

theorem attRefs_cases {code : Code} (hcode : code.attRefs = 1) :
    code = .attUnref ∨ (∃ entry pdu found, code = .notifyNext entry pdu found) ∨
      ∃ entry pdu, code = .notifyCheck entry pdu := by
  cases code <;> simp [Code.attRefs] at hcode ⊢

/-- A reference to the `bt_att` is handed over to other code. -/
theorem handOver {code : Code} (code' : Code) (h : s.Ledger (code :: rest))
    (hcode : code.attRefs = 1)
    (hcode' : code'.attRefs = 1) : s.Ledger (code' :: rest) := by
  have same : ∀ f : Code → Nat, f code = f code' →
      tally f (code :: rest) = tally f (code' :: rest) :=
    fun f hf => congrArg (· + tally f rest) hf
  have hweight : ∀ f, Code.IsWeight f → tally f (code :: rest) = tally f (code' :: rest) := by
    intro f hf
    refine same f ?_
    rcases attRefs_cases hcode with rfl | ⟨_, _, _, rfl⟩ | ⟨_, _, rfl⟩ <;>
      rcases attRefs_cases hcode' with rfl | ⟨_, _, _, rfl⟩ | ⟨_, _, rfl⟩ <;> cases hf <;> rfl
  have hholds : ∀ cb,
      tally (Code.holds cb) (code :: rest) = tally (Code.holds cb) (code' :: rest) := by
    intro cb
    refine same _ ?_
    rcases attRefs_cases hcode with rfl | ⟨_, _, _, rfl⟩ | ⟨_, _, rfl⟩ <;>
      rcases attRefs_cases hcode' with rfl | ⟨_, _, _, rfl⟩ | ⟨_, _, rfl⟩ <;> rfl
  have hends : tally Code.ends (code :: rest) = tally Code.ends (code' :: rest) := by
    refine same _ ?_
    rcases attRefs_cases hcode with rfl | ⟨_, _, _, rfl⟩ | ⟨_, _, rfl⟩ <;>
      rcases attRefs_cases hcode' with rfl | ⟨_, _, _, rfl⟩ | ⟨_, _, rfl⟩ <;> rfl
  exact {
    holds_le := fun cb => by
      have := h.holds_le cb
      rwa [Link.holds, pendingHolds, hholds, hends] at this
    addr_eq := fun a => by rw [← hweight _ (.dies a), h.addr_eq]
    addr_le := h.addr_le
    addr_lt := h.addr_lt
    ref_eq := fun r => by rw [← hweight _ (.unrefs r), h.ref_eq]
    record_eq := fun r => by rw [← hweight _ (.frees r), h.record_eq]
    record_le := h.record_le
    record_lt := h.record_lt
    attribRef_eq := by rw [← hweight _ .attribUnref]; exact h.attribRef_eq
    attRef_eq := by rw [← hweight _ .attUnref]; exact h.attRef_eq
    attrib_eq := by rw [← hweight _ .attribFree]; exact h.attrib_eq
    att_eq := by rw [← hweight _ .attFree]; exact h.att_eq
    chan_eq := by rw [← hweight _ .chanFree]; exact h.chan_eq }

/-- A reference to the `bt_att` is taken. -/
theorem attInc (h : s.Ledger rest) (pos : 0 < s.attRef) :
    { s with attRef := s.attRef + 1 }.Ledger (.attUnref :: rest) := by
  have hpos : positive (s.attRef + 1) = positive s.attRef := by
    rw [positive_of_pos (by omega), positive_of_pos pos]
  obtain ⟨h1, h2, h3, h4, h5, h6, h7, h8, h9, h10, h11, h12, h13⟩ := h
  refine ⟨fun c => ?_, fun a => ?_, h3, h4, fun q => ?_, fun q => ?_, h7, h8, ?_, ?_, ?_, ?_, ?_⟩
  · simpa [Link.holds, pendingHolds, Code.holds, Code.ends] using h1 c
  · simpa [Code.dies] using h2 a
  · simpa [Code.unrefs] using h5 q
  · simpa [Code.frees] using h6 q
  · simpa [isOne] using h9
  · simp only [tally_cons, Code.attRefs]
    omega
  · simpa [isOne] using h11
  · simpa [isOne, hpos] using h12
  · simpa [isOne] using h13

/-! ### Sending -/

/-- An operation with an `attrib_callbacks` that is not held is queued, or refused. -/
theorem btAttSend {pdu : Pdu} {op : Option Cb} (h : s.Ledger codes)
    (room : ∀ cb, op = some cb → s.holds codes cb < tally (isOne cb) s.callbacks) :
    (s.btAttSend pdu op).Ledger codes := by
  have queued : ∀ o : Op, o.cb = op → ∀ cb, s.holds codes cb + Op.holds cb o ≤
      tally (isOne cb) s.callbacks := by
    intro o ho cb
    by_cases hcb : op = some cb
    · have := room cb hcb
      simp only [Op.holds, ho, hcb, if_true]
      omega
    · have := h.holds_le cb
      simp only [Op.holds, ho, hcb, if_false]
      omega
  simp only [Link.btAttSend]
  split
  · split
    · refine wakeupWriter ?_
      refine ⟨fun cb => ?_, h.2, h.3, h.4, h.5, h.6, h.7, h.8, h.9, h.10, h.11, h.12, h.13⟩
      have := queued ⟨pdu, getOpType (byteAt pdu 0), op⟩ rfl cb
      simp only [Link.holds, pendingHolds, tally_append, tally_cons, tally_nil] at this ⊢
      omega
    · refine wakeupWriter ?_
      refine ⟨fun cb => ?_, h.2, h.3, h.4, h.5, h.6, h.7, h.8, h.9, h.10, h.11, h.12, h.13⟩
      have := queued ⟨pdu, getOpType (byteAt pdu 0), op⟩ rfl cb
      simp only [Link.holds, pendingHolds, tally_append, tally_cons, tally_nil] at this ⊢
      omega
  · exact h

/-- What an `attrib_callbacks` that is made takes over: a reference to its record. -/
def credit (cb : Cb) : List Code := cb.record.toList.map .recordUnref

theorem unrefs_credit : tally (Code.unrefs r) (credit cb) = Cb.refers r cb := by
  rw [credit, Cb.refers]
  cases cb.record <;> simp [Code.unrefs, isOne]

theorem other_credit {f : Code → Nat} (hf : ∀ r, f (.recordUnref r) = 0) :
    tally f (credit cb ++ rest) = tally f rest := by
  have hzero : tally f (credit cb) = 0 :=
    (tally_map f _ _).trans (tally_eq_zero fun r _ => hf r)
  rw [tally_append, hzero, Nat.zero_add]

theorem holds_credit (h : s.Ledger (credit cb ++ rest)) (c : Cb) :
    s.holds rest c ≤ tally (isOne c) s.callbacks := by
  have := h.holds_le c
  rwa [Link.holds, pendingHolds, other_credit fun _ => rfl, other_credit fun _ => rfl] at this

/-- An `attrib_callbacks` is made. -/
theorem registered (cb : Cb) (h : s.Ledger (credit cb ++ rest)) (hcb : cb.addr = s.nextAddr) :
    { s.alloc (.callbacks cb.addr) with
      callbacks := cb :: s.callbacks
      nextAddr := s.nextAddr + 1 }.Ledger rest := by
  have hholds := holds_credit h
  have fresh := h.addr_lt s.nextAddr (Nat.le_refl _)
  have hcount : ∀ a, [Obj.callbacks cb.addr].count (.callbacks a) = Cb.at a cb := by
    intro a
    simp [Cb.at, isOne, List.count_singleton]
  obtain ⟨-, h2, h3, h4, h5, h6, h7, h8, h9, h10, h11, h12, h13⟩ := h
  simp only [tally_append, unrefs_credit] at h5
  rw [other_credit fun _ => rfl] at h9 h10 h11 h12 h13
  refine ⟨fun c => ?_, fun a => ?_, fun a => ?_, fun a ha => ?_, fun r => ?_, fun r => ?_,
    fun r => ?_, fun r hr => ?_, h9, h10, h11, h12, h13⟩
  · exact Nat.le_trans (hholds c) (Nat.le_add_left _ _)
  · have := h2 a
    rw [other_credit fun _ => rfl] at this
    simp only [alloc, tally_cons, List.count_append, hcount]
    omega
  · have := h3 a
    simp only [alloc, List.count_append, hcount, Cb.at, isOne]
    split
    · rename_i heq
      rw [hcb] at heq
      subst heq
      omega
    · omega
  · have := h4 a (Nat.le_of_succ_le ha)
    have hne : cb.addr ≠ a := by
      have : s.nextAddr + 1 ≤ a := ha
      omega
    simp only [alloc, List.count_append, hcount, Cb.at, isOne, if_neg hne]
    omega
  · have := h5 r
    simp only [alloc, tally_cons]
    omega
  · have := h6 r
    rw [other_credit fun _ => rfl] at this
    simpa [alloc, List.count_append] using this
  · simpa [alloc, List.count_append] using h7 r
  · simpa [alloc, List.count_append] using h8 r hr

/-- A request is sent: its `attrib_callbacks` takes over a reference to its record. -/
theorem gAttribSend {owner : Nat} {proc : Proc} (pdu : Pdu)
    (h : s.Ledger (credit ⟨s.nextAddr, .result owner proc⟩ ++ rest)) :
    (s.gAttribSend owner proc pdu).Ledger rest := by
  refine btAttSend (use ((use h .attrib).registered _ rfl) _) fun c hc => ?_
  obtain rfl := Option.some.inj hc
  have := holds_credit h ⟨s.nextAddr, .result owner proc⟩
  show s.holds rest _ < isOne _ _ + tally (isOne _) s.callbacks
  rw [isOne_self]
  omega

/-- `lble_listen` -/
theorem listen (h : s.Balanced) : s.listen.Balanced := by
  have made : Ledger _ s.todo := registered ⟨s.nextAddr, .notify⟩ h rfl
  simp only [Link.listen]
  split
  · refine ⟨fun c => ?_, made.2, made.3, made.4, made.5, made.6, made.7, made.8, made.9, made.10,
      made.11, made.12, made.13⟩
    have := h.holds_le c
    show tally (Op.holds c) s.reqQueue + tally (Op.holds c) s.writeQueue +
      s.pendingHolds s.todo c + tally (isOne c) (s.notifyList ++ [_]) +
      tally (Code.holds c) s.todo ≤ isOne c _ + tally (isOne c) s.callbacks
    rw [tally_append, tally_cons, tally_nil]
    rw [Link.holds] at this
    omega
  · exact made

/-- `lble_disconnect` -/
theorem drop (h : s.Balanced) (app : s.app = true) : s.drop.Balanced := by
  obtain ⟨h1, h2, h3, h4, h5, h6, h7, h8, ⟨live, hnodup, hlive, h9⟩, h10, h11, h12, h13⟩ := h
  simp only [Link.drop, Link.push]
  refine ⟨fun c => ?_, fun a => ?_, h3, h4, fun q => ?_, fun q => ?_, h7, h8,
    ⟨live, hnodup, hlive, ?_⟩, ?_, ?_, ?_, ?_⟩
  · simpa [Link.holds, pendingHolds, Code.holds, Code.ends] using h1 c
  · simpa [Code.dies] using h2 a
  · simpa [Code.unrefs] using h5 q
  · simpa [Code.frees] using h6 q
  · simp only [app, Bool.toNat_true, Bool.toNat_false, List.cons_append, List.nil_append,
      tally_cons, isOne_self] at h9 ⊢
    omega
  · simpa [Code.attRefs] using h10
  · simpa [isOne] using h11
  · simpa [isOne] using h12
  · simpa [isOne] using h13

/-- A record gets another reference. -/
theorem recordInc (h : s.Ledger rest) (pos : 0 < s.recordRef r) :
    (s.recordInc r).Ledger (.recordUnref r :: rest) := by
  have hiff : ∀ q, 0 < Function.update s.recordRef r (s.recordRef r + 1) q ↔
      0 < s.recordRef q := by
    intro q
    by_cases hq : q = r
    · subst hq
      rw [Function.update_self]
      omega
    · rw [Function.update_of_ne hq]
  obtain ⟨h1, h2, h3, h4, h5, h6, h7, h8, ⟨live, hnodup, hlive, h9⟩, h10, h11, h12, h13⟩ := h
  simp only [Link.recordInc]
  refine ⟨fun c => ?_, fun a => ?_, h3, h4, fun q => ?_, fun q => ?_, h7, h8,
    ⟨live, hnodup, fun q => (hlive q).trans (hiff q).symm, ?_⟩, ?_, ?_, ?_, ?_⟩
  · simpa [Link.holds, pendingHolds, Code.holds, Code.ends] using h1 c
  · simpa [Code.dies] using h2 a
  · have := h5 q
    simp only [tally_cons, Code.unrefs, isOne]
    by_cases hq : q = r
    · subst hq
      rw [Function.update_self, if_pos rfl]
      omega
    · rw [Function.update_of_ne hq, if_neg (Ne.symm hq)]
      omega
  · simpa [Code.frees, positive_congr (hiff q)] using h6 q
  · simpa [isOne] using h9
  · simpa [Code.attRefs] using h10
  · simpa [isOne] using h11
  · simpa [isOne] using h12
  · simpa [isOne] using h13

end Ledger

end Link

end Libble

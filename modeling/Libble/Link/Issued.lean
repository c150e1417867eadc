import Libble.Link.Partial

/-!
# The requests of one operation

Each request of an operation follows from the answer to the one before, except that the channel
sends a request again after it has raised its security level. This file lists the requests of an
operation, one that is sent again only once, and has a rule for results about such lists: what
holds when a request waits to be sent, after the requests and answers before it, is carried on by
every answer.

## Main definitions

* `Link.issued`: the requests of a dialogue.
* `Link.fulfilled`: the requests that were answered without an error, with the answers.
* `Link.Issuing`: the requests up to a phase.

## Main results

* `Link.issuing_of_course`: what every answer carries on holds along the course of an operation.
-/

namespace Libble

open Att Gatt

namespace Link

variable {buflen o : Nat}

/-- One exchange more: whether the next request is the last one again, and the requests so far. -/
def observe (seen : Bool × List Pdu) : Exchange Pdu Pdu → Bool × List Pdu
  | .sent _ req => (false, if seen.1 then seen.2 else seen.2 ++ [req])
  | .answered _ _ rsp => (decide (Securing rsp), seen.2)

/-- The requests of a dialogue; one that is sent again after a security error counts once. -/
def issued (dialogue : List (Exchange Pdu Pdu)) : List Pdu :=
  (dialogue.foldl observe (false, [])).2

/-- The requests of a dialogue that were answered without an error, with the answers. -/
def fulfilled (dialogue : List (Exchange Pdu Pdu)) : List (Pdu × Pdu) :=
  dialogue.filterMap fun
    | .answered _ req rsp => if (heard req rsp).1 = 0 then some (req, rsp) else none
    | .sent .. => none

/-- The offset in a Read Blob Request or a Prepare Write Request. -/
def offsetOf (req : Pdu) : Nat := (getLe16 req 3).toNat

/-! ### Answers that are followed by a request -/

section Answers

variable {req req' rsp : Pdu} {proc proc' : Proc}

/-- What is heard without an error is no security error. -/
theorem not_securing_of_heard (h : (heard req rsp).1 = 0) : ¬ Securing rsp := by
  rintro ⟨hop, hlength, hcode⟩
  rcases responseOf_cases (byteAt req 0) (byteAt rsp 0) (rsp.drop 1) with ⟨-, heq⟩ | heq
  · have hbyte : (rsp.drop 1).getD 3 0 = byteAt rsp 4 := by simp [byteAt]
    have hfour : ¬ (rsp.drop 1).length < 4 := by
      rw [List.length_drop]
      omega
    simp only [heard, heq, statusOf, if_pos hop, if_neg hfour, hbyte] at h
    rw [h] at hcode
    exact absurd hcode (by decide)
  · simp only [heard, heq, statusOf_failure] at h
    cases h

/-- A procedure that goes on has heard no error. -/
theorem heard_of_next (h : reactTo buflen req proc rsp = .next req' proc') :
    (heard req rsp).1 = 0 := by
  by_contra hstatus
  have ended : ∃ events, react buflen proc (heard req rsp).1 (heard req rsp).2 = .finish events :=
    react_of_error hstatus
  obtain ⟨events, hevents⟩ := ended
  rw [reactTo_eq, hevents] at h
  cases h

theorem fulfilled_sent (dialogue : List (Exchange Pdu Pdu)) (o : Nat) (req : Pdu) :
    fulfilled (dialogue ++ [.sent o req]) = fulfilled dialogue :=
  List.filterMap_append.trans (List.append_nil _)

theorem fulfilled_answered (dialogue : List (Exchange Pdu Pdu)) (o : Nat)
    (h : (heard req rsp).1 = 0) :
    fulfilled (dialogue ++ [.answered o req rsp]) = fulfilled dialogue ++ [(req, rsp)] := by
  simp [fulfilled, List.filterMap_append, h]

theorem fulfilled_refused (dialogue : List (Exchange Pdu Pdu)) (o : Nat)
    (h : (heard req rsp).1 ≠ 0) :
    fulfilled (dialogue ++ [.answered o req rsp]) = fulfilled dialogue := by
  simp [fulfilled, List.filterMap_append, h]

/-- What has been fulfilled stays fulfilled. -/
theorem fulfilled_mono (dialogue : List (Exchange Pdu Pdu)) (e : Exchange Pdu Pdu) :
    fulfilled dialogue <+: fulfilled (dialogue ++ [e]) :=
  ⟨_, List.filterMap_append.symm⟩

/-- A fulfilled request has been answered. -/
theorem answered_of_fulfilled {s : Link} (h : (req, rsp) ∈ fulfilled (s.dialogue o)) :
    .answered o req rsp ∈ s.dialogue o ∧ (heard req rsp).1 = 0 := by
  obtain ⟨e, he, hpair⟩ := List.mem_filterMap.mp h
  cases e with
  | sent => cases hpair
  | answered owner req' rsp' =>
    have hpair : (if (heard req' rsp').1 = 0 then some (req', rsp') else none) =
      some (req, rsp) := hpair
    split_ifs at hpair with hok
    obtain ⟨rfl, rfl⟩ := Prod.mk.inj (Option.some.inj hpair)
    obtain rfl : owner = o := of_decide_eq_true (List.mem_filter.mp he).2
    exact ⟨he, hok⟩

end Answers

/-! ### The requests up to a phase -/

/-- The requests of an operation that is in a phase, whether the next one is the last one again,
and what has been fulfilled. `Before settled req proc` says that `req` with its callback `proc`
comes after the requests and answers `settled`. -/
inductive Issuing (Before : List (Pdu × Pdu) → Pdu → Proc → Prop) :
    Bool × List Pdu → List (Pdu × Pdu) → Pipeline.Phase Pdu Proc Event → Prop
  | queued {settled : List (Pdu × Pdu)} {req : Pdu} {proc : Proc}
      (before : Before settled req proc) :
    Issuing Before (false, settled.map Prod.fst) settled (.queued req proc)
  | again {settled : List (Pdu × Pdu)} {req : Pdu} {proc : Proc}
      (before : Before settled req proc) :
    Issuing Before (true, settled.map Prod.fst ++ [req]) settled (.queued req proc)
  | pending {settled : List (Pdu × Pdu)} {req : Pdu} {proc : Proc}
      (before : Before settled req proc) :
    Issuing Before (false, settled.map Prod.fst ++ [req]) settled (.pending req proc)
  | ended {settled all : List (Pdu × Pdu)} {req : Pdu} {proc : Proc}
      (before : Before settled req proc) (again : Bool) (le : settled <+: all)
      (events : List Event) :
    Issuing Before (again, settled.map Prod.fst ++ [req]) all (.ended events)

section Course

variable {Before : List (Pdu × Pdu) → Pdu → Proc → Prop} {first : Pdu × Proc}
  {dialogue : List (Exchange Pdu Pdu)} {phase : Pipeline.Phase Pdu Proc Event}

/-- The requests are those before some request, with or without it. -/
theorem Issuing.exists_before {seen : Bool × List Pdu} {all : List (Pdu × Pdu)}
    (h : Issuing Before seen all phase) :
    ∃ settled req proc, Before settled req proc ∧ settled <+: all ∧
      (seen.2 = settled.map Prod.fst ∨ seen.2 = settled.map Prod.fst ++ [req]) := by
  cases h with
  | queued before => exact ⟨_, _, _, before, List.prefix_rfl, .inl rfl⟩
  | again before | pending before => exact ⟨_, _, _, before, List.prefix_rfl, .inr rfl⟩
  | ended before _ le => exact ⟨_, _, _, before, le, .inr rfl⟩

/-- The request that is waiting comes after all requests before it. -/
theorem Issuing.before_of_queued {seen : Bool × List Pdu} {all : List (Pdu × Pdu)} {req : Pdu}
    {proc : Proc} (h : Issuing Before seen all (.queued req proc)) : Before all req proc := by
  cases h with
  | queued before | again before => exact before

theorem Issuing.before_of_pending {seen : Bool × List Pdu} {all : List (Pdu × Pdu)} {req : Pdu}
    {proc : Proc} (h : Issuing Before seen all (.pending req proc)) : Before all req proc := by
  cases h with
  | pending before => exact before

/-- **What every answer carries on** to the next request holds along the course of an operation. -/
theorem issuing_of_course (start : Before [] first.1 first.2)
    (course : Pipeline.Course (reactTo buflen) Securing o first dialogue phase)
    (next : ∀ {settled req proc rsp req' proc'},
      settled ++ [(req, rsp)] <+: fulfilled dialogue → Before settled req proc →
      reactTo buflen req proc rsp = .next req' proc' →
      Before (settled ++ [(req, rsp)]) req' proc') :
    Issuing Before (dialogue.foldl observe (false, [])) (fulfilled dialogue) phase := by
  induction course with
  | start => exact .queued start
  | @send dialogue req _ _ ih =>
    have issuing := ih fun h => next (h.trans (fulfilled_mono _ _))
    rw [List.foldl_append, fulfilled_sent]
    generalize dialogue.foldl observe (false, []) = seen at issuing ⊢
    generalize fulfilled dialogue = settled at issuing ⊢
    cases issuing with
    | queued before => exact .pending before
    | again before => exact .pending before
  | @answer dialogue req proc _ rsp ih =>
    have issuing := ih fun h => next (h.trans (fulfilled_mono _ _))
    have le := fulfilled_mono dialogue (.answered o req rsp)
    rw [List.foldl_append]
    generalize dialogue.foldl observe (false, []) = seen at issuing ⊢
    cases hreact : reactTo buflen req proc rsp with
    | next req' proc' =>
      have hheard := heard_of_next hreact
      rw [fulfilled_answered dialogue o hheard] at next ⊢
      generalize fulfilled dialogue = settled at issuing next ⊢
      cases issuing with
      | pending before =>
        have settle : Issuing Before (false, (settled ++ [(req, rsp)]).map Prod.fst)
          (settled ++ [(req, rsp)]) _ := .queued (next List.prefix_rfl before hreact)
        rw [List.map_append] at settle
        show Issuing Before (decide (Securing rsp), _) _ _
        rw [decide_eq_false (not_securing_of_heard hheard)]
        exact settle
    | done events =>
      generalize fulfilled dialogue = settled at issuing le
      cases issuing with
      | pending before => exact .ended before _ le events
  | @retry dialogue req _ _ rsp securing ih =>
    have issuing := ih fun h => next (h.trans (fulfilled_mono _ _))
    rw [List.foldl_append, fulfilled_refused dialogue o fun h => not_securing_of_heard h securing]
    generalize dialogue.foldl observe (false, []) = seen at issuing ⊢
    generalize fulfilled dialogue = settled at issuing ⊢
    cases issuing with
    | pending before =>
      show Issuing Before (decide (Securing rsp), _) _ _
      rw [decide_eq_true securing]
      exact .again before

end Course

end Link

end Libble

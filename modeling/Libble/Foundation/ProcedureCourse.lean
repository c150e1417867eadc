import Libble.Foundation.RequestPipeline

/-!
# The course of one procedure

A procedure of a pipeline queues its first request, and from then on each of its requests is sent
and answered before it queues the next one, whatever the other procedures do meanwhile. Its course
up to a point of a run is therefore an alternation of requests and answers that can be followed by
itself: `Course` builds it up one exchange at a time, and an induction on it is an induction on
what has passed between this procedure and the peer.

Some answers can have the request sent again, as the environment decides.

## Main definitions

* `Pipeline.Phase`: whether a procedure waits in the queue, waits for an answer, or is over.
* `Pipeline.Course`: how a procedure comes to a phase.
* `Pipeline.dialogue`, `Pipeline.asked`: what has passed between a procedure and the peer.

## Main results

* `Pipeline.course_of_run`: in every run every procedure is in the phase that its dialogue leads to.
* `Pipeline.Course.ended_inv`: how a course ends.
-/

namespace Libble

universe u v w x

namespace Pipeline

variable {Req : Type u} {Rsp : Type v} {Cont : Type w} {Out : Type x}

/-- The state of a procedure. -/
inductive Phase (Req : Type u) (Cont : Type w) (Out : Type x)
  /-- Its request is in the queue. -/
  | queued (req : Req) (cont : Cont)
  /-- Its request has been sent. -/
  | pending (req : Req) (cont : Cont)
  /-- It has made its outputs. -/
  | ended (outs : List Out)
  deriving DecidableEq, Repr

/-- The outputs that a procedure has made. -/
def Phase.outputs : Phase Req Cont Out → List Out
  | queued .. | pending .. => []
  | ended outs => outs

end Pipeline

/-- The phase of a procedure after a turn. -/
def Turn.phase {Req : Type u} {Cont : Type w} {Out : Type x} :
    Turn Req Cont Out → Pipeline.Phase Req Cont Out
  | next req cont => .queued req cont
  | done outs => .ended outs

/-- The procedure that an exchange belongs to. -/
def Exchange.owner {Req : Type u} {Rsp : Type v} : Exchange Req Rsp → Nat
  | sent owner _ | answered owner _ _ => owner

namespace Pipeline

variable {Req : Type u} {Rsp : Type v} {Cont : Type w} {Out : Type x}

/-- The requests among exchanges. -/
def asked (dialogue : List (Exchange Req Rsp)) : List Req :=
  dialogue.filterMap fun
    | .sent _ req => some req
    | .answered .. => none

@[simp] theorem asked_nil : asked ([] : List (Exchange Req Rsp)) = [] := rfl

@[simp] theorem asked_sent (dialogue : List (Exchange Req Rsp)) (o : Nat) (req : Req) :
    asked (dialogue ++ [.sent o req]) = asked dialogue ++ [req] := List.filterMap_append

@[simp] theorem asked_answered (dialogue : List (Exchange Req Rsp)) (o : Nat) (req : Req)
    (rsp : Rsp) : asked (dialogue ++ [.answered o req rsp]) = asked dialogue :=
  List.filterMap_append.trans (List.append_nil _)

/-- The exchanges of the procedure `o`. -/
def dialogue (p : Pipeline Req Rsp Cont Out) (o : Nat) : List (Exchange Req Rsp) :=
  p.history.filter (·.owner = o)

section Course

variable (react : Req → Cont → Rsp → Turn Req Cont Out) (again : Rsp → Prop)

/-- How the procedure `o` comes from its first request to a phase: its requests are sent and
answered in turn, and only answers with `again` can have a request sent again. -/
inductive Course (o : Nat) (first : Req × Cont) :
    List (Exchange Req Rsp) → Phase Req Cont Out → Prop
  | start : Course o first [] (.queued first.1 first.2)
  | send {dialogue : List (Exchange Req Rsp)} {req : Req} {cont : Cont}
      (before : Course o first dialogue (.queued req cont)) :
    Course o first (dialogue ++ [.sent o req]) (.pending req cont)
  | answer {dialogue : List (Exchange Req Rsp)} {req : Req} {cont : Cont}
      (before : Course o first dialogue (.pending req cont)) (rsp : Rsp) :
    Course o first (dialogue ++ [.answered o req rsp]) (react req cont rsp).phase
  | retry {dialogue : List (Exchange Req Rsp)} {req : Req} {cont : Cont}
      (before : Course o first dialogue (.pending req cont)) {rsp : Rsp} (h : again rsp) :
    Course o first (dialogue ++ [.answered o req rsp]) (.queued req cont)

/-- Only answers with `again` have a request sent again. -/
def RetriedBy (_ : Pipeline Req Rsp Cont Out) : Label Req Rsp Cont → Prop
  | .retry rsp => again rsp
  | _ => True

/-- Every answer meets a condition. -/
def AnsweredBy (ok : Rsp → Prop) (_ : Pipeline Req Rsp Cont Out) : Label Req Rsp Cont → Prop
  | .answer rsp | .retry rsp => ok rsp
  | .submit .. | .send => True

/-- The procedure `o` is in a phase. -/
def In (p : Pipeline Req Rsp Cont Out) (o : Nat) : Phase Req Cont Out → Prop
  | .queued req cont => ⟨o, req, cont⟩ ∈ p.queue ∧ p.outputs o = []
  | .pending req cont => p.pending = some ⟨o, req, cont⟩ ∧ p.outputs o = []
  | .ended outs => p.Over o ∧ p.outputs o = outs

/-- Every procedure is in a phase that its dialogue leads to. -/
structure Coursing (p : Pipeline Req Rsp Cont Out) : Prop where
  sound : p.Sound
  owner_lt : ∀ e ∈ p.history, e.owner < p.started.length
  course : ∀ o first, p.started[o]? = some first →
    ∃ phase, Course react again o first (p.dialogue o) phase ∧ p.In o phase

end Course

variable {react : Req → Cont → Rsp → Turn Req Cont Out} {again : Rsp → Prop}
  {p q : Pipeline Req Rsp Cont Out} {label : Label Req Rsp Cont} {o : Nat} {first : Req × Cont}
  {phase : Phase Req Cont Out} {t : Task Req Cont} {e : Exchange Req Rsp}

/-- **How a course ends**: with an answer that the procedure makes its outputs of. -/
theorem Course.ended_inv {dialogue : List (Exchange Req Rsp)} {outs : List Out}
    (course : Course react again o first dialogue (.ended outs)) :
    ∃ before req cont rsp, dialogue = before ++ [.answered o req rsp] ∧
      Course react again o first before (.pending req cont) ∧ react req cont rsp = .done outs := by
  generalize hphase : Phase.ended outs = phase at course
  cases course with
  | start | send | retry => cases hphase
  | @answer dialogue req cont before rsp =>
    refine ⟨dialogue, req, cont, rsp, rfl, before, ?_⟩
    cases hreact : react req cont rsp with
    | next req' cont' => rw [hreact] at hphase; cases hphase
    | done outs' => rw [hreact] at hphase; rw [Phase.ended.inj hphase]

theorem In.outputs (h : p.In o phase) : p.outputs o = phase.outputs := by
  cases phase with
  | queued req cont | pending req cont => exact h.2
  | ended outs => exact h.2

/-- A procedure that is over is in the last phase. -/
theorem In.of_over (h : p.In o phase) (ended : p.Over o) : phase = .ended (p.outputs o) := by
  cases phase with
  | queued req cont => exact absurd rfl (ended _ (List.mem_append_right _ h.1))
  | pending req cont => exact absurd rfl (ended ⟨o, req, cont⟩ (by simp [waiting, h.1]))
  | ended outs => rw [h.2]

/-- What happens to other procedures does not change the phase. -/
theorem In.frame (h : p.In o phase) (hqueue : ∀ t, t.owner = o → (t ∈ q.queue ↔ t ∈ p.queue))
    (hpending : ∀ t, t.owner = o → (q.pending = some t ↔ p.pending = some t))
    (houtputs : q.outputs o = p.outputs o) : q.In o phase := by
  cases phase with
  | queued req cont => exact ⟨(hqueue _ rfl).mpr h.1, houtputs.trans h.2⟩
  | pending req cont => exact ⟨(hpending _ rfl).mpr h.1, houtputs.trans h.2⟩
  | ended outs =>
    refine ⟨fun t ht howner => ?_, houtputs.trans h.2⟩
    rcases List.mem_append.mp ht with ht | ht
    · have ht := (hpending t howner).mp (Option.mem_toList.mp ht)
      exact h.1 t (List.mem_append_left _ (Option.mem_toList.mpr ht)) howner
    · exact h.1 t (List.mem_append_right _ ((hqueue t howner).mp ht)) howner

/-- The owner of the pending request is in the phase of this request. -/
theorem In.of_pending (h : p.In t.owner phase) (sound : p.Sound) (hp : p.pending = some t) :
    phase = .pending t.req t.cont := by
  have hwaiting := waiting_of_pending hp
  have hmem : t ∈ p.waiting := hwaiting ▸ List.mem_cons_self
  cases phase with
  | queued req cont =>
    have hnodup := sound.nodup
    rw [hwaiting, List.map_cons, List.nodup_cons] at hnodup
    exact absurd (List.mem_map_of_mem (f := Task.owner) h.1) hnodup.1
  | pending req cont => rw [Option.some.inj (hp.symm.trans h.1)]
  | ended outs => exact absurd rfl (h.1 t hmem)

/-- The owner of a queued request is in the phase of this request. -/
theorem In.of_queue (h : p.In t.owner phase) (sound : p.Sound) (hp : p.pending = none)
    (ht : t ∈ p.queue) : phase = .queued t.req t.cont := by
  have hmem : t ∈ p.waiting := List.mem_append_right _ ht
  cases phase with
  | queued req cont => rw [← sound.eq_of_owner (List.mem_append_right _ h.1) hmem rfl]
  | pending req cont => exact nomatch hp.symm.trans h.1
  | ended outs => exact absurd rfl (h.1 t hmem)

theorem dialogue_concat_self (hhistory : q.history = p.history ++ [e]) (he : e.owner = o) :
    q.dialogue o = p.dialogue o ++ [e] := by
  simp [dialogue, hhistory, he]

theorem dialogue_concat_other (hhistory : q.history = p.history ++ [e]) (he : e.owner ≠ o) :
    q.dialogue o = p.dialogue o := by
  simp [dialogue, hhistory, he]

namespace Coursing

theorem init : (init : Pipeline Req Rsp Cont Out).Coursing react again :=
  ⟨sound_init, nofun, nofun⟩

theorem submit (h : p.Coursing react again) (req : Req) (cont : Cont) :
    (p.submit req cont).Coursing react again := by
  have hlength : (p.submit req cont).started.length = p.started.length + 1 := by
    simp [Pipeline.submit]
  refine ⟨h.sound.submit req cont, fun e he => ?_, fun o first hfirst => ?_⟩
  · rw [hlength]
    exact Nat.lt_succ_of_lt (h.owner_lt e he)
  · have hfirst : (p.started ++ [(req, cont)])[o]? = some first := hfirst
    by_cases hlt : o < p.started.length
    · rw [List.getElem?_append_left hlt] at hfirst
      obtain ⟨phase, course, inPhase⟩ := h.course o first hfirst
      refine ⟨phase, course, inPhase.frame (fun t ht => ?_) (fun _ _ => Iff.rfl) rfl⟩
      have hne : t ≠ ⟨p.started.length, req, cont⟩ := by
        rintro rfl
        exact Nat.ne_of_gt hlt ht
      simp [Pipeline.submit, hne]
    · obtain ⟨hlast, -⟩ := List.getElem?_eq_some_iff.mp hfirst
      rw [List.length_append, List.length_singleton] at hlast
      obtain rfl : o = p.started.length := by omega
      obtain rfl : (req, cont) = first := by simpa using hfirst
      have hdialogue : (p.submit req cont).dialogue p.started.length = [] :=
        List.filter_eq_nil_iff.mpr fun e he => by simpa using Nat.ne_of_lt (h.owner_lt e he)
      refine ⟨.queued req cont, hdialogue ▸ .start, ?_, h.sound.silent _ (Nat.le_refl _)⟩
      exact List.mem_append_right _ List.mem_cons_self

/-- An exchange leads the procedure it belongs to to another phase, and leaves the others where
they are. -/
theorem exchanged (h : p.Coursing react again) (sound : q.Sound)
    (hstarted : q.started = p.started) (hhistory : q.history = p.history ++ [e])
    (lt : e.owner < p.started.length)
    (own : ∀ {phase first}, Course react again e.owner first (p.dialogue e.owner) phase →
      p.In e.owner phase →
      ∃ phase', Course react again e.owner first (p.dialogue e.owner ++ [e]) phase' ∧
        q.In e.owner phase')
    (others : ∀ {o phase}, o ≠ e.owner → p.In o phase → q.In o phase) :
    q.Coursing react again := by
  refine ⟨sound, fun e' he' => ?_, fun o first hfirst => ?_⟩
  · rw [hhistory] at he'
    rw [hstarted]
    rcases List.mem_append.mp he' with he' | he'
    · exact h.owner_lt e' he'
    · obtain rfl := List.mem_singleton.mp he'
      exact lt
  · obtain ⟨phase, course, inPhase⟩ := h.course o first (hstarted ▸ hfirst)
    by_cases ho : o = e.owner
    · subst ho
      rw [dialogue_concat_self hhistory rfl]
      exact own course inPhase
    · rw [dialogue_concat_other hhistory (Ne.symm ho)]
      exact ⟨phase, course, others ho inPhase⟩

theorem step (h : p.Coursing react again) (retried : RetriedBy again p label)
    (hstep : step react p label = some q) : q.Coursing react again := by
  have sound := h.sound.step hstep
  cases label with
  | submit req cont =>
    obtain rfl := Option.some.inj hstep
    exact h.submit req cont
  | send =>
    obtain ⟨t, queue, hpending, hqueue, rfl⟩ := step_send hstep
    have ht : t ∈ p.queue := hqueue ▸ List.mem_cons_self
    refine h.exchanged (e := .sent t.owner t.req) sound rfl rfl
      (h.sound.owner_lt t (List.mem_append_right _ ht)) (fun course inPhase => ?_)
      (fun ho inPhase => inPhase.frame (fun u hu => ?_) (fun u hu => ?_) rfl)
    · obtain rfl := inPhase.of_queue h.sound hpending ht
      exact ⟨_, .send course, rfl, inPhase.2⟩
    · have hne : u ≠ t := by
        rintro rfl
        exact ho hu.symm
      simp [Pipeline.send, hqueue, hne]
    · have hne : t ≠ u := by
        rintro rfl
        exact ho hu.symm
      simp [Pipeline.send, hpending, hne]
  | answer rsp =>
    obtain ⟨t, hpending, rfl⟩ := step_answer hstep
    have hwaiting := waiting_of_pending hpending
    refine h.exchanged (e := .answered t.owner t.req rsp) sound started_settle history_settle
      (h.sound.owner_lt t (hwaiting ▸ List.mem_cons_self)) (fun course inPhase => ?_)
      (fun ho inPhase => inPhase.frame (fun u hu => ?_) (fun u hu => ?_) ?_)
    · obtain rfl := inPhase.of_pending h.sound hpending
      refine ⟨_, .answer course rsp, ?_⟩
      cases react t.req t.cont rsp with
      | next req cont => exact ⟨List.mem_append_right _ List.mem_cons_self, inPhase.2⟩
      | done outs =>
        refine ⟨fun u hu hou => ?_, ?_⟩
        · have hnodup := h.sound.nodup
          rw [hwaiting, List.map_cons, List.nodup_cons] at hnodup
          have hu : u ∈ p.queue := hu
          have hou : u.owner = t.owner := hou
          exact hnodup.1 (hou ▸ List.mem_map_of_mem hu)
        · show Function.update p.outputs t.owner (p.outputs t.owner ++ outs) t.owner = outs
          have houtputs : p.outputs t.owner = [] := inPhase.2
          rw [Function.update_self, houtputs, List.nil_append]
    · cases react t.req t.cont rsp with
      | next req cont =>
        have hne : u ≠ ⟨t.owner, req, cont⟩ := by
          rintro rfl
          exact ho hu.symm
        simp [settle, hne]
      | done outs => simp [settle]
    · have hne : t ≠ u := by
        rintro rfl
        exact ho hu.symm
      cases react t.req t.cont rsp <;> simp [settle, hpending, hne]
    · cases react t.req t.cont rsp with
      | next req cont => rfl
      | done outs => exact Function.update_of_ne ho ..
  | retry rsp =>
    obtain ⟨t, hpending, rfl⟩ := step_retry hstep
    refine h.exchanged (e := .answered t.owner t.req rsp) sound rfl rfl
      (h.sound.owner_lt t (waiting_of_pending hpending ▸ List.mem_cons_self))
      (fun course inPhase => ?_)
      (fun ho inPhase => inPhase.frame (fun u hu => ?_) (fun u hu => ?_) rfl)
    · obtain rfl := inPhase.of_pending h.sound hpending
      exact ⟨_, .retry course retried, List.mem_cons_self, inPhase.2⟩
    · have hne : u ≠ t := by
        rintro rfl
        exact ho hu.symm
      simp [requeue, hne]
    · have hne : t ≠ u := by
        rintro rfl
        exact ho hu.symm
      simp [requeue, hpending, hne]

end Coursing

/-- **The course of a procedure.** In every run every procedure is in the phase that its dialogue
with the peer leads to. -/
theorem course_of_run {labels : List (Label Req Rsp Cont)}
    (run : (machine react).Run (RetriedBy again) Pipeline.init labels p)
    (ho : p.started[o]? = some first) :
    ∃ phase, Course react again o first (p.dialogue o) phase ∧ p.In o phase := by
  have coursing : p.Coursing react again :=
    run.invariant Coursing.init fun h retried hstep => h.step retried hstep
  exact coursing.course o first ho

/-- The dialogue of a procedure leads to the request that is waiting. -/
theorem course_of_waiting {labels : List (Label Req Rsp Cont)}
    (run : (machine react).Run (RetriedBy again) Pipeline.init labels p) (ht : t ∈ p.waiting)
    (ho : p.started[t.owner]? = some first) :
    Course react again t.owner first (p.dialogue t.owner) (.queued t.req t.cont) ∨
      Course react again t.owner first (p.dialogue t.owner) (.pending t.req t.cont) := by
  have coursing : p.Coursing react again :=
    run.invariant Coursing.init fun h retried hstep => h.step retried hstep
  obtain ⟨phase, course, inPhase⟩ := coursing.course t.owner first ho
  cases phase with
  | queued req cont =>
    have heq := coursing.sound.eq_of_owner ht (List.mem_append_right _ inPhase.1) rfl
    have hreq : t.req = req := congrArg Task.req heq
    have hcont : t.cont = cont := congrArg Task.cont heq
    rw [hreq, hcont]
    exact .inl course
  | pending req cont =>
    have hmem : ⟨t.owner, req, cont⟩ ∈ p.waiting :=
      List.mem_append_left _ (Option.mem_toList.mpr inPhase.1)
    have heq := coursing.sound.eq_of_owner ht hmem rfl
    have hreq : t.req = req := congrArg Task.req heq
    have hcont : t.cont = cont := congrArg Task.cont heq
    rw [hreq, hcont]
    exact .inr course
  | ended outs => exact absurd rfl (inPhase.1 t ht)

/-- What every answer meets is met by those of the history. -/
theorem answers_of_run {ok : Rsp → Prop} {labels : List (Label Req Rsp Cont)}
    (run : (machine react).Run (AnsweredBy ok) Pipeline.init labels p) :
    ∀ {o req rsp}, .answered o req rsp ∈ p.history → ok rsp := by
  refine run.invariant
    (P := fun p => ∀ {o req rsp}, .answered o req rsp ∈ p.history → ok rsp) nofun ?_
  intro p label q h answered hstep o req rsp hmem
  have hstep : step react p label = some q := hstep
  cases label with
  | submit =>
    obtain rfl := Option.some.inj hstep
    exact h hmem
  | send =>
    obtain ⟨t, queue, -, -, rfl⟩ := step_send hstep
    exact h ((List.mem_append.mp hmem).resolve_right (by simp))
  | answer rsp' =>
    obtain ⟨t, -, rfl⟩ := step_answer hstep
    rw [history_settle] at hmem
    rcases List.mem_append.mp hmem with hmem | hmem
    · exact h hmem
    · obtain ⟨-, -, rfl⟩ := Exchange.answered.inj (List.mem_singleton.mp hmem)
      exact answered
  | retry rsp' =>
    obtain ⟨t, -, rfl⟩ := step_retry hstep
    rcases List.mem_append.mp hmem with hmem | hmem
    · exact h hmem
    · obtain ⟨-, -, rfl⟩ := Exchange.answered.inj (List.mem_singleton.mp hmem)
      exact answered

end Pipeline

end Libble

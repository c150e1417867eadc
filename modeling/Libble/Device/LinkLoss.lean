import Libble.Device.Handle

/-!
# Loss of the link

`channel_watcher` is the only code that notices the loss of a connection. It is installed once, by
`connect_cb`, for six conditions, and GLib may combine several of them in one mask. GLib removes a
watch when its callback returns `FALSE`, which `channel_watcher` always does, so only the first
mask of a connection is ever seen; and the `switch` of `channel_watcher` compares the whole mask
with single conditions, so a loss that is reported together with another condition is not handled.

`Device.deliver` is what one mask does: the dispatch, if the watch is still registered, and the
run of the code up to its end, with an event handler that calls nothing back. The loss of a link
is noticed along a sequence of masks (`Device.LossNoticed`) exactly when no mask arises or the
first one is a single loss condition.

## Main definitions

* `Device.ConnectedOn`, `Device.deliver`, `Device.LossNoticed`.

## Main results

* `Device.deliver_eq`: what one mask does to a connected handle.
* `Device.lossNoticed_iff`, `Device.not_lossNoticed_in_hup`.
-/

namespace Libble

namespace Device

/-! ### Running the library to the end of a dispatch -/

/-- Run the library with a handler that calls nothing back, for at most `n` steps. -/
def settle : ℕ → Device → Device
  | 0, d => d
  | n + 1, d => match d.todo with
    | [] => d
    | .handler :: todo => settle n { d with todo := todo }
    | code :: todo => settle n ({ d with todo := todo }.resume code)

/-- GLib sees the mask `cond` on the channel: it dispatches it if the watch is registered. The
callback runs at most four pieces of code. -/
def deliver (chan : Chan) (d : Device) (cond : GIOCondition) : Device :=
  if chan ∈ d.watches then settle 4 (d.channelWatcher chan cond) else d

/-- GLib sees a sequence of masks on the channel. -/
def deliverAll (chan : Chan) (d : Device) (conds : List GIOCondition) : Device :=
  conds.foldl (deliver chan) d

/-- The state is `STATE_CONNECTED`, an event handler is set, no library code is running, and the
channel has its one watch. -/
structure ConnectedOn (d : Device) (chan : Chan) : Prop where
  connState_eq : d.connState = .connected
  evh_eq : d.evh = true
  todo_eq : d.todo = []
  count_watches : d.watches.count chan = 1

/-- The loss of the link is noticed along a sequence of masks: as long as the state is
`STATE_CONNECTED` the watch is registered, and the first mask that reports a loss leads to
`STATE_DISCONNECTED` with exactly one `STATE_CHANGED` event, which reports it. -/
def LossNoticed (d : Device) (chan : Chan) (conds : List GIOCondition) : Prop :=
  (∀ before after, conds = before ++ after →
    (d.deliverAll chan before).connState = .connected →
      chan ∈ (d.deliverAll chan before).watches) ∧
  ∀ before cond after, conds = before ++ cond :: after → (∀ c ∈ before, ¬c.IsLoss) → cond.IsLoss →
    (d.deliverAll chan (before ++ [cond])).connState = .disconnected ∧
    ∃ acts, (d.deliverAll chan (before ++ [cond])).log = (d.deliverAll chan before).log ++ acts ∧
      (acts.filterMap fun | .event event => event.state? | _ => none) = [.disconnected]

/-! ### What one mask does -/

section Switch

variable {d : Device} {chan : Chan} {cond : GIOCondition}

theorem channelWatcher_of_isPureLoss (h : cond.IsPureLoss) :
    d.channelWatcher chan cond = (d.push [.watcherDone chan]).lbleDisconnect := if_pos h

theorem channelWatcher_of_read (hloss : ¬cond.IsPureLoss) (h : cond = .ofIn ∨ cond = .ofPri) :
    d.channelWatcher chan cond = d.push [.emit .dataToRead, .watcherDone chan] :=
  (if_neg hloss).trans (if_pos h)

theorem channelWatcher_of_write (hloss : ¬cond.IsPureLoss) (hread : ¬(cond = .ofIn ∨ cond = .ofPri))
    (h : cond = .ofOut) :
    d.channelWatcher chan cond = d.push [.emit .dataToWrite, .watcherDone chan] :=
  (if_neg hloss).trans ((if_neg hread).trans (if_pos h))

theorem channelWatcher_of_other (hloss : ¬cond.IsPureLoss) (hread : ¬(cond = .ofIn ∨ cond = .ofPri))
    (h : cond ≠ .ofOut) : d.channelWatcher chan cond = d.push [.watcherDone chan] :=
  (if_neg hloss).trans ((if_neg hread).trans (if_neg h))

end Switch

/-- The reaction of a connected handle to a mask, in one equation: the watch is gone whatever the
mask was, a single loss condition disconnects, and everything else at most reports data. -/
theorem deliver_eq {d : Device} {chan : Chan} (h : d.ConnectedOn chan) (cond : GIOCondition) :
    d.deliver chan cond =
      { d with
        watches := d.watches.erase chan
        connState := if cond.IsPureLoss then .disconnected else .connected
        iochannel := if cond.IsPureLoss then none else d.iochannel
        attrib := if cond.IsPureLoss then none else d.attrib
        log := d.log ++
          if cond.IsPureLoss then
            d.attrib.toList.map .attribUnref ++ [.event (.stateChanged .disconnected)]
          else if cond = .ofIn ∨ cond = .ofPri then [.event .dataToRead]
          else if cond = .ofOut then [.event .dataToWrite] else [] } := by
  obtain ⟨hstate, hevh, htodo, hcount⟩ := h
  have hmem : chan ∈ d.watches := List.count_pos_iff.mp (by omega)
  rw [deliver, if_pos hmem]
  by_cases hloss : cond.IsPureLoss
  · rw [channelWatcher_of_isPureLoss hloss]
    simp [settle, lbleDisconnect, push, record, resume, emit, hstate, hevh, htodo, hloss]
  · by_cases hread : cond = .ofIn ∨ cond = .ofPri
    · rw [channelWatcher_of_read hloss hread]
      simp [settle, push, record, resume, emit, hstate, hevh, htodo, hloss, hread]
    · by_cases hwrite : cond = .ofOut
      · rw [channelWatcher_of_write hloss hread hwrite]
        subst hwrite
        simp [settle, push, record, resume, emit, hstate, hevh, htodo, hloss, hread]
      · rw [channelWatcher_of_other hloss hread hwrite]
        simp [settle, push, resume, hstate, htodo, hloss, hread, hwrite]

/-- A mask does nothing when the watch is gone. -/
theorem deliver_of_notMem {d : Device} {chan : Chan} (h : chan ∉ d.watches)
    (cond : GIOCondition) : d.deliver chan cond = d := if_neg h

/-- No mask does anything when the watch is gone. -/
theorem deliverAll_of_notMem {d : Device} {chan : Chan} (h : chan ∉ d.watches) :
    ∀ conds, d.deliverAll chan conds = d
  | [] => rfl
  | cond :: conds => by
    rw [deliverAll, List.foldl_cons, deliver_of_notMem h]
    exact deliverAll_of_notMem h conds

/-- The one watch of a connected handle is gone after any mask. -/
theorem notMem_watches_deliver {d : Device} {chan : Chan} (h : d.ConnectedOn chan)
    (cond : GIOCondition) : chan ∉ (d.deliver chan cond).watches := by
  rw [deliver_eq h]
  refine List.count_eq_zero.mp ?_
  rw [List.count_erase_self, h.count_watches]

/-- Only the first mask counts. -/
theorem deliverAll_eq_deliver {d : Device} {chan : Chan} (h : d.ConnectedOn chan)
    (cond : GIOCondition) (conds : List GIOCondition) :
    d.deliverAll chan (cond :: conds) = d.deliver chan cond :=
  deliverAll_of_notMem (notMem_watches_deliver h cond) conds

theorem isLoss_of_isPureLoss {cond : GIOCondition} (h : cond.IsPureLoss) : cond.IsLoss := by
  rcases h with rfl | rfl | rfl <;> decide

/-! ### When the loss is noticed -/

/-- **The loss of the link is noticed only by the first mask, and only if it is a single
condition.** For a connected handle and any sequence of masks, the loss of the link is noticed
exactly when there is no mask at all or the first one is `G_IO_HUP`, `G_IO_ERR` or `G_IO_NVAL`
with no other bit. -/
theorem lossNoticed_iff {d : Device} {chan : Chan} (h : d.ConnectedOn chan)
    (conds : List GIOCondition) :
    d.LossNoticed chan conds ↔ ∀ cond ∈ conds.head?, cond.IsPureLoss := by
  have hmem : chan ∈ d.watches := List.count_pos_iff.mp (by rw [h.count_watches]; omega)
  cases conds with
  | nil =>
    refine iff_of_true ⟨fun before after hsplit _ => ?_, fun before cond after hsplit => ?_⟩
      (by simp)
    · obtain ⟨rfl, -⟩ := List.append_eq_nil_iff.mp hsplit.symm
      exact hmem
    · simp at hsplit
  | cons first conds =>
    simp only [List.head?_cons, Option.mem_def, Option.some.injEq, forall_eq']
    constructor
    · -- After the first mask the watch is gone, so the state must have changed.
      rintro ⟨registered, -⟩
      by_contra hpure
      refine notMem_watches_deliver h first (registered [first] conds rfl ?_)
      rw [deliverAll_eq_deliver h, deliver_eq h]
      exact if_neg hpure
    · intro hpure
      refine ⟨fun before after hsplit hconn => ?_, fun before cond after hsplit hnone hloss => ?_⟩
      · cases before with
        | nil => exact hmem
        | cons c before =>
          obtain ⟨rfl, -⟩ := List.cons_eq_cons.mp hsplit
          rw [deliverAll_eq_deliver h, deliver_eq h] at hconn
          simp [hpure] at hconn
      · cases before with
        | nil =>
          obtain ⟨rfl, -⟩ := List.cons_eq_cons.mp hsplit
          rw [List.nil_append, deliverAll_eq_deliver h, deliver_eq h]
          refine ⟨if_pos hpure, d.attrib.toList.map .attribUnref ++
            [.event (.stateChanged .disconnected)], ?_, ?_⟩
          · simp [hpure, deliverAll]
          · cases d.attrib <;> rfl
        | cons c before =>
          obtain ⟨rfl, -⟩ := List.cons_eq_cons.mp hsplit
          exact absurd (isLoss_of_isPureLoss hpure) (hnone _ List.mem_cons_self)

/-- A connected handle: its first attempt succeeded. -/
def sampleConnected : Device where
  connState := .connected
  iochannel := some 0
  attrib := some 0
  evh := true
  nextAttempt := 1
  attempts := []
  watches := [0]
  shut := []
  todo := []
  log := []

theorem lossNoticed_iff_sample :
    sampleConnected.LossNoticed 0 [.ofHup] ↔ ∀ cond ∈ [GIOCondition.ofHup].head?, cond.IsPureLoss :=
  lossNoticed_iff ⟨rfl, rfl, rfl, rfl⟩ [.ofHup]

/-- Data arrives and then the peer hangs up: after the first mask the state is still
`STATE_CONNECTED` and the watch is gone. -/
theorem not_lossNoticed_in_hup :
    sampleConnected.ConnectedOn 0 ∧ ¬sampleConnected.LossNoticed 0 [.ofIn, .ofHup] := by
  refine ⟨⟨rfl, rfl, rfl, rfl⟩, fun noticed => ?_⟩
  exact absurd (noticed.1 [.ofIn] [.ofHup] rfl (by decide)) (by decide)

end Device

end Libble

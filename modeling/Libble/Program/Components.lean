import Libble.Link.Wire
import Libble.Program.Teardown

/-!
# What holds of the components holds in the program

The handle and the clients of a program are in states that runs of their own machines reach. So
what was shown about these runs holds in every run of the program, however the outcomes of attempts,
the PDUs of several connections and the calls of the application, also inside the event handler,
are interleaved.

## Main results

* `Program.components_reached`: the handle and the clients in a run of the program.
* `Program.wire_wellformed`: what the clients write.
-/

namespace Libble

open Gatt

namespace Program

variable {p : Program} {k : Chan} {s : Link} {labels : List Label}

/-- **The program consists of its components.** In every run the handle is in a state that its own
machine reaches, every client is in a state that its own machine reaches from the one that
`g_attrib_new` leaves, it was made for the only connection of its attempt, and while the handle
refers to a client it has a reference to it. -/
theorem components_reached (run : machine.Run (fun _ _ => True) init labels p) :
    (∃ ls, Device.machine.Run (fun _ _ => True) (.newdev true) ls p.handle) ∧
    (∀ k s, p.client? k = some s →
      (∃ mtu ls, Link.machine.Run (fun _ _ => True) (.new mtu) ls s) ∧
        p.handle.log.count (.established k) = 1) ∧
    ∀ k, p.handle.attrib = some k → ∃ s, p.client? k = some s ∧ s.app = true := by
  have h := composed run
  refine ⟨h.handle, fun k s hs => ⟨h.clients k s hs, ?_⟩, h.held⟩
  obtain ⟨ls, handle⟩ := h.handle
  obtain ⟨removes, established, opened⟩ := Device.lifetime handle k
  have made : 0 < p.handle.log.count (.established k) :=
    List.count_pos_iff.mpr (h.made k s hs)
  have once : (if k < p.handle.nextAttempt then 1 else 0) ≤ 1 := by split <;> omega
  omega

theorem components_reached_waitingRun : ∃ p, waitingRun = some p ∧
    p.handle.attrib = some 0 ∧ (∃ s, p.client? 0 = some s ∧ s.app = true) ∧
    p.handle.log.count (.established 0) = 1 := by
  have hrun : waitingRun.map (fun p => p.handle.attrib) = some (some 0) := by decide +kernel
  obtain ⟨p, hp, hk⟩ := Option.map_eq_some_iff.mp hrun
  obtain ⟨-, clients, held⟩ := components_reached (machine.run_of_execGuarded hp)
  obtain ⟨s, hs, happ⟩ := held 0 hk
  exact ⟨p, hp, hk, ⟨s, hs, happ⟩, (clients 0 s hs).2⟩

/-- **What is on the wire can be read.** In every run, whatever the servers send and whatever the
application does, a client writes only PDUs that fit its MTU, and that are either what an encoder
makes of a request which the decoders read from it again, or the answer of
`respond_not_supported`. -/
theorem wire_wellformed (run : machine.Run (fun _ _ => True) init labels p)
    (hs : p.client? k = some s) (owner : Option Nat) (pdu : Att.Pdu)
    (sent : .sent owner pdu ∈ s.log) : Link.WellEncoded s.mtu.buflen pdu := by
  obtain ⟨mtu, ls, reached⟩ := (composed run).clients k s hs
  obtain ⟨rfl, wellformed⟩ := Link.wellformed_of_run reached
  exact wellformed pdu (List.mem_append_right _ (List.mem_filterMap.mpr ⟨_, sent, rfl⟩))

theorem wire_wellformed_waitingRun : ∃ p s, waitingRun = some p ∧ p.client? 0 = some s ∧
    .sent (some 0) [0x0a, 3, 0] ∈ s.log ∧ Link.WellEncoded s.mtu.buflen [0x0a, 3, 0] := by
  have hrun : (waitingRun.bind fun p => (p.client? 0).map fun s =>
      decide (.sent (some 0) [0x0a, 3, 0] ∈ s.log)) = some true := by decide +kernel
  obtain ⟨p, hp, hs⟩ := Option.bind_eq_some_iff.mp hrun
  obtain ⟨s, hs, sent⟩ := Option.map_eq_some_iff.mp hs
  have sent := of_decide_eq_true sent
  exact ⟨p, s, hp, hs, sent, wire_wellformed (machine.run_of_execGuarded hp) hs _ _ sent⟩

end Program

end Libble

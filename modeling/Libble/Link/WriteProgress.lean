import Libble.Gatt.LongWrite
import Libble.Link.Issued

/-!
# A long write stays inside the value

`prepare_write_cb` moves the offset of a long write on by the length of the response less its
header, and stops when the offset is the length of the value. It does not look at the length
first: a response without a part leaves the offset where it is, a shorter one moves it back below
0, and one that goes beyond the end makes it miss the end.

## Main definitions

* `Link.Inside`: the requests of a long write stay inside the value.
* `Link.echoes`: the lengths of the Prepare Write Responses.

## Main results

* `Link.write_inside`: a long write stays inside the value as long as every response moves the
  offset on, and not beyond the end.
-/

namespace Libble

open Att Gatt

namespace Link

variable {s : Link} {o : Nat} {mtu : Mtu} {buflen : Nat} {labels : List Label} {handle : UInt16}
  {data : List UInt8}

/-! ### Requests inside a value -/

/-- The Prepare Write Requests among the requests. -/
def preparesOf (reqs : List Pdu) : List Pdu := reqs.filter (byteAt · 0 = opPrepWriteReq)

/-- A Prepare Write Request offers a part of the value that begins inside it. -/
structure Offers (handle : UInt16) (data : List UInt8) (req : Pdu) (offset : Nat)
    (part : List UInt8) : Prop where
  req_eq : req = prepWriteReq handle offset part
  lt : offset < data.length
  ne_nil : part ≠ []
  isPrefix : part <+: data.drop offset

/-- A byte of the value is in a part that one of the requests offers. -/
def Offered (handle : UInt16) (data : List UInt8) (reqs : List Pdu) (i : Nat) : Prop :=
  ∃ req ∈ reqs, ∃ offset part, Offers handle data req offset part ∧
    offset ≤ i ∧ i < offset + part.length

/-- The requests of a long write stay inside the value: they offer parts of it at offsets that
go up, and it is executed only after all of it has been offered. -/
structure Inside (handle : UInt16) (data : List UInt8) (reqs : List Pdu) : Prop where
  each : ∀ req ∈ reqs, req = execWriteReq ∨ ∃ offset part, Offers handle data req offset part
  ascending : ((preparesOf reqs).map offsetOf).Pairwise (· < ·)
  complete : ∀ before, before ++ [execWriteReq] <+: reqs →
    ∀ i < data.length, Offered handle data before i
  length_le : (preparesOf reqs).length ≤ data.length

/-- There are not more ascending offsets below a bound than the bound. -/
theorem length_le_of_offsets {offsets : List Nat} {bound : Nat}
    (ascending : offsets.Pairwise (· < ·)) (lt : ∀ offset ∈ offsets, offset < bound) :
    offsets.length ≤ bound := by
  have nodup : offsets.Nodup := ascending.imp Nat.ne_of_lt
  have subset : offsets ⊆ List.range bound := fun offset h => List.mem_range.mpr (lt offset h)
  simpa using (List.subperm_of_subset nodup subset).length_le

theorem offsetOf_prepWriteReq {offset : Nat} (hoffset : offset ≤ 255) (part : List UInt8) :
    offsetOf (prepWriteReq handle offset part) = offset := by
  have hsplit : prepWriteReq handle offset part =
      (opPrepWriteReq :: putLe16 handle) ++ (putLe16 (UInt16.ofNat offset) ++ part) := by
    simp [prepWriteReq]
  have hget : getLe16 (prepWriteReq handle offset part) 3 = UInt16.ofNat offset := by
    rw [hsplit]
    exact (getLe16_append_right (opPrepWriteReq :: putLe16 handle) _ 0).trans (getLe16_putLe16 _ _)
  rw [offsetOf, hget, toNat_ofNat_offset hoffset]

theorem Offers.offsetOf_eq {req part : Pdu} {offset : Nat} (hdata : data.length ≤ 255)
    (h : Offers handle data req offset part) : offsetOf req = offset := by
  rw [h.req_eq, offsetOf_prepWriteReq (Nat.le_trans (Nat.le_of_lt h.lt) hdata)]

/-- The part at an offset inside the value is offered. -/
theorem offers_part (handle : UInt16) (hbuf : 23 ≤ buflen) {offset : Nat}
    (lt : offset < data.length) :
    Offers handle data (prepWriteReq handle offset (part buflen data offset)) offset
      (part buflen data offset) :=
  ⟨rfl, lt, (part_ne_nil hbuf lt).1, List.take_prefix _ _⟩

/-! ### What has been offered -/

/-- The requests offer the value up to an offset. -/
structure OfferedUpTo (handle : UInt16) (data : List UInt8) (reqs : List Pdu) (offset : Nat) :
    Prop where
  each : ∀ req ∈ reqs, ∃ start part, Offers handle data req start part ∧ start < offset
  ascending : (reqs.map offsetOf).Pairwise (· < ·)
  offered : ∀ i < offset, Offered handle data reqs i

namespace OfferedUpTo

variable {reqs : List Pdu} {offset n : Nat}

theorem zero : OfferedUpTo handle data [] 0 := ⟨nofun, .nil, nofun⟩

/-- One request more, of which the peer takes at least one byte and not more than the part. -/
theorem concat (h : OfferedUpTo handle data reqs offset) (hbuf : 23 ≤ buflen)
    (hdata : data.length ≤ 255) (lt : offset < data.length) (hpos : 0 < n)
    (hle : n ≤ (part buflen data offset).length) :
    OfferedUpTo handle data (reqs ++ [prepWriteReq handle offset (part buflen data offset)])
      (offset + n) := by
  have offers := offers_part handle hbuf lt
  refine ⟨fun req hreq => ?_, ?_, fun i hi => ?_⟩
  · rcases List.mem_append.mp hreq with hreq | hreq
    · obtain ⟨start, part, hoffers, hstart⟩ := h.each req hreq
      exact ⟨start, part, hoffers, Nat.lt_add_right n hstart⟩
    · obtain rfl := List.mem_singleton.mp hreq
      exact ⟨offset, _, offers, Nat.lt_add_of_pos_right hpos⟩
  · rw [List.map_append, List.map_singleton, offers.offsetOf_eq hdata]
    refine List.pairwise_append.mpr ⟨h.ascending, List.pairwise_singleton _ _, ?_⟩
    intro start hstart last hlast
    obtain rfl := List.mem_singleton.mp hlast
    obtain ⟨req, hreq, rfl⟩ := List.mem_map.mp hstart
    obtain ⟨start, part, hoffers, hlt⟩ := h.each req hreq
    rwa [hoffers.offsetOf_eq hdata]
  · by_cases hnew : offset ≤ i
    · exact ⟨_, List.mem_append_right _ List.mem_cons_self, offset, _, offers, hnew, by omega⟩
    · obtain ⟨req, hreq, hrest⟩ := h.offered i (Nat.lt_of_not_le hnew)
      exact ⟨req, List.mem_append_left _ hreq, hrest⟩

/-- The requests up to an offset are parts. -/
theorem preparesOf_eq (h : OfferedUpTo handle data reqs offset) : preparesOf reqs = reqs := by
  refine List.filter_eq_self.mpr fun req hreq => ?_
  obtain ⟨start, part, hoffers, -⟩ := h.each req hreq
  rw [hoffers.req_eq]
  rfl

theorem length_le (h : OfferedUpTo handle data reqs offset) (hdata : data.length ≤ 255) :
    reqs.length ≤ data.length := by
  have lt : ∀ start ∈ reqs.map offsetOf, start < data.length := by
    intro start hstart
    obtain ⟨req, hreq, rfl⟩ := List.mem_map.mp hstart
    obtain ⟨start, part, hoffers, -⟩ := h.each req hreq
    exact hoffers.offsetOf_eq hdata ▸ hoffers.lt
  simpa using length_le_of_offsets h.ascending lt

/-- An execution is not among the parts. -/
theorem execWriteReq_notMem (h : OfferedUpTo handle data reqs offset) : execWriteReq ∉ reqs := by
  intro hmem
  obtain ⟨start, part, hoffers, -⟩ := h.each _ hmem
  have hreq := hoffers.req_eq
  cases hreq

/-- Parts are inside the value. -/
theorem inside (h : OfferedUpTo handle data reqs offset) (hdata : data.length ≤ 255) :
    Inside handle data reqs := by
  refine ⟨fun req hreq => ?_, ?_, fun before hbefore => ?_, ?_⟩
  · obtain ⟨start, part, hoffers, -⟩ := h.each req hreq
    exact .inr ⟨start, part, hoffers⟩
  · rw [h.preparesOf_eq]
    exact h.ascending
  · exact absurd (hbefore.subset (List.mem_append_right _ List.mem_cons_self))
      h.execWriteReq_notMem
  · rw [h.preparesOf_eq]
    exact h.length_le hdata

/-- So is their execution when they are all parts. -/
theorem inside_execute (h : OfferedUpTo handle data reqs data.length) (hdata : data.length ≤ 255) :
    Inside handle data (reqs ++ [execWriteReq]) := by
  have hprepares : preparesOf (reqs ++ [execWriteReq]) = reqs := by
    rw [preparesOf, List.filter_append]
    exact (List.append_nil _).trans h.preparesOf_eq
  refine ⟨fun req hreq => ?_, ?_, fun before hbefore => ?_, ?_⟩
  · rcases List.mem_append.mp hreq with hreq | hreq
    · obtain ⟨start, part, hoffers, -⟩ := h.each req hreq
      exact .inr ⟨start, part, hoffers⟩
    · exact .inl (List.mem_singleton.mp hreq)
  · rw [hprepares]
    exact h.ascending
  · have hbefore' : before = reqs := by
      rcases List.prefix_concat_iff.mp hbefore with heq | hshorter
      · exact List.append_cancel_right heq
      · exact absurd (hshorter.subset (List.mem_append_right _ List.mem_cons_self))
          h.execWriteReq_notMem
    rw [hbefore']
    exact h.offered
  · rw [hprepares]
    exact h.length_le hdata

end OfferedUpTo

/-! ### The course of a long write -/

/-- The lengths of the Prepare Write Responses among the answers. -/
def echoesOf (settled : List (Pdu × Pdu)) : List Nat :=
  settled.filterMap fun (req, rsp) =>
    if byteAt req 0 = opPrepWriteReq then some rsp.length else none

/-- The lengths of the Prepare Write Responses to an operation. -/
def echoes (s : Link) (o : Nat) : List Nat := echoesOf (fulfilled (s.dialogue o))

/-- Every response takes at least one byte, and together they take no more than there are. -/
def Steps (data : List UInt8) (lengths : List Nat) : Prop :=
  (∀ n ∈ lengths, 5 < n) ∧ (lengths.map (· - 5)).sum ≤ data.length

/-- How far a long write has come when a request waits to be sent. -/
inductive WriteAt (buflen : Nat) (handle : UInt16) (data : List UInt8)
    (settled : List (Pdu × Pdu)) : Pdu → Proc → Prop
  | prepare {offset : Nat} (offered : OfferedUpTo handle data (settled.map Prod.fst) offset)
      (sum_eq : ((echoesOf settled).map (· - 5)).sum = offset) (lt : offset < data.length) :
    WriteAt buflen handle data settled (prepWriteReq handle offset (part buflen data offset))
      (.prepareWriteCb handle data (UInt16.ofNat offset))
  | execute (offered : OfferedUpTo handle data (settled.map Prod.fst) data.length) :
    WriteAt buflen handle data settled execWriteReq .charWriteCb

section Course

variable {settled : List (Pdu × Pdu)} {req req' rsp : Pdu} {proc proc' : Proc}

/-- A response that takes part of what was offered leads to the next part, or to the end. -/
theorem WriteAt.next (h : WriteAt buflen handle data settled req proc) (hbuf : 23 ≤ buflen)
    (hdata : data.length ≤ 255) (hne : rsp ≠ []) (hlength : rsp.length ≤ buflen)
    (steps : Steps data (echoesOf (settled ++ [(req, rsp)])))
    (hnext : reactTo buflen req proc rsp = .next req' proc') :
    WriteAt buflen handle data (settled ++ [(req, rsp)]) req' proc' := by
  have hheard := heard_of_ok hne (heard_of_next hnext)
  cases h with
  | execute offered =>
    obtain ⟨events, hdone⟩ := reactTo_charWriteCb buflen execWriteReq rsp
    cases hdone.symm.trans hnext
  | @prepare offset offered sum_eq lt =>
    have hechoes :
        echoesOf (settled ++ [(prepWriteReq handle offset (part buflen data offset), rsp)]) =
        echoesOf settled ++ [rsp.length] := List.filterMap_append
    have hsum : ((echoesOf (settled ++ [(prepWriteReq handle offset (part buflen data offset),
        rsp)])).map (· - 5)).sum = offset + (rsp.length - 5) := by
      rw [hechoes, List.map_append, List.sum_append, sum_eq]
      simp
    obtain ⟨hfive, hle⟩ := steps
    rw [hsum] at hle
    have hfive : 5 < rsp.length :=
      hfive _ (hechoes ▸ List.mem_append_right _ List.mem_cons_self)
    obtain ⟨n, hn⟩ : ∃ n, rsp.length = 5 + n := ⟨rsp.length - 5, by omega⟩
    have hn' : rsp.length - 5 = n := by omega
    rw [hn'] at hsum hle
    have hpart := length_part buflen data offset
    have offered' := offered.concat hbuf hdata lt (by omega : 0 < n) (by omega)
    have hmap : (settled ++ [(prepWriteReq handle offset (part buflen data offset), rsp)]).map
        Prod.fst = settled.map Prod.fst ++ [prepWriteReq handle offset (part buflen data offset)] :=
      List.map_append
    rw [← hmap] at offered'
    rw [reactTo_eq, hheard, react] at hnext
    by_cases hlast : offset + n = data.length
    · rw [prepareWriteCb_last handle hdata hn hlast] at hnext
      obtain ⟨rfl, rfl⟩ := Turn.next.inj hnext
      exact .execute (hlast ▸ offered')
    · have hlt : offset + n < data.length := Nat.lt_of_le_of_ne hle hlast
      rw [prepareWriteCb_next handle hdata hn hlt] at hnext
      obtain ⟨rfl, rfl⟩ := Turn.next.inj hnext
      exact .prepare offered' hsum hlt

/-- A write that has come that far has stayed inside the value. -/
theorem WriteAt.inside (h : WriteAt buflen handle data settled req proc) (hbuf : 23 ≤ buflen)
    (hdata : data.length ≤ 255) : Inside handle data (settled.map Prod.fst) ∧
      Inside handle data (settled.map Prod.fst ++ [req]) := by
  cases h with
  | @prepare offset offered sum_eq lt =>
    have hpart := part_ne_nil hbuf lt
    have offered' := offered.concat hbuf hdata lt (List.length_pos_iff.mpr hpart.1) (Nat.le_refl _)
    exact ⟨offered.inside hdata, offered'.inside hdata⟩
  | execute offered => exact ⟨offered.inside hdata, offered.inside_execute hdata⟩

theorem Steps.of_prefix {settled all : List (Pdu × Pdu)} (h : Steps data (echoesOf all))
    (le : settled <+: all) : Steps data (echoesOf settled) := by
  obtain ⟨rest, rfl⟩ := le
  have happend : echoesOf (settled ++ rest) = echoesOf settled ++ echoesOf rest :=
    List.filterMap_append
  rw [happend] at h
  obtain ⟨hfive, hsum⟩ := h
  rw [List.map_append, List.sum_append] at hsum
  exact ⟨fun n hn => hfive n (List.mem_append_left _ hn), by omega⟩

end Course

/-- **A long write stays inside the value** when every Prepare Write Response is longer than its
header, and the responses together take no more than the value has. -/
theorem write_inside (run : machine.Run (fun _ l => Undisturbed l) (Link.new mtu) labels s)
    (ho : s.calls[o]? = some (.write handle data)) (hlong : mtu.buflen - 3 < data.length)
    (hdata : data.length ≤ 255) (steps : Steps data (s.echoes o)) :
    Inside handle data (issued (s.dialogue o)) := by
  have hbuf := mtu.le_buflen
  obtain ⟨phase, course, -⟩ := course_of_run run ho
  have start : WriteAt mtu.buflen handle data [] ((Call.write handle data).begin mtu.buflen).1
      ((Call.write handle data).begin mtu.buflen).2 := by
    rw [Call.begin, gattWriteChar_long handle hdata hlong]
    exact .prepare .zero rfl (by omega)
  have issuing : Issuing (WriteAt mtu.buflen handle data)
      ((s.dialogue o).foldl observe (false, [])) (fulfilled (s.dialogue o)) phase := by
    refine issuing_of_course start course ?_
    intro settled req proc rsp req' proc' le writeAt hnext
    have hmem := le.subset (List.mem_append_right _ List.mem_cons_self)
    obtain ⟨hne, hlength⟩ := length_answer run (answered_of_fulfilled hmem).1
    exact writeAt.next hbuf hdata hne hlength (steps.of_prefix le) hnext
  obtain ⟨settled, req, proc, writeAt, -, hreqs⟩ := issuing.exists_before
  obtain ⟨inside, inside'⟩ := writeAt.inside hbuf hdata
  rcases hreqs with hreqs | hreqs
  · rw [issued, hreqs]
    exact inside
  · rw [issued, hreqs]
    exact inside'

/-- The peer takes ten bytes of the first part. -/
def shortenedRun : Option Link :=
  machine.execGuarded (fun _ l => Undisturbed l) (Link.new attDefaultLeMtu)
    (([.call (.write 5 sampleValue), .canWrite 23,
        .canRead (opPrepWriteRsp :: [5, 0, 0, 0] ++ .replicate 10 0x41) 1 true] : List Label) ++
      .replicate 5 .resume ++
      ([.canWrite 16, .canRead (opPrepWriteRsp :: [5, 0, 10, 0] ++ .replicate 11 0x41) 1 true] :
        List Label) ++ .replicate 5 .resume ++ [.canWrite 2])

theorem write_inside_shortenedRun : ∃ s, shortenedRun = some s ∧
    (preparesOf (issued (s.dialogue 0))).map offsetOf = [0, 10] ∧
      Inside 5 sampleValue (issued (s.dialogue 0)) := by
  have hrun : shortenedRun.map (fun s => (s.calls, s.echoes 0,
      (preparesOf (issued (s.dialogue 0))).map offsetOf)) =
        some ([.write 5 sampleValue], [15, 16], [0, 10]) := by decide
  obtain ⟨s, hs, hdata⟩ := Option.map_eq_some_iff.mp hrun
  obtain ⟨hcalls, hechoes, hoffsets⟩ : s.calls = [.write 5 sampleValue] ∧ s.echoes 0 = [15, 16] ∧
      _ := by
    simpa only [Prod.mk.injEq] using hdata
  have inside := write_inside (machine.run_of_execGuarded hs)
    (show s.calls[0]? = some (.write 5 sampleValue) by rw [hcalls]; rfl) (by decide) (by decide)
    (by rw [hechoes, Steps]; decide)
  exact ⟨s, hs, hoffsets, inside⟩

/-- A Prepare Write Response consists of its opcode only. -/
def outsideRun : Option Link :=
  machine.execGuarded (fun _ l => Undisturbed l) (Link.new attDefaultLeMtu)
    ([.call (.write 5 sampleValue), .canWrite 23, .canRead [opPrepWriteRsp] 1 true] ++
      .replicate 5 .resume ++ [.canWrite 23])

theorem not_inside_outsideRun : ∃ s, outsideRun = some s ∧
    ¬ Inside 5 sampleValue (issued (s.dialogue 0)) := by
  have hrun : outsideRun.map (fun s => (issued (s.dialogue 0)).map fun req =>
      (offsetOf req, decide (req = execWriteReq))) = some [(0, false), (65532, false)] := by decide
  obtain ⟨s, hs, hreqs⟩ := Option.map_eq_some_iff.mp hrun
  refine ⟨s, hs, fun inside => ?_⟩
  obtain ⟨req, hreq, hpair⟩ : ∃ req ∈ issued (s.dialogue 0),
      (offsetOf req, decide (req = execWriteReq)) = (65532, false) := by
    refine List.mem_map.mp ?_
    rw [hreqs]
    decide
  obtain ⟨hoffset, hexec⟩ := Prod.mk.inj hpair
  rcases inside.each req hreq with rfl | ⟨offset, part, offers⟩
  · cases hexec
  · have hlt := offers.offsetOf_eq (by decide) ▸ offers.lt
    rw [hoffset] at hlt
    exact absurd hlt (by decide)

end Link

end Libble

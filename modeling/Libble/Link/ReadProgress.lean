import Libble.Link.Issued

/-!
# A long read makes progress

`read_blob_helper` appends every part of a value to the buffer and adds its length to the size, a
16-bit number that is the position of the next part and, less the opcode, the offset of the next
request. Nothing but a part that is not full stops a peer from sending parts, so the size wraps
when the peer has sent 65535 bytes.

## Main definitions

* `Link.collected`: the number of value bytes in the answers.
* `Link.Progresses`: every request asks for what comes behind the bytes collected so far.
* `Link.buffered`: the buffer and the size of the record of a read.
* `Link.EndsWith`: the call of `char_read_cb` that a read has ended with.

## Main results

* `Link.read_progresses`: a read makes progress as long as the peer sends at most 65534 bytes.
-/

namespace Libble

open Att Gatt

namespace Link

variable {s : Link} {o : Nat} {mtu : Mtu} {buflen : Nat} {labels : List Label} {handle : UInt16}

/-! ### The requests of a read -/

/-- The number of value bytes in answers. -/
def collectedOf (settled : List (Pdu × Pdu)) : Nat :=
  (settled.map fun pair => pair.2.length - 1).sum

/-- The number of value bytes in the answers to an operation. -/
def collected (s : Link) (o : Nat) : Nat := collectedOf (fulfilled (s.dialogue o))

/-- The requests of a read ask for what comes behind the bytes collected so far, at offsets that go
up, and there are not more of them than the parts of 65535 bytes. -/
structure Progresses (buflen : Nat) (handle : UInt16) (settled : List (Pdu × Pdu))
    (reqs : List Pdu) : Prop where
  read : ∀ req, reqs[0]? = some req → req = encReadReq handle
  blob : ∀ k req, reqs[k + 1]? = some req → ∃ offset, req = encReadBlobReq handle offset ∧
    offset.toNat = collectedOf (settled.take (k + 1))
  ascending : (reqs.tail.map offsetOf).Pairwise (· < ·)
  length_le : reqs.tail.length ≤ 65535 / (buflen - 1) + 1

/-- The request `n` of a read whose answers are all full. -/
def readReq (buflen : Nat) (handle : UInt16) : Nat → Pdu
  | 0 => encReadReq handle
  | n + 1 => encReadBlobReq handle (UInt16.ofNat (blobOffset buflen (n + 1)))

theorem collectedOf_concat (settled : List (Pdu × Pdu)) (req rsp : Pdu) :
    collectedOf (settled ++ [(req, rsp)]) = collectedOf settled + (rsp.length - 1) := by
  simp [collectedOf]

theorem collectedOf_mono {settled all : List (Pdu × Pdu)} (h : settled <+: all) :
    collectedOf settled ≤ collectedOf all := by
  obtain ⟨rest, rfl⟩ := h
  simp [collectedOf]

/-- Full answers have the same length. -/
theorem collectedOf_full {settled : List (Pdu × Pdu)}
    (full : ∀ pair ∈ settled, pair.2.length = buflen) :
    collectedOf settled = blobOffset buflen settled.length := by
  have hmap : settled.map (fun pair => pair.2.length - 1) =
      List.replicate settled.length (buflen - 1) :=
    List.eq_replicate_iff.mpr ⟨List.length_map _, fun n hn => by
      obtain ⟨pair, hpair, rfl⟩ := List.mem_map.mp hn
      rw [full pair hpair]⟩
  rw [collectedOf, hmap, List.sum_replicate_nat, blobOffset]

section Full

variable {settled all : List (Pdu × Pdu)} {n : Nat}

/-- What was collected before a request when all answers before it were full. -/
theorem collectedOf_take (full : ∀ pair ∈ settled, pair.2.length = buflen) (le : settled <+: all)
    {k : Nat} (hk : k ≤ settled.length) : collectedOf (all.take k) = blobOffset buflen k := by
  obtain ⟨rest, rfl⟩ := le
  have hlength : (settled.take k).length = k := List.length_take_of_le hk
  rw [List.take_append_of_le_length hk,
    collectedOf_full fun pair hpair => full pair (List.mem_of_mem_take hpair), hlength]

/-- The first requests of a read make progress if the answers before them were full. -/
theorem progresses_of_full (hbuf : 23 ≤ buflen)
    (full : ∀ pair ∈ settled, pair.2.length = buflen) (le : settled <+: all)
    (hn : n ≤ settled.length + 1) (hcollected : collectedOf all ≤ 65534) :
    Progresses buflen handle all ((List.range n).map (readReq buflen handle)) := by
  have hoffset : ∀ {k}, k < n → blobOffset buflen k ≤ 65534 := by
    intro k hk
    rw [← collectedOf_take full le (by omega : k ≤ settled.length)]
    exact Nat.le_trans (collectedOf_mono (List.take_prefix k all)) hcollected
  have htoNat : ∀ {k}, k < n → (UInt16.ofNat (blobOffset buflen k)).toNat = blobOffset buflen k :=
    fun hk => UInt16.toNat_ofNat_of_lt' (Nat.lt_of_le_of_lt (hoffset hk) (by decide))
  have request : ∀ {k req}, ((List.range n).map (readReq buflen handle))[k]? = some req →
      k < n ∧ req = readReq buflen handle k := by
    intro k req hreq
    obtain ⟨hk, rfl⟩ := List.getElem?_eq_some_iff.mp hreq
    rw [List.length_map, List.length_range] at hk
    exact ⟨hk, by simp⟩
  have htail : ((List.range n).map (readReq buflen handle)).tail =
      (List.range (n - 1)).map fun k => readReq buflen handle (k + 1) := by
    cases n with
    | zero => rfl
    | succ n =>
      rw [List.range_succ_eq_map, List.map_cons, List.tail_cons, List.map_map]
      rfl
  refine ⟨fun req hreq => (request hreq).2, fun k req hreq => ?_, ?_, ?_⟩
  · obtain ⟨hk, rfl⟩ := request hreq
    refine ⟨_, rfl, ?_⟩
    rw [htoNat hk, collectedOf_take full le (by omega)]
  · have hmap : (List.range (n - 1)).map (offsetOf ∘ fun k => readReq buflen handle (k + 1)) =
        (List.range (n - 1)).map fun k => blobOffset buflen (k + 1) := by
      refine List.map_congr_left fun k hk => ?_
      have hk : k + 1 < n := Nat.add_lt_of_lt_sub (List.mem_range.mp hk)
      show (getLe16 (encReadBlobReq handle _) 3).toNat = _
      rw [offset_encReadBlobReq, htoNat hk]
    rw [htail, List.map_map, hmap, List.pairwise_map]
    refine List.pairwise_lt_range.imp fun hlt => ?_
    exact Nat.mul_lt_mul_of_pos_right (Nat.succ_lt_succ hlt) (by omega)
  · rw [htail, List.length_map, List.length_range]
    rcases Nat.eq_zero_or_pos n with rfl | hpos
    · exact Nat.zero_le _
    · have hle : (n - 1) * (buflen - 1) ≤ 65535 :=
        Nat.le_trans (hoffset (Nat.sub_lt hpos Nat.one_pos)) (by decide)
      exact Nat.le_succ_of_le ((Nat.le_div_iff_mul_le (by omega)).mpr hle)

end Full

/-! ### The course of a read -/

/-- How far a read has come when a request waits to be sent: all answers were full. -/
inductive ReadAt (buflen : Nat) (handle : UInt16) : List (Pdu × Pdu) → Pdu → Proc → Prop
  | read : ReadAt buflen handle [] (encReadReq handle) (.readCharHelper handle)
  | blob {settled : List (Pdu × Pdu)} {buffer : List UInt8} {size : UInt16}
      (full : ∀ pair ∈ settled, pair.2.length = buflen)
      (requests : settled.map Prod.fst = (List.range settled.length).map (readReq buflen handle))
      (pos : 0 < settled.length) (size_eq : size.toNat = buffer.length)
      (length_eq : buffer.length = collectedOf settled + 1) :
    ReadAt buflen handle settled (readReq buflen handle settled.length)
      (.readBlobHelper handle buffer size)

section Course

variable {settled all : List (Pdu × Pdu)} {req req' rsp : Pdu} {proc proc' : Proc}

/-- A read that has come that far has made progress. -/
theorem ReadAt.progresses (h : ReadAt buflen handle settled req proc) (hbuf : 23 ≤ buflen)
    (le : settled <+: all) (hcollected : collectedOf all ≤ 65534) :
    Progresses buflen handle all (settled.map Prod.fst) ∧
      Progresses buflen handle all (settled.map Prod.fst ++ [req]) := by
  cases h with
  | read =>
    have full : ∀ pair ∈ ([] : List (Pdu × Pdu)), pair.2.length = buflen :=
      fun _ hpair => absurd hpair List.not_mem_nil
    exact ⟨progresses_of_full (n := 0) hbuf full le (Nat.zero_le _) hcollected,
      progresses_of_full (n := 1) hbuf full le (Nat.le_refl _) hcollected⟩
  | blob full requests =>
    have hsucc : settled.map Prod.fst ++ [readReq buflen handle settled.length] =
        (List.range (settled.length + 1)).map (readReq buflen handle) := by
      rw [List.range_succ, List.map_append, requests]
      rfl
    rw [hsucc, requests]
    exact ⟨progresses_of_full hbuf full le (Nat.le_succ _) hcollected,
      progresses_of_full hbuf full le (Nat.le_refl _) hcollected⟩

/-- The size of the record is the number of bytes in its buffer. -/
theorem ReadAt.size_eq (h : ReadAt buflen handle settled req proc) {buffer : List UInt8}
    {size handle' : UInt16} (hproc : proc = .readBlobHelper handle' buffer size) :
    size.toNat = buffer.length := by
  cases h with
  | read => cases hproc
  | blob full requests pos size_eq =>
    cases hproc
    exact size_eq

theorem sub_one_eq {size : UInt16} {n : Nat} (h : size.toNat = n + 1) :
    size - 1 = UInt16.ofNat n := by
  have hsize : size = UInt16.ofNat n + 1 := by
    rw [← UInt16.ofNat_toNat (x := size), h, UInt16.ofNat_add]
    rfl
  rw [hsize, UInt16.add_sub_cancel]

/-- A full answer leads to the next request. -/
theorem ReadAt.next (h : ReadAt buflen handle settled req proc) (hne : rsp ≠ [])
    (hlength : rsp.length ≤ buflen) (hbuf : buflen < 2 ^ 16)
    (hcollected : collectedOf (settled ++ [(req, rsp)]) ≤ 65534)
    (hnext : reactTo buflen req proc rsp = .next req' proc') :
    ReadAt buflen handle (settled ++ [(req, rsp)]) req' proc' := by
  have hheard := heard_of_ok hne (heard_of_next hnext)
  have hrlen : (UInt16.ofNat rsp.length).toNat = rsp.length :=
    UInt16.toNat_ofNat_of_lt' (Nat.lt_of_le_of_lt hlength hbuf)
  have hpos : 0 < rsp.length := List.length_pos_iff.mpr hne
  have hmap : (settled ++ [(req, rsp)]).map Prod.fst = settled.map Prod.fst ++ [req] :=
    List.map_append
  have hcount : (settled ++ [(req, rsp)]).length = settled.length + 1 := List.length_append
  have hsum := collectedOf_concat settled req rsp
  rw [hsum] at hcollected
  -- a callback that goes on has taken a full answer
  have grown : ∀ {buffer : List UInt8} {size : UInt16}, rsp.length = buflen →
      (∀ pair ∈ settled, pair.2.length = buflen) →
      settled.map Prod.fst ++ [req] =
        (List.range (settled.length + 1)).map (readReq buflen handle) →
      size.toNat = buffer.length → buffer.length = collectedOf settled + (rsp.length - 1) + 1 →
      ReadAt buflen handle (settled ++ [(req, rsp)]) (encReadBlobReq handle (size - 1))
        (.readBlobHelper handle buffer size) := by
    intro buffer size hfull full requests size_eq length_eq
    have full' : ∀ pair ∈ settled ++ [(req, rsp)], pair.2.length = buflen :=
      List.forall_mem_append.mpr ⟨full, List.forall_mem_singleton.mpr hfull⟩
    have hreq : encReadBlobReq handle (size - 1) =
        readReq buflen handle (settled ++ [(req, rsp)]).length := by
      have hoffset := collectedOf_full full'
      rw [hcount, hsum] at hoffset
      rw [sub_one_eq (size_eq.trans length_eq), hoffset, hcount, readReq]
    rw [hreq]
    refine .blob full' ?_ (hcount ▸ Nat.succ_pos _) size_eq (by rw [hsum]; exact length_eq)
    rw [hmap, hcount]
    exact requests
  cases h with
  | read =>
    rw [reactTo_eq, hheard, react, readCharHelper, hrlen] at hnext
    dsimp only at hnext
    split_ifs at hnext with hshort
    · cases (hnext : Turn.done _ = _)
    obtain ⟨rfl, rfl⟩ := Turn.next.inj hnext
    refine grown (by omega) (fun _ hpair => absurd hpair List.not_mem_nil) rfl hrlen ?_
    rw [collectedOf]
    simp
    omega
  | @blob _ buffer size full requests pos size_eq length_eq =>
    rw [reactTo_eq, hheard, react, readBlobHelper, hrlen] at hnext
    dsimp only at hnext
    split_ifs at hnext with hdone hshort
    · cases (hnext : Turn.done _ = _)
    · cases (hnext : Turn.done _ = _)
    obtain ⟨rfl, rfl⟩ := Turn.next.inj hnext
    have hrest : (UInt16.ofNat rsp.length - 1).toNat = rsp.length - 1 := by
      rw [sub_one_eq (hrlen.trans (Nat.sub_add_cancel hpos).symm)]
      exact UInt16.toNat_ofNat_of_lt' (show _ < 2 ^ 16 by omega)
    have hbuffer : (buffer.take size.toNat ++ rsp.drop 1).length =
        collectedOf settled + (rsp.length - 1) + 1 := by
      rw [size_eq, List.take_length, List.length_append, List.length_drop, length_eq]
      omega
    refine grown (by omega) full ?_ ?_ hbuffer
    · rw [List.range_succ, List.map_append, requests]
      rfl
    · rw [UInt16.toNat_add, hrest, hbuffer, size_eq, length_eq]
      omega

/-- What a callback hears is the answer or an error. -/
theorem length_heard (req : Pdu) (hne : rsp ≠ []) : (heard req rsp).2.length = rsp.length ∨
    (heard req rsp).2.length = 1 := by
  rcases responseOf_cases (byteAt req 0) (byteAt rsp 0) (rsp.drop 1) with ⟨-, heq⟩ | heq
  · refine .inl ?_
    have hpos := List.length_pos_iff.mpr hne
    simp only [heard, heq, List.length_cons, List.length_drop]
    omega
  · refine .inr ?_
    simp only [heard, heq, List.length_cons, List.length_nil]

/-- An answer that ends the read has `char_read_cb` called with what is in the buffer. -/
theorem ReadAt.ends (h : ReadAt buflen handle settled req proc) (hne : rsp ≠ [])
    (hlength : rsp.length ≤ buflen) (hbuf : buflen < 2 ^ 16)
    (hcollected : (heard req rsp).1 = 0 → collectedOf (settled ++ [(req, rsp)]) ≤ 65534)
    {events : List Event} (hdone : reactTo buflen req proc rsp = .done events) :
    ∃ call, readCall buflen proc (heard req rsp).1 (heard req rsp).2 = some call ∧
      events = call.events handle ∧ call.plen.toNat = call.pdu.length := by
  have isRead : proc.isRead = true ∧ proc.readHandle = handle := by
    cases h with
    | read | blob => exact ⟨rfl, rfl⟩
  cases hcall : readCall buflen proc (heard req rsp).1 (heard req rsp).2 with
  | none =>
    obtain ⟨pdu, next, hsend, -⟩ := send_of_readCall isRead.1 hcall
    rw [reactTo_eq, hsend] at hdone
    cases hdone
  | some call =>
    have hevents := (turns_of_readCall hcall).1.symm.trans hdone
    rw [isRead.2] at hevents
    refine ⟨call, rfl, (Turn.done.inj hevents).symm, ?_⟩
    have hrlen : (UInt16.ofNat (heard req rsp).2.length).toNat = (heard req rsp).2.length := by
      refine UInt16.toNat_ofNat_of_lt' (show _ < 2 ^ 16 from ?_)
      have hpos := List.length_pos_iff.mpr hne
      rcases length_heard req hne with heq | heq
      · omega
      · omega
    cases h with
    | read =>
      obtain ⟨-, hcall⟩ := Option.ite_none_right_eq_some.mp hcall
      rw [← Option.some.inj hcall]
      exact hrlen
    | @blob _ buffer size full requests pos size_eq length_eq =>
      simp only [readCall] at hcall
      split_ifs at hcall with hend hshort
      · rw [← Option.some.inj hcall]
        exact size_eq
      · rw [not_or, not_not] at hend
        have hheard := heard_of_ok hne hend.1
        have hpos := List.length_pos_iff.mpr hne
        have hsum := hcollected hend.1
        rw [collectedOf_concat] at hsum
        simp only [hheard] at hcall hrlen
        have hrest : (UInt16.ofNat rsp.length - 1).toNat = rsp.length - 1 := by
          rw [sub_one_eq (hrlen.trans (Nat.sub_add_cancel hpos).symm)]
          exact UInt16.toNat_ofNat_of_lt' (show _ < 2 ^ 16 by omega)
        rw [← Option.some.inj hcall, size_eq, List.take_length, List.length_append,
          List.length_drop, UInt16.toNat_add, hrest, size_eq, length_eq]
        omega

end Course

/-! ### Runs -/

/-- The buffers and the sizes of the records of an operation that waits for an answer to a Read
Blob Request. -/
def buffered (s : Link) (o : Nat) : List (List UInt8 × UInt16) :=
  s.pipeline.waiting.filterMap fun task =>
    match task.cont with
    | .readBlobHelper _ buffer size => if task.owner = o then some (buffer, size) else none
    | _ => none

/-- The last answer has had `char_read_cb` called. -/
def EndsWith (s : Link) (o : Nat) (handle : UInt16) (call : ReadCall) : Prop :=
  ∃ before req proc rsp, s.dialogue o = before ++ [.answered o req rsp] ∧
    Pipeline.Course (reactTo s.mtu.buflen) Securing o ((Call.request handle).begin s.mtu.buflen)
      before (.pending req proc) ∧
    readCall s.mtu.buflen proc (heard req rsp).1 (heard req rsp).2 = some call

/-- The requests of a read along its course. -/
theorem readAt_of_course {dialogue : List (Exchange Pdu Pdu)}
    {phase : Pipeline.Phase Pdu Proc Event}
    (course : Pipeline.Course (reactTo buflen) Securing o ((Call.request handle).begin buflen)
      dialogue phase) (hbuf : buflen < 2 ^ 16)
    (arrived : ∀ req rsp, (req, rsp) ∈ fulfilled dialogue → rsp ≠ [] ∧ rsp.length ≤ buflen)
    (hcollected : collectedOf (fulfilled dialogue) ≤ 65534) :
    Issuing (ReadAt buflen handle) (dialogue.foldl observe (false, [])) (fulfilled dialogue)
      phase := by
  refine issuing_of_course .read course ?_
  intro settled req proc rsp req' proc' le readAt hnext
  obtain ⟨hne, hlength⟩ := arrived req rsp
    (le.subset (List.mem_append_right _ List.mem_cons_self))
  exact readAt.next hne hlength hbuf (Nat.le_trans (collectedOf_mono le) hcollected) hnext

/-- **A long read makes progress**, and the size of its record is the number of bytes that are in
its buffer, as long as the peer has not sent more than 65534 bytes. -/
theorem read_progresses (run : machine.Run (fun _ l => Undisturbed l) (Link.new mtu) labels s)
    (ho : s.calls[o]? = some (.request handle)) (hcollected : s.collected o ≤ 65534) :
    Progresses mtu.buflen handle (fulfilled (s.dialogue o)) (issued (s.dialogue o)) ∧
      (∀ buffer size, (buffer, size) ∈ s.buffered o → size.toNat = buffer.length) ∧
      (s.Finished o → ∃ call, s.EndsWith o handle call ∧ s.events o = call.events handle ∧
        call.plen.toNat = call.pdu.length) ∧
      (¬ s.Finished o → s.GoesOn) := by
  have hmtu : s.mtu = mtu := (pipeline_of_undisturbed run).1
  have hbuf : mtu.buflen < 2 ^ 16 := mtu.val.toNat_lt
  have arrived : ∀ req rsp, .answered o req rsp ∈ s.dialogue o →
      rsp ≠ [] ∧ rsp.length ≤ mtu.buflen := fun _ _ h => length_answer run h
  obtain ⟨phase, course, -, hfinished⟩ := course_of_run run ho
  have arrived' : ∀ req rsp, (req, rsp) ∈ fulfilled (s.dialogue o) →
      rsp ≠ [] ∧ rsp.length ≤ mtu.buflen := fun _ _ h => arrived _ _ (answered_of_fulfilled h).1
  have issuing := readAt_of_course course hbuf arrived' hcollected
  refine ⟨?_, fun buffer size hbuffered => ?_, fun finished => ?_, goesOn_of_run run⟩
  · obtain ⟨settled, req, proc, readAt, le, hreqs⟩ := issuing.exists_before
    obtain ⟨progresses, progresses'⟩ := readAt.progresses mtu.le_buflen le hcollected
    rcases hreqs with hreqs | hreqs
    · rw [issued, hreqs]
      exact progresses
    · rw [issued, hreqs]
      exact progresses'
  · obtain ⟨task, ht, htask⟩ := List.mem_filterMap.mp hbuffered
    split at htask
    · rename_i handle' buffer' size' hcont
      obtain ⟨rfl, hpair⟩ := Option.ite_none_right_eq_some.mp htask
      obtain ⟨rfl, rfl⟩ := Prod.mk.inj (Option.some.inj hpair)
      have readAt : ReadAt mtu.buflen handle (fulfilled (s.dialogue task.owner)) task.req
          task.cont := by
        rcases course_of_waiting run ho ht with course | course
        · exact (readAt_of_course course hbuf arrived' hcollected).before_of_queued
        · exact (readAt_of_course course hbuf arrived' hcollected).before_of_pending
      exact readAt.size_eq hcont
    · cases htask
  · rw [hfinished finished] at course
    obtain ⟨before, req, proc, rsp, hdialogue, course', hdone⟩ := course.ended_inv
    obtain ⟨hne, hlength⟩ :=
      arrived req rsp (hdialogue ▸ List.mem_append_right _ List.mem_cons_self)
    rw [collected, hdialogue] at hcollected
    have le : fulfilled before <+: fulfilled (s.dialogue o) := hdialogue ▸ fulfilled_mono _ _
    have readAt := (readAt_of_course course' hbuf (fun req rsp h => arrived' req rsp (le.subset h))
      (Nat.le_trans (collectedOf_mono (fulfilled_mono _ _)) hcollected)).before_of_pending
    have last : (heard req rsp).1 = 0 → collectedOf (fulfilled before ++ [(req, rsp)]) ≤ 65534 :=
      fun hheard => fulfilled_answered before o hheard ▸ hcollected
    obtain ⟨call, hcall, hevents, hplen⟩ := readAt.ends hne hlength hbuf last hdone
    exact ⟨call, ⟨before, req, proc, rsp, hdialogue, hmtu ▸ course', hmtu ▸ hcall⟩, hevents, hplen⟩

/-- A value is read in two parts. -/
def twoPartRun : Option Link :=
  machine.execGuarded (fun _ l => Undisturbed l) (Link.new attDefaultLeMtu)
    ([.call (.request 9), .canWrite 3, .canRead (opReadRsp :: fullValue) 1 true] ++
      .replicate 6 .resume ++
      [.canWrite 5, .canRead [opReadBlobRsp, 7, 7] 1 true, .resume, .ret] ++ .replicate 9 .resume)

theorem read_progresses_twoPartRun : ∃ s, twoPartRun = some s ∧
    issued (s.dialogue 0) = [encReadReq 9, encReadBlobReq 9 22] ∧ ∃ call, s.EndsWith 0 9 call ∧
      s.events 0 = call.events 9 ∧ call.plen.toNat = call.pdu.length := by
  have hrun : twoPartRun.map (fun s => (s.calls, decide (s.Finished 0), s.collected 0,
      issued (s.dialogue 0))) =
        some ([.request 9], true, 24, [encReadReq 9, encReadBlobReq 9 22]) := by decide
  obtain ⟨s, hs, hdata⟩ := Option.map_eq_some_iff.mp hrun
  obtain ⟨hcalls, hfinished, hcollected, hissued⟩ : s.calls = [.request 9] ∧
      decide (s.Finished 0) = true ∧ s.collected 0 = 24 ∧ issued (s.dialogue 0) = _ := by
    simpa only [Prod.mk.injEq] using hdata
  have progress := read_progresses (machine.run_of_execGuarded hs)
    (show s.calls[0]? = some (.request 9) by rw [hcalls]; rfl) (by rw [hcollected]; decide)
  exact ⟨s, hs, hissued, progress.2.2.1 (of_decide_eq_true hfinished)⟩

/-! ### A value without an end -/

/-- The callback record at an address, and the operation with it, of the first call. -/
def cbAt (addr : Nat) (proc : Proc) : Cb := ⟨addr, .result 0 proc⟩

@[inherit_doc cbAt]
def opAt (addr : Nat) (req : Pdu) (proc : Proc) : Op := ⟨req, .req, some (cbAt addr proc)⟩

/-- Nothing but a read goes on at the MTU 23: the code still to be run, the operations that are
pending and queued, the callback records, the references to the record of the read and to the
`bt_att`, and the next address. -/
structure Alone (s : Link) (todo : List Code) (pending : Option Op) (queue : List Op)
    (callbacks : List Cb) (recordRef attRef : Int) (nextAddr : Nat) : Prop where
  mtu_eq : s.mtu.buflen = 23
  attached : s.attached = true
  writeQueue_eq : s.writeQueue = []
  writer : s.writerActive = true
  calls_eq : s.calls = [.request 9]
  todo_eq : s.todo = todo
  pendingReq_eq : s.pendingReq = pending
  reqQueue_eq : s.reqQueue = queue
  callbacks_eq : s.callbacks = callbacks
  recordRef_eq : s.recordRef 0 = recordRef
  attRef_eq : s.attRef = attRef
  nextAddr_eq : s.nextAddr = nextAddr

namespace Alone

variable {addr n : Nat} {op : Op} {cb cb' : Cb} {cbs : List Cb} {rest : List Code}
  {pending : Option Op} {queue : List Op} {ref attRef : Int}

/-- The request is sent. -/
theorem send (h : s.Alone [] none [op] cbs 1 1 n) (hlength : op.pdu.length ≤ 23)
    (type : op.type = .req) {ret : Int} (hret : 0 < ret) :
    ∃ t, s.step (.canWrite ret) = some t ∧ t.Alone [] (some op) [] cbs 1 1 n := by
  obtain ⟨mtu_eq, attached, hwrites, writer, hcalls, htodo, hpending, hqueue, hcbs, href, hatt,
    haddr⟩ := h
  have hwrite : s.canWriteData ret = { s with
      reqQueue := []
      pendingReq := some op
      log := s.log ++ [.sent op.owner op.pdu] } := by
    simp [canWriteData, pickNextSendOp, pickRequest, hwrites, hpending, hqueue, hlength, mtu_eq,
      record, type, hret, Int.ne_of_gt hret]
  refine ⟨_, if_pos ⟨⟨htodo, attached⟩, writer⟩, ?_⟩
  rw [hwrite]
  refine ⟨mtu_eq, attached, hwrites, writer, ?_, htodo, rfl, rfl, hcbs, href, hatt, haddr⟩
  exact List.filterMap_append.trans ((List.append_nil _).trans hcalls)

/-- The answer is followed by another request. -/
theorem answer {req req' rsp : Pdu} {proc proc' : Proc} {opcode : UInt8}
    (h : s.Alone [] (some (opAt addr req proc)) [] cbs 1 1 n)
    (hlength : (opcode :: rsp).length ≤ 23) (type : getOpType opcode = .rsp)
    (hop : opcode ≠ opErrorRsp)
    (hrsp : responseOf (byteAt req 0) opcode rsp = (opcode, rsp))
    (hrecord : proc.hasRecord = true)
    (hreact : react 23 proc 0 (opcode :: rsp) = .send req' proc') :
    ∃ t, s.step (.canRead (opcode :: rsp) 1 true) = some t ∧
      t.Alone [.destroyOp (opAt addr req proc), .rspDone, .attUnref] (some (opAt addr req proc))
        [opAt n req' proc'] (cbAt n proc' :: cbs) 2 2 (n + 1) := by
  obtain ⟨mtu_eq, attached, hwrites, writer, hcalls, htodo, hpending, hqueue, hcbs, href, hatt,
    haddr⟩ := h
  have hstatus : statusOf opcode rsp = 0 := if_neg hop
  have hretry : retries opcode rsp 1 true = false := by simp [retries, hop]
  have continues := continues_of_react (Nat.le_refl 23) hreact
  have hlength' := continues.isRequest.length_le
  have type' := continues.isRequest.type
  have hrecord' := continues.hasRecord.trans hrecord
  refine ⟨_, if_pos ⟨⟨htodo, attached⟩, mtu_eq ▸ hlength⟩, ?_⟩
  simp only [canReadData, handlePdu, type, handleRsp, hpending, opAt, cbAt, hretry, record, push,
    hrsp, runCallback, hstatus, useResult, hrecord, use, mtu_eq, hreact, Link.gAttribSend,
    btAttSend, Accepts, alloc, attached, hlength', type', wakeupWriter, Link.wakeupChanWriter,
    hrecord', recordInc, and_self, if_true, Bool.false_eq_true, if_false]
  constructor
  all_goals simp [*]
  rw [← hcalls]
  simp [calls, List.filterMap_append, List.filterMap_cons, Act.call]

/-- The callback record of the answered operation is released. -/
theorem destroyOp (h : s.Alone (.destroyOp op :: rest) pending queue cbs ref attRef n)
    (hop : op.cb = some cb) :
    ∃ t, s.step .resume = some t ∧
      t.Alone (.callbacksRemove cb :: rest) pending queue cbs ref attRef n := by
  obtain ⟨mtu_eq, attached, hwrites, writer, hcalls, htodo, hpending, hqueue, hcbs, href, hatt,
    haddr⟩ := h
  refine ⟨_, by simp only [Link.step, htodo]; rfl, ?_⟩
  simp only [Link.run, Link.push, hop, Option.toList, List.map]
  exact ⟨mtu_eq, attached, hwrites, writer, hcalls, rfl, hpending, hqueue, hcbs, href, hatt, haddr⟩

theorem callbacksRemove
    (h : s.Alone (.callbacksRemove cb :: rest) pending queue [cb', cb] ref attRef n)
    (hne : cb' ≠ cb) (hrecord : cb.record = some 0) :
    ∃ t, s.step .resume = some t ∧
      t.Alone (.recordUnref 0 :: .callbacksFree cb :: rest) pending queue [cb'] ref attRef n := by
  obtain ⟨mtu_eq, attached, hwrites, writer, hcalls, htodo, hpending, hqueue, hcbs, href, hatt,
    haddr⟩ := h
  have hmem : cb ∈ [cb', cb] := List.mem_cons_of_mem _ List.mem_cons_self
  have herase : [cb', cb].erase cb = [cb'] := by simp [hne]
  refine ⟨_, by simp only [Link.step, htodo]; rfl, ?_⟩
  simp only [Link.run, Link.callbacksRemove, Link.use, hcbs, if_pos hmem, Link.push,
    Link.callbacksDestroy, hrecord, herase, Option.toList, List.map]
  exact ⟨mtu_eq, attached, hwrites, writer, hcalls, rfl, hpending, hqueue, rfl, href, hatt, haddr⟩

theorem recordUnref (h : s.Alone (.recordUnref 0 :: rest) pending queue cbs 2 attRef n) :
    ∃ t, s.step .resume = some t ∧ t.Alone rest pending queue cbs 1 attRef n := by
  obtain ⟨mtu_eq, attached, hwrites, writer, hcalls, htodo, hpending, hqueue, hcbs, href, hatt,
    haddr⟩ := h
  refine ⟨_, by simp only [Link.step, htodo]; rfl, ?_⟩
  simp only [Link.run, Link.recordUnref, Link.use, href, Function.update_self]
  exact ⟨mtu_eq, attached, hwrites, writer, hcalls, rfl, hpending, hqueue, hcbs, by simp, hatt,
    haddr⟩

theorem callbacksFree (h : s.Alone (.callbacksFree cb :: rest) pending queue cbs ref attRef n) :
    ∃ t, s.step .resume = some t ∧ t.Alone rest pending queue cbs ref attRef n := by
  obtain ⟨mtu_eq, attached, hwrites, writer, hcalls, htodo, hpending, hqueue, hcbs, href, hatt,
    haddr⟩ := h
  refine ⟨_, by simp only [Link.step, htodo]; rfl, ?_⟩
  exact ⟨mtu_eq, attached, hwrites, writer, hcalls, rfl, hpending, hqueue, hcbs, href, hatt, haddr⟩

theorem rspDone (h : s.Alone (.rspDone :: rest) pending queue cbs ref attRef n) :
    ∃ t, s.step .resume = some t ∧ t.Alone rest none queue cbs ref attRef n := by
  obtain ⟨mtu_eq, attached, hwrites, writer, hcalls, htodo, hpending, hqueue, hcbs, href, hatt,
    haddr⟩ := h
  refine ⟨_, by simp only [Link.step, htodo]; rfl, ?_⟩
  refine ⟨mtu_eq, attached, hwrites, ?_, hcalls, rfl, rfl, hqueue, hcbs, href, hatt, haddr⟩
  simp [Link.run, Link.use, Link.wakeupChanWriter, writer]

theorem attUnref (h : s.Alone (.attUnref :: rest) pending queue cbs ref 2 n) :
    ∃ t, s.step .resume = some t ∧ t.Alone rest pending queue cbs ref 1 n := by
  obtain ⟨mtu_eq, attached, hwrites, writer, hcalls, htodo, hpending, hqueue, hcbs, href, hatt,
    haddr⟩ := h
  refine ⟨_, by simp only [Link.step, htodo]; rfl, ?_⟩
  simp only [Link.run, Link.attUnref, Link.use, hatt]
  exact ⟨mtu_eq, attached, hwrites, writer, hcalls, rfl, hpending, hqueue, hcbs, href, rfl, haddr⟩

end Alone

/-- A request is sent and answered, and the library returns to the main loop. -/
def roundLabels (ret : Int) (rsp : Pdu) : List Label :=
  [.canWrite ret, .canRead rsp 1 true] ++ .replicate 6 .resume

/-- One round of a read that goes on. -/
theorem round {addr n : Nat} {req req' rsp : Pdu} {proc proc' : Proc} {opcode : UInt8} {ret : Int}
    (h : s.Alone [] none [opAt addr req proc] [cbAt addr proc] 1 1 n) (haddr : addr < n)
    (hret : 0 < ret) (hreq : req.length ≤ 23) (hlength : (opcode :: rsp).length ≤ 23)
    (type : getOpType opcode = .rsp) (hop : opcode ≠ opErrorRsp)
    (hrsp : responseOf (byteAt req 0) opcode rsp = (opcode, rsp))
    (hrecord : proc.hasRecord = true)
    (hreact : react 23 proc 0 (opcode :: rsp) = .send req' proc') :
    ∃ t, machine.Run (fun _ l => Undisturbed l) s (roundLabels ret (opcode :: rsp)) t ∧
      t.Alone [] none [opAt n req' proc'] [cbAt n proc'] 1 1 (n + 1) := by
  have hne : cbAt n proc' ≠ cbAt addr proc :=
    fun heq => Nat.ne_of_gt haddr (congrArg Cb.addr heq)
  have hcb : (cbAt addr proc).record = some 0 := by simp [Cb.record, cbAt, hrecord]
  obtain ⟨s₁, step₁, alone⟩ := h.send hreq rfl hret
  obtain ⟨s₂, step₂, alone⟩ :=
    alone.answer hlength type hop hrsp hrecord hreact
  obtain ⟨s₃, step₃, alone⟩ := alone.destroyOp rfl
  obtain ⟨s₄, step₄, alone⟩ := alone.callbacksRemove hne hcb
  obtain ⟨s₅, step₅, alone⟩ := alone.recordUnref
  obtain ⟨s₆, step₆, alone⟩ := alone.callbacksFree
  obtain ⟨s₇, step₇, alone⟩ := alone.rspDone
  obtain ⟨s₈, step₈, alone⟩ := alone.attUnref
  have hwrite : Undisturbed (.canWrite ret) := hret
  have hread : Undisturbed (.canRead (opcode :: rsp) 1 true) := trivial
  have hresume : Undisturbed .resume := trivial
  have run : machine.Run (fun _ l => Undisturbed l) s [] s := .nil
  have run := (run.snoc hwrite step₁).snoc hread step₂
  have run := (((run.snoc hresume step₃).snoc hresume step₄).snoc hresume step₅).snoc hresume step₆
  exact ⟨s₈, (run.snoc hresume step₇).snoc hresume step₈, alone⟩

/-- The peer answers a Read Request and so many Read Blob Requests with full parts. -/
def endlessLabels (n : Nat) : List Label :=
  .call (.request 9) :: roundLabels 3 (opReadRsp :: fullValue) ++
    (List.replicate n (roundLabels 5 (opReadBlobRsp :: fullValue))).flatten

theorem endlessLabels_succ (n : Nat) : endlessLabels (n + 1) =
    endlessLabels n ++ roundLabels 5 (opReadBlobRsp :: fullValue) := by
  rw [endlessLabels, endlessLabels, List.replicate_succ', List.flatten_concat, List.append_assoc]

/-- The buffer holds all the parts, and the size is their length as a 16-bit number. -/
theorem endless (n : Nat) (hn : 22 * n < 65536) : ∃ s buffer offset,
    machine.Run (fun _ l => Undisturbed l) (Link.new ⟨23, by decide⟩) (endlessLabels n) s ∧
      s.Alone [] none [opAt (n + 1) (encReadBlobReq 9 offset)
          (.readBlobHelper 9 buffer (UInt16.ofNat buffer.length))]
        [cbAt (n + 1) (.readBlobHelper 9 buffer (UInt16.ofNat buffer.length))] 1 1 (n + 2) ∧
      buffer.length = 22 * n + 23 := by
  induction n with
  | zero =>
    have called : machine.Run (fun _ l => Undisturbed l) (Link.new ⟨23, by decide⟩)
        [.call (.request 9)] ((Link.new ⟨23, by decide⟩).call (.request 9)) := .single trivial rfl
    have alone : ((Link.new ⟨23, by decide⟩).call (.request 9)).Alone [] none
        [opAt 0 (encReadReq 9) (.readCharHelper 9)] [cbAt 0 (.readCharHelper 9)] 1 1 1 :=
      ⟨rfl, rfl, rfl, rfl, rfl, rfl, rfl, rfl, rfl, rfl, rfl, rfl⟩
    have hreact : react 23 (.readCharHelper 9) 0 (opReadRsp :: fullValue) =
        .send (encReadBlobReq 9 22) (.readBlobHelper 9 (opReadRsp :: fullValue) 23) := by decide
    have hret : (0 : Int) < 3 := by decide
    obtain ⟨s, run, alone⟩ := round alone Nat.one_pos hret (by decide) (by decide) rfl (by decide)
      rfl rfl hreact
    exact ⟨s, _, _, called.trans run, alone, rfl⟩
  | succ n ih =>
    obtain ⟨s, buffer, offset, run, alone, hlength⟩ := ih (by omega)
    have hsize : (UInt16.ofNat buffer.length).toNat = buffer.length :=
      UInt16.toNat_ofNat_of_lt' (show _ < 2 ^ 16 by omega)
    have hreact : react 23 (.readBlobHelper 9 buffer (UInt16.ofNat buffer.length)) 0
        (opReadBlobRsp :: fullValue) =
          .send (encReadBlobReq 9 (UInt16.ofNat (buffer ++ fullValue).length - 1))
            (.readBlobHelper 9 (buffer ++ fullValue)
              (UInt16.ofNat (buffer ++ fullValue).length)) := by
      have hfull : (buffer ++ fullValue).length = buffer.length + 22 := List.length_append
      have hrest : UInt16.ofNat (opReadBlobRsp :: fullValue).length - 1 = UInt16.ofNat 22 := rfl
      rw [react, readBlobHelper, if_neg (by decide), if_neg (by decide), hsize, List.take_length,
        hrest, hfull, UInt16.ofNat_add]
      rfl
    have hret : (0 : Int) < 5 := by decide
    have hreq : (encReadBlobReq 9 offset).length ≤ 23 := Nat.le_add_right 5 18
    obtain ⟨t, run', alone⟩ := round alone (Nat.lt_succ_self _) hret hreq (by decide) rfl
      (by decide) rfl rfl hreact
    refine ⟨t, _, _, ?_, alone, ?_⟩
    · rw [endlessLabels_succ]
      exact run.trans run'
    · rw [List.length_append, hlength]
      show 22 * n + 23 + 22 = _
      omega

/-- The size wraps with the answer in which the peer sends the byte 65535. -/
theorem not_progresses_endless : ∃ s, machine.Run (fun _ l => Undisturbed l)
      (Link.new ⟨23, by decide⟩) (endlessLabels 2978) s ∧ s.calls[0]? = some (.request 9) ∧
    ∃ buffer size, (buffer, size) ∈ s.buffered 0 ∧ size.toNat = 3 ∧ buffer.length = 65539 := by
  obtain ⟨s, buffer, offset, run, alone, hlength⟩ := endless 2978 (by decide)
  refine ⟨s, run, by rw [alone.calls_eq]; rfl, buffer, UInt16.ofNat buffer.length, ?_, ?_, hlength⟩
  · refine List.mem_filterMap.mpr ⟨⟨0, encReadBlobReq 9 offset,
      .readBlobHelper 9 buffer (UInt16.ofNat buffer.length)⟩, ?_, rfl⟩
    refine List.mem_append_right _ ?_
    show _ ∈ s.reqQueue.filterMap Op.task
    rw [alone.reqQueue_eq]
    exact List.mem_cons_self
  · rw [hlength]
    rfl

end Link

end Libble

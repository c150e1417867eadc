import Libble.Link.Reads
import Libble.Link.Threads

/-!
# Values that were read in part

`read_blob_helper` calls `char_read_cb` with the status 0 whenever a Read Blob Request ends in an
error, whichever it is, so that a read that breaks off in the middle of a value delivers the part
that has been put together as if it were the value.

## Main definitions

* `Link.NoPart`: no answer to a read is a part of the value.
* `Link.ServesParts`: what the peer answers to a read are the parts of a value.

## Main results

* `Link.partial_delivered`: a read that breaks off delivers its part and tells no error.
-/

namespace Libble

open Att Gatt

namespace Link

variable {s t u : Link} {o : Nat} {mtu : Mtu} {labels labels' : List Label} {handle : UInt16}
  {buffer : List UInt8} {size : UInt16}

/-- No answer to the read is a part of the value: all of them are errors. -/
def NoPart (o : Nat) (s : Link) : Label → Prop
  | .canRead bytes _ _ =>
    ∀ op ∈ s.pendingReq.toList, op.owner = some o → (heard op.pdu bytes).1 ≠ 0
  | _ => True

instance (o : Nat) (s : Link) (label : Label) : Decidable (NoPart o s label) :=
  match label with
  | .canRead .. => inferInstanceAs (Decidable (∀ op ∈ s.pendingReq.toList, _))
  | .call _ | .listen | .drop | .ret | .resume | .canWrite _ | .hup | .timeout => .isTrue trivial

/-- Whatever the peer answers to the read without an error is the part of the value that was asked
for. -/
def ServesParts (buflen : Nat) (handle : UInt16) (value : List UInt8) (o : Nat) (s : Link) :
    Label → Prop
  | .canRead bytes _ _ =>
    ∀ op n, s.pendingReq = some op → op.owner = some o → blobOffset buflen n ≤ value.length →
      op.pdu = (readStage buflen handle value n).1 → (heard op.pdu bytes).1 = 0 →
      bytes = partRsp buflen value n
  | _ => True

/-! ### What the answers lead to -/

/-- What is heard of an answer without an error is the answer. -/
theorem heard_of_ok {req rsp : Pdu} (hne : rsp ≠ []) (h : (heard req rsp).1 = 0) :
    heard req rsp = (0, rsp) := by
  have hcons : byteAt rsp 0 :: rsp.drop 1 = rsp := by
    cases rsp with
    | nil => exact absurd rfl hne
    | cons opcode pdu => rfl
  rcases responseOf_cases (byteAt req 0) (byteAt rsp 0) (rsp.drop 1) with ⟨-, heq⟩ | heq
  · refine Prod.ext h ?_
    simp only [heard, heq, hcons]
  · simp only [heard, heq, statusOf_failure] at h
    cases h

/-- A read that breaks off ends with what has been put together. -/
theorem turn_of_noPart {label : Label} {task : Task Pdu Proc} {turn : Turn Pdu Proc Event}
    (source : TurnSource s label task turn) (guard : NoPart o s label) (howner : task.owner = o)
    (hcont : task.cont = .readBlobHelper handle buffer size) :
    turn = .done (charReadCb handle 0 buffer size) := by
  have ended : ∀ (status : UInt8) (rpdu : Pdu), status ≠ 0 →
      turnOf (react s.mtu.buflen task.cont status rpdu) =
        .done (charReadCb handle 0 buffer size) := by
    intro status rpdu hne
    have hreact : react s.mtu.buflen task.cont status rpdu =
        .finish (charReadCb handle 0 buffer size) := by
      rw [hcont]
      exact if_pos (.inl hne)
    rw [hreact, turnOf]
  cases source with
  | failed => exact ended _ _ (by decide)
  | @answered bytes security setOk op hlabel hne hpending htask =>
    subst hlabel
    have herror := guard op (by simp [hpending]) (by rw [owner_of_task htask, howner])
    rw [pdu_of_task htask] at herror
    rw [reactTo_eq]
    exact ended _ _ herror

/-- The read has come to a part of the value. -/
def AtStage (buflen : Nat) (handle : UInt16) (value : List UInt8) (task : Task Pdu Proc) : Prop :=
  ∃ n, blobOffset buflen n ≤ value.length ∧ (task.req, task.cont) = readStage buflen handle value n

/-- The last part of a value ends the read. -/
theorem readCall_lastPart {value : List UInt8} (hvalue : value.length ≤ 512) {n : Nat}
    (hle : blobOffset mtu.buflen n ≤ value.length)
    (hlast : value.length < blobOffset mtu.buflen (n + 1)) :
    readCall mtu.buflen (readStage mtu.buflen handle value n).2 0 (partRsp mtu.buflen value n) =
      some (valueCall value) := by
  rcases Nat.lt_or_eq_of_le hle with hlt | heq
  · exact readCall_readStage mtu.le_buflen hvalue (.inr hlt) hlast
  · cases n with
    | zero => exact readCall_readStage mtu.le_buflen hvalue (.inl rfl) hlast
    | succ n =>
      refine readCall_end heq (.inr ?_)
      rw [partRsp, List.length_cons, length_blob, heq, Nat.sub_self, Nat.min_zero]

/-- A read of parts goes on to the next part, or it is over. -/
theorem keeps_stage {value : List UInt8} (hvalue : value.length ≤ 512) :
    Keeps (ServesParts mtu.buflen handle value o) mtu o (AtStage mtu.buflen handle value)
      fun _ => True := by
  rintro s label task turn hmtu guard howner ⟨n, hle, hstage⟩ source
  have hreq : task.req = (readStage mtu.buflen handle value n).1 := congrArg Prod.fst hstage
  have hcont : task.cont = (readStage mtu.buflen handle value n).2 := congrArg Prod.snd hstage
  have done : ∀ reaction : Reaction, (∃ events, reaction = .finish events) →
      Leads (AtStage mtu.buflen handle value) (fun _ => True) o (turnOf reaction) := by
    rintro _ ⟨events, rfl⟩
    trivial
  cases source with
  | failed => exact done _ (react_of_error (by decide))
  | @answered bytes security setOk op hlabel hne hpending htask =>
    subst hlabel
    by_cases hok : (heard task.req bytes).1 = 0
    · have hpart := guard op n hpending (by rw [owner_of_task htask, howner]) hle
        (by rw [pdu_of_task htask, hreq]) (by rw [pdu_of_task htask, hok])
      have hreact : reactTo s.mtu.buflen task.req task.cont bytes =
          turnOf (react mtu.buflen (readStage mtu.buflen handle value n).2 0
            (partRsp mtu.buflen value n)) := by
        rw [reactTo_eq, heard_of_ok hne hok, ← hpart, ← hcont, hmtu]
      rw [hreact]
      rcases Nat.lt_or_ge value.length (blobOffset mtu.buflen (n + 1)) with hlast | hnext
      · exact done _ ⟨_, react_of_readCall (readCall_lastPart hvalue hle hlast)⟩
      · rw [react_readStage mtu.le_buflen hvalue hnext]
        exact ⟨n + 1, hnext, rfl⟩
    · rw [reactTo_eq]
      exact done _ (react_of_error hok)

/-- A read stays a read. -/
theorem keeps_isRead (mtu : Mtu) (o : Nat) :
    Keeps (fun _ _ => True) mtu o (fun task => task.cont.isRead = true) fun _ => True := by
  intro s label task turn _ _ _ isRead source
  cases turn with
  | next req cont => exact source.isRead_of_next.trans isRead
  | done events => trivial

theorem isRead_of_stage {value : List UInt8} {n : Nat} {task : Task Pdu Proc}
    (h : (task.req, task.cont) = readStage mtu.buflen handle value n) :
    task.cont.isRead = true := by
  have hcont : task.cont = (readStage mtu.buflen handle value n).2 := congrArg Prod.snd h
  rw [hcont]
  cases n <;> rfl

/-- What is delivered at a stage of a value is its beginning. -/
theorem delivered_of_stage {value : List UInt8} (hvalue : value.length ≤ 512) {n : Nat}
    (hle : blobOffset mtu.buflen n ≤ value.length) {req : Pdu}
    (hstage : (req, Proc.readBlobHelper handle buffer size) =
      readStage mtu.buflen handle value n) :
    ∃ k len, blobOffset mtu.buflen (k + 1) ≤ value.length ∧
      charReadCb handle 0 buffer size =
        [.device handle len (value.take (blobOffset mtu.buflen (k + 1)))] := by
  cases n with
  | zero => cases congrArg Prod.snd hstage
  | succ k =>
    obtain ⟨-, rfl, rfl⟩ := Proc.readBlobHelper.inj (congrArg Prod.snd hstage)
    have hpos : 1 ≤ blobOffset mtu.buflen (k + 1) := by
      have hbuf := mtu.le_buflen
      rw [blobOffset_succ]
      omega
    have hsize : (UInt16.ofNat (blobOffset mtu.buflen (k + 1) + 1)).toNat =
        blobOffset mtu.buflen (k + 1) + 1 := UInt16.toNat_ofNat_of_lt' (show _ < 2 ^ 16 by omega)
    have hslice : Att.slice (opReadRsp :: value.take (blobOffset mtu.buflen (k + 1))) 1
        (blobOffset mtu.buflen (k + 1)) = value.take (blobOffset mtu.buflen (k + 1)) := by
      rw [slice_eq _ (by simp; omega), List.drop_one, List.tail_cons, List.take_take, Nat.min_self]
    have hdelivered : charReadCb handle 0
        (opReadRsp :: value.take (blobOffset mtu.buflen (k + 1)))
        (UInt16.ofNat (blobOffset mtu.buflen (k + 1) + 1)) = _ := charReadCb_eq rfl (by omega)
    rw [hsize, Nat.add_sub_cancel, hslice] at hdelivered
    exact ⟨k, _, hle, hdelivered⟩

/-- **A value that was read in part is delivered.** When a Read Blob Request of a read waits and
all that comes is errors, or the link is lost, then the read tells no error; as soon as it is over
it has told what had been put together. Against a peer that has the value this is the beginning of
the value. -/
theorem partial_delivered {req : Pdu}
    (run : machine.Run (fun _ _ => True) (Link.new mtu) labels s)
    (ho : s.calls[o]? = some (.request handle))
    (waiting : s.Waiting ⟨o, req, .readBlobHelper handle buffer size⟩)
    (run' : machine.Run (NoPart o) s labels' u) :
    (∀ text, .errorOccured text ∉ u.told o) ∧
      (u.told o = [] ∨ u.told o = charReadCb handle 0 buffer size) ∧
      (0 < u.releases o → u.told o = charReadCb handle 0 buffer size) ∧
      ∀ value : List UInt8, value.length ≤ 512 →
        machine.Run (ServesParts mtu.buflen handle value o) (Link.new mtu) labels s →
        ∃ k len, blobOffset mtu.buflen (k + 1) ≤ value.length ∧
          charReadCb handle 0 buffer size =
            [.device handle len (value.take (blobOffset mtu.buflen (k + 1)))] := by
  obtain ⟨tidy, hmtu, thread⟩ := thread_of_run (.request handle) run (by rfl)
    (fun _ h => h) (keeps_isRead mtu o)
  have hlt : o < s.nextOwner := by
    rw [← tidy.named]
    exact (List.getElem?_eq_some_iff.mp ho).1
  obtain ⟨-, waits, told_eq, releases_eq⟩ := (thread ho).of_waiting rfl waiting
  -- what waits is a Read Blob Request with this buffer, until the outcome has been told
  have thread' : s.Thread (fun task => task.cont = .readBlobHelper handle buffer size)
      (fun events => events = charReadCb handle 0 buffer size) False o :=
    .waiting rfl rfl waits nofun told_eq releases_eq
  have later := Thread.run run' tidy rfl hlt thread' (fun _ h => by rw [h]; rfl)
    (fun a label task turn _ guard howner hcont source =>
      (turn_of_noPart source guard howner hcont).symm ▸ rfl)
  have told : u.told o = [] ∨ u.told o = charReadCb handle 0 buffer size := by
    cases later with
    | waiting _ _ _ _ told_eq => exact .inl told_eq
    | ended _ done => exact .inr done
  refine ⟨fun text hmem => ?_, told, fun hpos => ?_, fun value hvalue served => ?_⟩
  · rcases told with h | h
    · rw [h] at hmem
      cases hmem
    · rw [h] at hmem
      exact errorOccured_notMem_charReadCb text hmem
  · cases later with
    | waiting _ _ _ _ _ releases_eq => omega
    | ended _ done => exact done
  · obtain ⟨-, -, thread⟩ := thread_of_run (.request handle) served
      ⟨0, Nat.le_trans (Nat.le_of_eq blobOffset_zero) (Nat.zero_le _), rfl⟩
      (fun task ⟨n, _, hstage⟩ => isRead_of_stage hstage) (keeps_stage hvalue)
    obtain ⟨⟨n, hle, hstage⟩, -⟩ := (thread ho).of_waiting rfl waiting
    exact delivered_of_stage hvalue hle hstage

/-- A value that does not fit a Read Response. -/
def longValue : List UInt8 := fullValue ++ [1, 2]

/-- The first part of the value is read; the request for the rest is queued. -/
def partRun : Option Link :=
  machine.execGuarded (fun _ _ => True) (Link.new attDefaultLeMtu)
    ([.call (.request 9), .canWrite 3, .canRead (partRsp 23 longValue 0) 1 true] ++
      .replicate 6 .resume)

/-- Then the link is lost. -/
def brokenRun : Option Link :=
  partRun.bind fun s => machine.execGuarded (NoPart 0) s
    ([.hup, .resume, .resume, .ret] ++ .replicate 11 .resume)

theorem partial_delivered_brokenRun :
    ∃ s u, partRun = some s ∧ brokenRun = some u ∧
      u.told 0 = charReadCb 9 0 (opReadRsp :: fullValue) 23 := by
  have hpart : partRun.map (fun s => (s.calls, s.reqQueue.map Op.task)) =
      some ([.request 9], [some ⟨0, encReadBlobReq 9 22,
        .readBlobHelper 9 (opReadRsp :: fullValue) 23⟩]) := by decide
  have hbroken : brokenRun.map (fun u => decide (0 < u.releases 0)) = some true := by decide
  obtain ⟨s, hs, hdata⟩ := Option.map_eq_some_iff.mp hpart
  obtain ⟨u, hu, hreleases⟩ := Option.map_eq_some_iff.mp hbroken
  obtain ⟨hcalls, hqueue⟩ := Prod.mk.inj hdata
  have hmem : some ⟨0, encReadBlobReq 9 22, .readBlobHelper 9 (opReadRsp :: fullValue) 23⟩ ∈
      s.reqQueue.map Op.task := by
    rw [hqueue]
    exact List.mem_cons_self
  obtain ⟨op, hop, htask⟩ := List.mem_map.mp hmem
  have hrun' : machine.execGuarded (NoPart 0) s
      ([.hup, .resume, .resume, .ret] ++ .replicate 11 .resume) = some u := by
    rwa [brokenRun, hs, Option.bind_some] at hu
  have delivered := partial_delivered (machine.run_of_execGuarded hs)
    (show s.calls[0]? = some (.request 9) by rw [hcalls]; rfl)
    ⟨op, htask, .inl (List.mem_append_left _ hop)⟩
    (machine.run_of_execGuarded hrun')
  exact ⟨s, u, hs, hu, delivered.2.2.1 (of_decide_eq_true hreleases)⟩

/-- The link is lost after the first part of a value, which is delivered without an error. -/
theorem partial_of_brokenRun :
    brokenRun.map (fun u => u.events 0) = some [.device 9 22 fullValue] ∧
      fullValue ≠ longValue := by
  refine ⟨by decide, by decide⟩

end Link

end Libble

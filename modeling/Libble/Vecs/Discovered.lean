import Libble.Link.Discovery
import Libble.Vecs.Profiles

/-!
# The table after two discoveries

What the two discoveries of a connection tell the event handler of vecs when the peer conforms, and
with it when the table that vecs builds is the peer's. The first discovery tells of every attribute.
The second one tells of every declaration, unless one of them has the last handle: behind it the
search goes on at handle 0 and ends with an error, and before it the search may end too early.

## Main definitions

* `Vecs.Peer.attributeTable`, `Vecs.Peer.declarationTable`: the tables that are scanned.
* `Vecs.Peer.DiscoveredIn`: both discoveries have been made.
* `Vecs.Peer.Lost`: the declarations that are not told of.

## Main results

* `Vecs.Peer.DiscoveredIn.told`: what the discoveries tell.
* `Vecs.profiles_exact_iff`: when the table is the peer's.
-/

namespace Libble.Vecs

open Att Gatt Link

variable {peer : Peer} {mtu : Mtu} {s : Link} {labels : List Label} {hand char : Nat}

namespace Peer

variable (peer)

/-- The attributes by their handles. -/
def attributeTable : SortedTable Attribute fun a => a.handle.toNat where
  rows := peer.attributes
  ascending := peer.ascending.imp UInt16.lt_iff_toNat_lt.mp

/-- The characteristic declarations by their handles. -/
def declarationTable : SortedTable Declaration fun d => d.handle.toNat where
  rows := peer.declarations
  ascending := by
    have hascending := peer.ascending.filter (·.type = .short gattCharacUuid)
    rw [peer.declared, List.pairwise_map] at hascending
    exact hascending.imp UInt16.lt_iff_toNat_lt.mp

/-- Both discoveries have been made on a connection to the peer, which answered as it conforms. -/
structure DiscoveredIn (mtu : Mtu) (s : Link) (hand char : Nat) : Prop where
  hand_called : s.calls[hand]? = some .discoverHand
  char_called : s.calls[char]? = some .discoverChar
  hand_finished : s.Finished hand
  char_finished : s.Finished char
  attributes : ∀ start rsp,
    .answered (some hand) (encFindInfoReq start 0xffff) rsp ∈ s.log →
      AnswersFindInfo peer.attributeTable mtu.buflen start rsp
  declarations : ∀ start rsp,
    .answered (some char) (encReadByTypeReq start 0xffff gattCharacUuid) rsp ∈ s.log →
      AnswersChar peer.declarationTable mtu.buflen start rsp

/-- With a declaration that has the last handle, this one is lost, and all others as well unless the
last answer to the discovery of characteristics ends with the last handle but one. -/
def Lost (last : Option Pdu) (d : Declaration) : Prop :=
  LastDeclared peer.declarationTable ∧
    (d.handle = 0xffff ∨ last.bind lastChar ≠ some 0xfffe)

variable {peer}

theorem mem_below_iff {d : Declaration} (hd : d ∈ peer.declarations) :
    d ∈ peer.declarationTable.below 0xffff ↔ d.handle ≠ 0xffff := by
  have hlt := d.handle.toNat_lt
  have hne : d.handle ≠ 0xffff ↔ d.handle.toNat ≠ 65535 := UInt16.toNat_inj.symm.not
  have hmem : d ∈ peer.declarationTable.rows := hd
  rw [SortedTable.below, List.mem_filter, decide_eq_true_eq, and_iff_right hmem, hne]
  omega

/-- A discovery that reports declarations does not tell of those that are lost. -/
theorem lost_iff_of_reported {rsp : Pdu}
    (h : LastDeclared peer.declarationTable → lastChar rsp = some 0xfffe) {d : Declaration}
    (hd : d ∈ peer.declarations) :
    peer.Lost (some rsp) d ↔ d ∉ peer.declarationTable.below 0xffff := by
  rw [mem_below_iff hd, not_not, Lost, Option.bind_some]
  constructor
  · rintro ⟨declared, hlast | hne⟩
    · exact hlast
    · exact absurd (h declared) hne
  · exact fun hlast => ⟨⟨d, hd, hlast⟩, .inl hlast⟩

/-- A discovery that has started again at handle 0 loses all of them. -/
theorem lost_of_wrapped {rsp : Pdu} (h : LastDeclared peer.declarationTable)
    (none : lastChar rsp = none) (d : Declaration) : peer.Lost (some rsp) d :=
  ⟨h, .inr (by rw [Option.bind_some, none]; nofun)⟩

/-- How the discovery of characteristics ends. -/
theorem DiscoveredIn.outcome (discovered : peer.DiscoveredIn mtu s hand char)
    (run : machine.Run (fun _ l => Undisturbed l) (Link.new mtu) labels s) :
    ∃ rsp, (s.answers char).getLast? = some rsp ∧
      CharOutcome peer.declarationTable rsp (s.events char) :=
  (charEvents_of_run peer.declarationTable (fun _ => declaration_pos) run discovered.char_called
    fun start rsp h _ => discovered.declarations start rsp h).2.1 discovered.char_finished

/-- **What the discoveries tell.** The first one tells of every attribute, the second one of some of
the declarations or of an error. -/
theorem DiscoveredIn.told (discovered : peer.DiscoveredIn mtu s hand char)
    (run : machine.Run (fun _ l => Undisturbed l) (Link.new mtu) labels s) :
    s.events hand = peer.handEvents ∧ peer.ToldByChar (s.events char) := by
  obtain ⟨-, hhand, -⟩ := handEvents_of_run peer.attributeTable peer.pos run discovered.hand_called
    discovered.attributes
  refine ⟨hhand discovered.hand_finished, ?_⟩
  obtain ⟨rsp, -, outcome⟩ := discovered.outcome run
  generalize s.events char = told at outcome ⊢
  cases outcome with
  | reported => exact .reported List.filter_sublist
  | wrapped => exact .failed _

end Peer

/-- **When the table of vecs is the peer's.** After both discoveries of a regular peer that conforms
the table is the peer's exactly when no declaration of a type of vecs is lost. -/
theorem profiles_exact_iff (regular : peer.Regular)
    (run : machine.Run (fun _ l => Undisturbed l) (Link.new mtu) labels s)
    (discovered : peer.DiscoveredIn mtu s hand char) {v : Statics}
    (hv : v.profiles = initialProfiles) :
    peer.Exact (afterEvents v (s.events hand ++ s.events char)).profiles ↔
      ∀ d ∈ peer.declarations, peer.Lost (s.answers char).getLast? d →
        ∀ uuid ∈ vecsUuids, d.uuid ≠ .short uuid := by
  obtain ⟨profiles, discover⟩ := v
  obtain rfl : profiles = initialProfiles := hv
  obtain ⟨rsp, hlast, outcome⟩ := discovered.outcome run
  rw [(discovered.told run).1, hlast]
  generalize s.events char = told at outcome ⊢
  cases outcome with
  | reported h =>
    have sublist : (peer.declarationTable.below 0xffff).Sublist peer.declarations :=
      List.filter_sublist
    rw [profiles_afterChar regular sublist, exact_iff regular sublist]
    exact forall₂_congr fun d hd => by rw [Peer.lost_iff_of_reported h hd]
  | wrapped h none =>
    rw [profiles_afterError, exact_iff regular (List.nil_sublist _)]
    refine forall₂_congr fun d hd => ?_
    rw [forall_prop_of_true (Peer.lost_of_wrapped h none d),
      forall_prop_of_true (List.not_mem_nil)]

/-- A peer is regular if it has a single attribute of a type of vecs. -/
theorem regular_of_single {only : Attribute}
    (single : ∀ a ∈ peer.attributes, a.type ∈ vecsUuids.map Uuid.short → a = only)
    (valued : ∀ d ∈ peer.declarations, ⟨d.valueHandle, d.uuid⟩ ∈ peer.attributes)
    (unshared : peer.declarations.Pairwise fun d e => d.valueHandle ≠ e.valueHandle) :
    peer.Regular where
  once a ha b hb uuid h hat hbt := by
    have hmem : Uuid.short uuid ∈ vecsUuids.map Uuid.short := List.mem_map_of_mem h
    rw [single a ha (hat ▸ hmem), single b hb (hbt ▸ hmem)]
  valued := valued
  unshared := unshared

/-- A peer with a characteristic of vecs right before the last handle, and a declaration of another
type there. -/
def edgePeer : Peer where
  attributes := [⟨5, .short 0xffe1⟩, ⟨6, .short 0x2a00⟩, ⟨0xfffe, .short 0x2803⟩,
    ⟨0xffff, .short 0x2803⟩]
  declarations := [⟨0xfffe, 0x12, 5, .short 0xffe1⟩, ⟨0xffff, 0x02, 6, .short 0x2a00⟩]
  ascending := by decide
  pos := by decide
  declared := by decide

/-- A peer with a characteristic of vecs, and a declaration of another type at the last handle. -/
def wrapPeer : Peer where
  attributes := [⟨4, .short 0x2803⟩, ⟨5, .short 0xffe1⟩, ⟨6, .short 0x2a00⟩,
    ⟨0xffff, .short 0x2803⟩]
  declarations := [⟨4, 0x12, 5, .short 0xffe1⟩, ⟨0xffff, 0x02, 6, .short 0x2a00⟩]
  ascending := by decide
  pos := by decide
  declared := by decide

/-- The attributes are discovered with one answer, and then something else happens. -/
def discoveryRun (peer : Peer) (labels : List Label) : Option Link :=
  machine.execGuarded (fun _ l => Undisturbed l) (Link.new attDefaultLeMtu) <| List.flatten
    [[.call .discoverHand, .canWrite 5,
        .canRead (findInfoRsp (formatOf 2) peer.attributes) 1 true],
      [.resume, .ret, .resume, .ret, .resume, .ret, .resume, .ret, .resume, .ret],
      List.replicate 8 .resume, labels]

/-- The peer answers with the declaration before the last handle. -/
def edgeRun : Option Link :=
  discoveryRun edgePeer <| List.flatten
    [[.call .discoverChar, .canWrite 7,
        .canRead (readByTypeRsp (UInt8.ofNat (5 + 2)) [⟨0xfffe, 0x12, 5, .short 0xffe1⟩]) 1 true],
      [.resume, .ret, .resume, .ret], List.replicate 8 .resume]

/-- The peer answers with both declarations, and refuses the request from handle 0 on. -/
def wrapRun : Option Link :=
  discoveryRun wrapPeer <| List.flatten
    [[.call .discoverChar, .canWrite 7,
        .canRead (readByTypeRsp (UInt8.ofNat (5 + 2)) wrapPeer.declarations) 1 true],
      List.replicate 6 .resume,
      [.canWrite 7, .canRead [opErrorRsp, opReadByTypeReq, 0x00, 0x00, ecodeInvalidHandle] 1 true],
      [.resume, .ret], List.replicate 8 .resume]

/-- Two discoveries, the first one with one answer. -/
theorem discoveredIn_of_dialogue (ne : peer.attributes ≠ [])
    (width : ∀ a ∈ peer.attributes, a.type.size = 2)
    (fits : (findInfoRsp (formatOf 2) peer.attributes).length ≤ attDefaultLeMtu.buflen)
    (hcalls : s.calls = [.discoverHand, .discoverChar])
    (finished : (decide (s.Finished 0), decide (s.Finished 1)) = (true, true))
    (hhand : s.dialogue 0 = [.sent 0 (encFindInfoReq 0x0001 0xffff),
      .answered 0 (encFindInfoReq 0x0001 0xffff) (findInfoRsp (formatOf 2) peer.attributes)])
    (hchar : ∀ start rsp, .answered 1 (encReadByTypeReq start 0xffff gattCharacUuid) rsp ∈
      s.dialogue 1 → AnswersChar peer.declarationTable attDefaultLeMtu.buflen start rsp) :
    peer.DiscoveredIn attDefaultLeMtu s 0 1 where
  hand_called := by rw [hcalls]; rfl
  char_called := by rw [hcalls]; rfl
  hand_finished := of_decide_eq_true (Prod.mk.inj finished).1
  char_finished := of_decide_eq_true (Prod.mk.inj finished).2
  attributes start rsp h := by
    have hmem := mem_dialogue_of_log h
    rw [hhand] at hmem
    obtain ⟨-, hreq, rfl⟩ := Exchange.answered.inj
      (List.mem_singleton.mp ((List.mem_cons.mp hmem).resolve_left nofun))
    obtain rfl : start = 0x0001 := start_of_request hreq
    have habove : peer.attributeTable.above (0x0001 : UInt16).toNat = peer.attributes ++ [] := by
      rw [List.append_nil]
      exact List.filter_eq_self.mpr fun a ha => decide_eq_true (one_le_toNat (peer.pos a ha))
    exact .found habove ne width fits
  declarations start rsp h := hchar start rsp (mem_dialogue_of_log h)

theorem profiles_exact_iff_edgeRun :
    ∃ s, edgeRun = some s ∧
      edgePeer.Exact (afterEvents Statics.init (s.events 0 ++ s.events 1)).profiles := by
  have hrun : edgeRun.map (fun s => (s.calls, s.dialogue 0)) =
      some ([.discoverHand, .discoverChar],
        [.sent 0 (encFindInfoReq 0x0001 0xffff), .answered 0 (encFindInfoReq 0x0001 0xffff)
          (findInfoRsp (formatOf 2) edgePeer.attributes)]) := by decide +kernel
  obtain ⟨s, hs, hdata⟩ := Option.map_eq_some_iff.mp hrun
  obtain ⟨hcalls, hhand⟩ := Prod.mk.inj hdata
  have hend : edgeRun.map (fun s => ((decide (s.Finished 0), decide (s.Finished 1)),
      s.dialogue 1)) =
      some ((true, true), [.sent 1 (encReadByTypeReq 0x0001 0xffff gattCharacUuid),
        .answered 1 (encReadByTypeReq 0x0001 0xffff gattCharacUuid)
          (readByTypeRsp (UInt8.ofNat (5 + 2)) [⟨0xfffe, 0x12, 5, .short 0xffe1⟩])]) := by
    decide +kernel
  rw [hs] at hend
  obtain ⟨finished, hchar⟩ := Prod.mk.inj (Option.some.inj hend)
  have single : ∀ a ∈ edgePeer.attributes, a.type ∈ vecsUuids.map Uuid.short →
      a = ⟨5, .short 0xffe1⟩ := by decide
  have regular : edgePeer.Regular := regular_of_single single (by decide) (by decide)
  have answers : ∀ start rsp, .answered 1 (encReadByTypeReq start 0xffff gattCharacUuid) rsp ∈
      s.dialogue 1 → AnswersChar edgePeer.declarationTable attDefaultLeMtu.buflen start rsp := by
    intro start rsp h
    rw [hchar] at h
    obtain ⟨-, hreq, rfl⟩ := Exchange.answered.inj
      (List.mem_singleton.mp ((List.mem_cons.mp h).resolve_left nofun))
    obtain rfl : start = 0x0001 := start_of_request hreq
    have habove : edgePeer.declarationTable.above (0x0001 : UInt16).toNat =
      [⟨0xfffe, 0x12, 5, .short 0xffe1⟩] ++ [⟨0xffff, 0x02, 6, .short 0x2a00⟩] := by decide
    have hwidth : ∀ d ∈ [(⟨0xfffe, 0x12, 5, .short 0xffe1⟩ : Declaration)], d.uuid.size = 2 := by
      decide
    exact .answered (by decide) (.found habove (by decide) hwidth (by decide))
  have discovered : edgePeer.DiscoveredIn attDefaultLeMtu s 0 1 :=
    discoveredIn_of_dialogue (by decide) (by decide) (by decide) hcalls finished hhand answers
  have hlast : (s.answers 1).getLast? =
      some (readByTypeRsp (UInt8.ofNat (5 + 2)) [⟨0xfffe, 0x12, 5, .short 0xffe1⟩]) := by
    rw [Link.answers, hchar]
    rfl
  refine ⟨s, hs, (profiles_exact_iff regular (machine.run_of_execGuarded hs) discovered
    (v := Statics.init) rfl).mpr fun d hd lost uuid huuid htype => ?_⟩
  rw [hlast] at lost
  have hat : d.handle = 0xffff := lost.2.resolve_right (not_not.mpr (by decide))
  -- the declaration at the last handle is of no type of vecs
  have hno : ∀ d ∈ edgePeer.declarations, d.handle = 0xffff →
    d.uuid ∉ vecsUuids.map Uuid.short := by decide
  exact hno d hd hat (htype ▸ List.mem_map_of_mem huuid)

/-- Behind the declaration with the last handle the discovery starts again at handle 0, and nothing
is told of any declaration. -/
theorem not_exact_wrapRun :
    wrapPeer.Regular ∧ ∃ s, wrapRun = some s ∧ wrapPeer.DiscoveredIn attDefaultLeMtu s 0 1 ∧
      s.events 1 = [errorEvent ecodeInvalidHandle] ∧
      ¬ wrapPeer.Exact (afterEvents Statics.init (s.events 0 ++ s.events 1)).profiles := by
  have hrun : wrapRun.map (fun s => (s.calls, s.dialogue 0)) =
      some ([.discoverHand, .discoverChar],
        [.sent 0 (encFindInfoReq 0x0001 0xffff), .answered 0 (encFindInfoReq 0x0001 0xffff)
          (findInfoRsp (formatOf 2) wrapPeer.attributes)]) := by decide +kernel
  obtain ⟨s, hs, hdata⟩ := Option.map_eq_some_iff.mp hrun
  obtain ⟨hcalls, hhand⟩ := Prod.mk.inj hdata
  have hend : wrapRun.map (fun s => ((decide (s.Finished 0), decide (s.Finished 1)),
      s.dialogue 1)) =
      some ((true, true), [.sent 1 (encReadByTypeReq 0x0001 0xffff gattCharacUuid),
        .answered 1 (encReadByTypeReq 0x0001 0xffff gattCharacUuid)
          (readByTypeRsp (UInt8.ofNat (5 + 2)) wrapPeer.declarations),
        .sent 1 (encReadByTypeReq 0x0000 0xffff gattCharacUuid),
        .answered 1 (encReadByTypeReq 0x0000 0xffff gattCharacUuid)
          [opErrorRsp, opReadByTypeReq, 0x00, 0x00, ecodeInvalidHandle]]) := by decide +kernel
  have htold : wrapRun.map (fun s => (s.events 1,
      (afterEvents Statics.init (s.events 0 ++ s.events 1)).profiles[3]?)) =
      some ([errorEvent ecodeInvalidHandle], some ⟨0xffe1, 0, 0, 5⟩) := by decide +kernel
  rw [hs] at hend htold
  obtain ⟨finished, hchar⟩ := Prod.mk.inj (Option.some.inj hend)
  obtain ⟨hevents, hrow⟩ := Prod.mk.inj (Option.some.inj htold)
  have single : ∀ a ∈ wrapPeer.attributes, a.type ∈ vecsUuids.map Uuid.short →
      a = ⟨5, .short 0xffe1⟩ := by decide
  have regular : wrapPeer.Regular := regular_of_single single (by decide) (by decide)
  have answers : ∀ start rsp, .answered 1 (encReadByTypeReq start 0xffff gattCharacUuid) rsp ∈
      s.dialogue 1 → AnswersChar wrapPeer.declarationTable attDefaultLeMtu.buflen start rsp := by
    intro start rsp h
    rw [hchar] at h
    rcases List.mem_cons.mp ((List.mem_cons.mp h).resolve_left nofun) with heq | h
    · obtain ⟨-, hreq, rfl⟩ := Exchange.answered.inj heq
      obtain rfl : start = 0x0001 := start_of_request hreq
      have habove : wrapPeer.declarationTable.above (0x0001 : UInt16).toNat =
        wrapPeer.declarations ++ [] := by decide
      have hwidth : ∀ d ∈ wrapPeer.declarations, d.uuid.size = 2 := by decide
      exact .answered (by decide) (.found habove (by decide) hwidth (by decide))
    · obtain ⟨-, hreq, rfl⟩ := Exchange.answered.inj
        (List.mem_singleton.mp ((List.mem_cons.mp h).resolve_left nofun))
      exact .refused (start_of_request hreq) 0x00 0x00 rfl
  refine ⟨regular, s, hs, discoveredIn_of_dialogue (by decide) (by decide) (by decide) hcalls
    finished hhand answers, hevents, fun exact => ?_⟩
  have hmem := List.mem_of_getElem? hrow
  exact absurd ((exact.describes _ hmem).declared ⟨4, 0x12, 5, .short 0xffe1⟩ (by decide) rfl).2
    (by decide)

end Libble.Vecs

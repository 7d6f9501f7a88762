import Onde.Lib.Except
import Onde.Protocol.Admission
import Onde.Protocol.Delivery

/-!
# Sending to a peer

`getPendingForPeerWire` marks events as delivered and encodes them after that.

* `outboxAdmitted`: whatever is in the outbox was accepted by a validator, and so is always encoded;
* `getPendingForPeerWire_spec`: the messages are the encodings of the events marked, one each;
* `sentWhole_iff`: every one of them is decodable exactly if the format carries the events marked.
-/

namespace Onde.Protocol

open Onde.Lib Onde.Crypto Onde.Reputation

/-! ## Events with hexadecimal fields in lower case -/

/-- A hexadecimal text in lower case. -/
def lowerHexText (s : String) : String :=
  match hexDecode s with
  | some bs => hexEncode bs
  | none => s

/-- The event as the wire format writes it. -/
def MeshEvent.lowered (e : MeshEvent) : MeshEvent :=
  { e with pubkey := lowerHexText e.pubkey, sig := lowerHexText e.sig }

theorem decodeHex_lowerHexText (n : Nat) (s : String) : decodeHex n (lowerHexText s) = decodeHex n s := by
  unfold decodeHex lowerHexText
  cases h : hexDecode s with
  | none => rw [h]
  | some bs => rw [hexDecode_hexEncode]

theorem lowerHex_lowerHexText {n : Nat} {s : String} {a : ByteArr n} (h : decodeHex n s = some a) :
    LowerHex n (lowerHexText s) := by
  unfold decodeHex at h
  unfold lowerHexText
  cases hs : hexDecode s with
  | none =>
    rw [hs] at h
    cases h
  | some bs =>
    rw [hs] at h
    dsimp only at h ⊢
    split at h
    · next hn => exact hn ▸ lowerHex_hexEncode bs
    · cases h

theorem toWireBytes_lowered (e : MeshEvent) : e.lowered.toWireBytes = e.toWireBytes := by
  simp only [MeshEvent.toWireBytes, MeshEvent.rawBytes, MeshEvent.lowered, decodeHex32, decodeHex64,
    decodeHex_lowerHexText]

/-- What the format asks of an admitted event. -/
structure Sendable (e : MeshEvent) : Prop where
  tags : TagsForm e.tags
  content : Prefixable e.content
  visible : e.lowered ≠ blankEvent

namespace GossipProtocol

/-- Select everything pending for a peer, mark it and encode it. -/
def getPendingForPeerWire (g : GossipProtocol) (peerId : String) : Except String (List Bytes) × GossipProtocol :=
  let sent := g.getPendingForPeer peerId
  (sent.1.mapM MeshEvent.toWireBytes, sent.2)

variable {c : Primitives} {g : GossipProtocol} {e : MeshEvent} {peer : String}

theorem Admitted.signed (h : Admitted c e) :
    e.id = e.canonicalId c ∧ (∃ pk, decodeHex32 e.pubkey = some pk) ∧ ∃ sig, decodeHex64 e.sig = some sig := by
  obtain ⟨clock, floor, h⟩ := h
  obtain ⟨-, -, hid, hsig⟩ := checkSigned_ok.mp (validateWithPowMin_ok.mp h).1
  unfold MeshEvent.signatureValid at hsig
  refine ⟨hid, ?_⟩
  cases hp : decodeHex32 e.pubkey with
  | none => simp [hp] at hsig
  | some pk =>
    cases hs : decodeHex64 e.sig with
    | none => simp [hp, hs] at hsig
    | some sig => exact ⟨⟨pk, rfl⟩, sig, rfl⟩

theorem Admitted.encoded (h : Admitted c e) : ∃ data, e.toWireBytes = .ok data := by
  obtain ⟨clock, floor, h⟩ := h
  exact toWireBytes_of_valid h

/-- **An admitted event decodes to itself, in lower case, exactly if the format carries it.** -/
theorem Admitted.decodes_iff (h : Admitted c e) {data : Bytes} (henc : e.toWireBytes = .ok data) :
    fromWireBytes data = .ok e.lowered ↔ Sendable e := by
  obtain ⟨hid, ⟨pk, hpk⟩, sig, hsig⟩ := h.signed
  rw [Protocol.decodes_iff ((toWireBytes_lowered e).trans henc)]
  constructor
  · rintro ⟨hform, hvisible⟩
    exact ⟨hform.tags, hform.content, hvisible⟩
  · rintro ⟨htags, hcontent, hvisible⟩
    exact ⟨⟨hid ▸ lowerHex_encode _, lowerHex_lowerHexText hpk, htags, hcontent, lowerHex_lowerHexText hsig⟩, hvisible⟩

/-! ## The outbox -/

/-- **Everything in the outbox was accepted by a validator**, whichever way it came. -/
def OutboxAdmitted (c : Primitives) (g : GossipProtocol) : Prop := ∀ e ∈ g.pendingBroadcasts, Admitted c e

theorem pendingBroadcasts_frame (op : GossipOp) :
    (op.apply c g).pendingBroadcasts = g.pendingBroadcasts ∨ ∃ op', op = .insert op' ∧ Admitted c op'.offered ∧
      (op.apply c g).pendingBroadcasts = pushBounded maxPendingBroadcasts g.pendingBroadcasts op'.offered := by
  cases op with
  | setMetrics counter => exact .inl rfl
  | insert op =>
    rcases insertOp_spec c g op with he | ⟨hadmitted, ord, he⟩
    · exact .inl (by rw [GossipOp.apply, he])
    · by_cases hk : op.offered.id ∈ g.knownEvents
      · exact .inl (by rw [GossipOp.apply, he, insertNew_known hk])
      · exact .inr ⟨op, rfl, hadmitted, by rw [GossipOp.apply, he, (insertNew_new ord hk).2.1]⟩
  | getPendingForPeer peerId =>
    exact .inl ((markDeliveredToPeer_frame _ _ _).1.trans (peekPendingForPeer_snd g peerId usizeMax).1)
  | peekPendingForPeer peerId max => exact .inl (peekPendingForPeer_snd g peerId max).1
  | markDeliveredToPeer peerId ids => exact .inl (markDeliveredToPeer_frame g peerId ids).1

/-- The state after a run. -/
def gossipRun (c : Primitives) (ops : List GossipOp) : GossipProtocol := ops.foldl (GossipOp.apply c) new

theorem gossipRun_append (ops : List GossipOp) (op : GossipOp) :
    gossipRun c (ops ++ [op]) = op.apply c (gossipRun c ops) := by
  rw [gossipRun, List.foldl_append]
  rfl

/-- What a run offers is where the outbox comes from. -/
theorem mem_pendingBroadcasts {ops : List GossipOp} (he : e ∈ (gossipRun c ops).pendingBroadcasts) :
    Admitted c e ∧ ∃ op, .insert op ∈ ops ∧ op.offered = e := by
  induction ops using List.reverseRecOn with
  | nil => exact absurd he List.not_mem_nil
  | append_singleton ops op ih =>
    rw [gossipRun_append] at he
    have hold : e ∈ (gossipRun c ops).pendingBroadcasts →
        Admitted c e ∧ ∃ op', .insert op' ∈ ops ++ [op] ∧ op'.offered = e := fun h => by
      obtain ⟨hadmitted, op', hop', hoffered⟩ := ih h
      exact ⟨hadmitted, op', List.mem_append_left _ hop', hoffered⟩
    rcases pendingBroadcasts_frame (c := c) (g := gossipRun c ops) op with hp | ⟨op', rfl, hop', hp⟩
    · exact hold (hp ▸ he)
    · rcases mem_pushBounded (hp ▸ he) with he | rfl
      · exact hold he
      · exact ⟨hop', op', List.mem_append_right _ List.mem_cons_self, rfl⟩

theorem outboxAdmitted_run (c : Primitives) (ops : List GossipOp) : OutboxAdmitted c (gossipRun c ops) :=
  fun _ he => (mem_pendingBroadcasts he).1

/-! ## The messages -/

/-- The call returns, and each event it marks has a message of its own that decodes to it. -/
def SentWhole (g : GossipProtocol) (peer : String) : Prop :=
  ∃ msgs, (g.getPendingForPeerWire peer).1 = .ok msgs ∧
    List.Forall₂ (fun e data => fromWireBytes data = .ok e.lowered) (g.undelivered peer) msgs

/-- **Marking and encoding.** The messages are the encodings of the undelivered events, and these are what the call
marks. -/
theorem getPendingForPeerWire_spec (hb : Bounded g) (ho : OutboxAdmitted c g) (peer : String) :
    (∃ msgs, (g.getPendingForPeerWire peer).1 = .ok msgs ∧
      List.Forall₂ (fun e data => e.toWireBytes = .ok data) (g.undelivered peer) msgs) ∧
    (g.getPendingForPeerWire peer).2.deliveredTo peer =
      ((g.undelivered peer).map MeshEvent.id).foldl (pushBounded maxDeliveredPerPeer) (g.deliveredTo peer) ∧
    (∀ p, p ≠ peer → (g.getPendingForPeerWire peer).2.deliveredTo p = g.deliveredTo p) := by
  have hfst := getPendingForPeer_fst hb peer
  refine ⟨?_, ?_, fun p hp => ?_⟩
  · have hencoded : ∀ e ∈ g.undelivered peer, ∃ data, e.toWireBytes = .ok data := fun e he =>
      (ho e (List.mem_of_mem_filter he)).encoded
    obtain ⟨msgs, hmsgs⟩ := Except.exists_mapM_eq_ok hencoded
    exact ⟨msgs, (congrArg (List.mapM MeshEvent.toWireBytes) hfst).trans hmsgs, Except.mapM_eq_ok.mp hmsgs⟩
  · have hmarked := (peekAndMark_spec g peer peer usizeMax ((g.getPendingForPeer peer).1.map MeshEvent.id)).2
    rw [if_pos rfl, hfst] at hmarked
    rw [← hmarked, ← hfst]
    rfl
  · have hmarked := (peekAndMark_spec g p peer usizeMax ((g.getPendingForPeer peer).1.map MeshEvent.id)).2
    rw [if_neg hp.symm] at hmarked
    exact hmarked

theorem sentWhole_iff (hb : Bounded g) (ho : OutboxAdmitted c g) :
    SentWhole g peer ↔ ∀ e ∈ g.undelivered peer, Sendable e := by
  obtain ⟨⟨msgs, hmsgs, henc⟩, -⟩ := getPendingForPeerWire_spec hb ho peer
  have hadmitted : ∀ e ∈ g.undelivered peer, Admitted c e := fun e he => ho e (List.mem_of_mem_filter he)
  have hboth := (List.forall₂_and_left _ _).mpr ⟨hadmitted, henc⟩
  constructor
  · rintro ⟨msgs', hmsgs', hdec⟩
    rw [hmsgs] at hmsgs'
    cases hmsgs'
    have hsendable : List.Forall₂ (fun e data => Sendable e ∧ e.toWireBytes = .ok data) (g.undelivered peer) msgs :=
      hdec.mp (fun _ _ hdecoded h => ⟨(h.1.decodes_iff h.2).mp hdecoded, h.2⟩) hboth
    exact ((List.forall₂_and_left _ _).mp hsendable).1
  · intro hsendable
    refine ⟨msgs, hmsgs, ?_⟩
    exact ((List.forall₂_and_left _ _).mpr ⟨hsendable, hboth⟩).imp fun e data h => (h.2.1.decodes_iff h.2.2).mpr h.1

/-- **When marking before encoding loses nothing.** In every state reached, and for every peer, the call returns, and
every event it marks has a decodable message exactly if the format carries each event marked. So none is ever lost in
a run that is offered only such events. -/
theorem run_sentWhole (c : Primitives) (ops : List GossipOp) :
    (∀ peer, (∃ msgs, ((gossipRun c ops).getPendingForPeerWire peer).1 = .ok msgs) ∧
      (SentWhole (gossipRun c ops) peer ↔ ∀ e ∈ (gossipRun c ops).undelivered peer, Sendable e)) ∧
    ((∀ op, .insert op ∈ ops → Sendable op.offered) →
      ∀ pre, pre <+: ops → ∀ peer, SentWhole (gossipRun c pre) peer) := by
  have hiff : ∀ ops peer, SentWhole (gossipRun c ops) peer ↔ ∀ e ∈ (gossipRun c ops).undelivered peer, Sendable e :=
    fun ops peer => sentWhole_iff (gossip_bounded c ops) (outboxAdmitted_run c ops)
  refine ⟨fun peer => ⟨?_, hiff ops peer⟩, fun hops pre hpre peer => (hiff pre peer).mpr fun e he => ?_⟩
  · obtain ⟨⟨msgs, hmsgs, -⟩, -⟩ := getPendingForPeerWire_spec (gossip_bounded c ops) (outboxAdmitted_run c ops) peer
    exact ⟨msgs, hmsgs⟩
  · obtain ⟨-, op, hop, rfl⟩ := mem_pendingBroadcasts (List.mem_of_mem_filter he)
    exact hops op (hpre.subset hop)

/-! ## Ten thousand and one tags -/

/-- What stands where the number of tags stands. -/
def tagCountAt (data : Bytes) : Nat := ofLe ((data.drop 73).take 4)

theorem tagCountAt_append {front : Bytes} {n : Nat} (hfront : front.length = 73) (hn : n < 2 ^ 32) (rest : Bytes) :
    tagCountAt (front ++ (leBytes 4 n ++ rest)) = n := by
  rw [tagCountAt, ← hfront, List.drop_left, List.take_left' (length_leBytes 4 n), ofLe_leBytes (by simpa using hn)]

theorem tagCountAt_le {data : Bytes} {e : MeshEvent} (h : fromWireBytes data = .ok e) : tagCountAt data ≤ 10000 := by
  obtain ⟨hform, r, -, rfl, hread⟩ := fromWireBytes_sound h
  have htags := hform.tags.1
  have hlen : (encHex e.id ++ encHex e.pubkey ++ leBytes 8 e.createdAt.toNat ++ [kindCode e.kind]).length = 73 := by
    simp [length_encHex hform.id, length_encHex hform.pubkey]
  have hdata : r.buf = encEvent e ++ r.buf.drop r.pos := by rw [← hread, List.take_append_drop]
  rw [hdata, encEvent]
  have hcount := tagCountAt_append hlen (n := e.tags.length) (by omega)
  simp only [List.append_assoc] at hcount ⊢
  rw [hcount]
  exact htags

theorem tagCountAt_toWireBytes {data : Bytes} (henc : e.toWireBytes = .ok data) (hn : e.tags.length < 2 ^ 32) :
    tagCountAt data = e.tags.length := by
  unfold MeshEvent.toWireBytes MeshEvent.rawBytes at henc
  cases hid : decodeHex32 e.id with
  | none => simp [hid] at henc
  | some id =>
    cases hpk : decodeHex32 e.pubkey with
    | none => simp [hid, hpk] at henc
    | some pk =>
      cases hsig : decodeHex64 e.sig with
      | none => simp [hid, hpk, hsig] at henc
      | some sig =>
        simp only [hid, hpk, hsig] at henc
        cases henc
        obtain ⟨n, hpad⟩ := TrafficPadding.pad_eq_append (id.1 ++ pk.1 ++ leBytes 8 e.createdAt.toNat
          ++ [kindCode e.kind] ++ leBytes 4 e.tags.length ++ e.tags.flatMap encString ++ encString e.content ++ sig.1
          ++ leBytes 8 e.powNonce.toNat ++ [e.powDifficulty, e.ttl])
        have hlen : (id.1 ++ pk.1 ++ leBytes 8 e.createdAt.toNat ++ [kindCode e.kind]).length = 73 := by
          simp [id.2, pk.2]
        have hcount := tagCountAt_append hlen hn
        rw [hpad]
        simp only [List.append_assoc] at hcount ⊢
        exact hcount _

/-- An alert of a trusted author with many empty tags. -/
def taggedEvent (tags : Nat) (digest : ByteArr 32) (sig : ByteArr 64) : MeshEvent :=
  { letterEvent lowerAuthor digest sig with tags := List.replicate tags "" }

def taggedPrimitives (tags : Nat) (digest : ByteArr 32) (sig : ByteArr 64) : Primitives :=
  primitivesFor (taggedEvent tags digest sig) letterKey digest sig

def taggedOp (tags : Nat) (digest : ByteArr 32) (sig : ByteArr 64) : InsertOp :=
  .addEventWithReputation .sorted 1700000000 (taggedEvent tags digest sig)
    (ReputationSystem.new.bootstrap [lowerAuthor])

theorem undelivered_tagged (tags : Nat) (digest : ByteArr 32) (sig : ByteArr 64) (peer : String) :
    (gossipRun (taggedPrimitives tags digest sig) [.insert (taggedOp tags digest sig)]).undelivered peer =
      [taggedEvent tags digest sig] := by
  have hkey : decodeHex32 (taggedEvent tags digest sig).pubkey = some letterKey := decodeHex_hexEncode letterKey
  have hsize : ¬maxAlertSize < "OK".length := by decide
  have htime : (1700000000 : UInt64).toNat ≤ 1700000000 := by decide
  have hvalid : (taggedEvent tags digest sig).validateWithReputation (taggedPrimitives tags digest sig) 1700000000
      (ReputationSystem.new.bootstrap [lowerAuthor]) = .ok () :=
    valid_of_trusted (checkSigned_for hkey rfl rfl (fun h => hsize h.2) htime) rfl
  have hadded := addEventWithReputation_of_valid .sorted new hvalid
  have hrun : gossipRun (taggedPrimitives tags digest sig) [.insert (taggedOp tags digest sig)] =
      (new.insertNew .sorted (taggedEvent tags digest sig)).2 := congrArg (new.after) hadded
  have hnew : (taggedEvent tags digest sig).id ∉ new.knownEvents := Finset.notMem_empty _
  obtain ⟨-, hpending, hdelivered, -⟩ := insertNew_new .sorted hnew
  rw [hrun, undelivered, deliveredTo, hpending, hdelivered]
  rfl

def taggedDigest : ByteArr 32 := beArr 32 0x2cd050bcbe60a190d32ecc4471ae82649b43bbfd1a80e1b42a8b4ce9a6917f19

def taggedSig : ByteArr 64 := beArr 64
  (0xd1bd599f38c3a145dc9fec9c8e1aaf5fda9cd0bc4f0759d34760ae8a71a06f08 * 2 ^ 256 +
    0x9ebd76e6c4b11ca6e7f040926386d5acfe14bc5fe34d19cd84640b3b3746010d)

/-- **An event is marked whose message no peer decodes**: it has ten thousand and one tags. -/
theorem tagged_lost : ¬∀ (c : Primitives) (ops : List GossipOp) (peer : String),
    ∃ msgs, ((gossipRun c ops).getPendingForPeerWire peer).1 = .ok msgs ∧
      List.Forall₂ (fun _ data => ∃ e, fromWireBytes data = .ok e) ((gossipRun c ops).undelivered peer) msgs := by
  intro h
  obtain ⟨msgs, hmsgs, hdecoded⟩ := h (taggedPrimitives 10001 taggedDigest taggedSig)
    [.insert (taggedOp 10001 taggedDigest taggedSig)] "peer"
  obtain ⟨⟨msgs', hmsgs', hencoded⟩, -⟩ := getPendingForPeerWire_spec
    (gossip_bounded (taggedPrimitives 10001 taggedDigest taggedSig) [.insert (taggedOp 10001 taggedDigest taggedSig)])
    (outboxAdmitted_run _ _) "peer"
  have hsame : msgs = msgs' := Except.ok.inj (hmsgs.symm.trans hmsgs')
  subst hsame
  change List.Forall₂ _ ((gossipRun _ [.insert (taggedOp 10001 taggedDigest taggedSig)]).undelivered "peer") msgs
    at hencoded
  rw [undelivered_tagged] at hdecoded hencoded
  obtain ⟨data, _, hdata, _, rfl⟩ := List.forall₂_cons_left_iff.mp hencoded
  obtain ⟨e, he⟩ := (List.forall₂_cons.mp hdecoded).1
  have htags : (taggedEvent 10001 taggedDigest taggedSig).tags.length = 10001 := List.length_replicate
  have hcount := tagCountAt_toWireBytes hdata (by rw [htags]; decide)
  have hle := tagCountAt_le he
  rw [hcount, htags] at hle
  exact absurd hle (by decide)

end GossipProtocol

end Onde.Protocol

import Mathlib.Logic.Relation
import Onde.Network.Inbound
import Onde.Network.Transport
import Onde.Node.Honest
import Onde.Node.Signing
import Onde.Protocol.EventId
import Onde.Protocol.Sending

/-!
# The mesh

Nodes with their transports, and a wire that loses, repeats, reorders and misroutes frames, and carries the bytes of
strangers.

* `Mesh`, `Mesh.Step`: a node signs, flushes its outbox to its queues, a frame goes from a queue to the wire, a frame of
  the wire reaches a node, a stranger writes bytes;
* `wireForm_of_frame`: an event that fits a frame is in wire form; `Carriable`: one that a frame brings back;
* `mesh_integrity`: over every run, whatever is in an outbox or decodes from the wire was signed by a node or came from
  outside, as it is;
* `mesh_authentic`: under the keys of the nodes, nothing comes from outside but what a node signed.
-/

namespace Onde.Network

open Onde.Lib Onde.Crypto Onde.Reputation Onde.Protocol Onde.Protocol.GossipProtocol

variable {h : Host} {ι : Type}

/-! ## Frames -/

theorem length_encString (s : String) : (encString s).length = 4 + s.utf8ByteSize := by
  rw [encString, List.length_append, length_leBytes, length_utf8Bytes]

/-- The bytes of the texts of an event are among those sent for it. -/
theorem length_texts {e : MeshEvent} {w : Bytes} (henc : e.toWireBytes = .ok w) :
    (e.tags.flatMap encString).length + (encString e.content).length ≤ w.length := by
  unfold MeshEvent.toWireBytes MeshEvent.rawBytes at henc
  cases hid : decodeHex32 e.id with
  | none => simp [hid] at henc
  | some id =>
    cases hpk : decodeHex32 e.pubkey with
    | none => simp [hid, hpk] at henc
    | some pk =>
      cases hsig : decodeHex64 e.sig with
      | none => simp [hid, hpk, hsig] at henc
      | some sig =>
        simp only [hid, hpk, hsig] at henc
        cases henc
        obtain ⟨n, hpad⟩ := TrafficPadding.pad_eq_append (id.1 ++ pk.1 ++ leBytes 8 e.createdAt.toNat
          ++ [kindCode e.kind] ++ leBytes 4 e.tags.length ++ e.tags.flatMap encString ++ encString e.content ++ sig.1
          ++ leBytes 8 e.powNonce.toNat ++ [e.powDifficulty, e.ttl])
        rw [hpad]
        simp only [List.length_append]
        omega

/-- Each text takes the bytes of its prefix, -/
theorem length_tags (tags : List String) : 4 * tags.length ≤ (tags.flatMap encString).length := by
  induction tags with
  | nil => exact Nat.zero_le _
  | cons t tags ih =>
    rw [List.flatMap_cons, List.length_append, List.length_cons, length_encString]
    omega

/-- and its own. -/
theorem length_tag {tags : List String} {t : String} (ht : t ∈ tags) :
    t.utf8ByteSize ≤ (tags.flatMap encString).length := by
  have hsub : (encString t).Sublist (tags.flatMap encString) := List.sublist_flatten_of_mem (List.mem_map_of_mem ht)
  have hle := hsub.length_le
  rw [length_encString] at hle
  omega

/-- **An event that fits a frame is in wire form**, if its digits are in lower case. -/
theorem wireForm_of_frame {e : MeshEvent} {w : Bytes} (hd : Node.Digits e) (henc : e.toWireBytes = .ok w)
    (hfit : w.length ≤ maxFramePayload) : WireForm e := by
  have htexts := length_texts henc
  have htags := length_tags e.tags
  rw [length_encString] at htexts
  unfold maxFramePayload at hfit
  have hprefix : ∀ n, n ≤ 16384 → n < 2 ^ 32 := fun n hn => by omega
  refine ⟨hd.id, hd.pubkey, ⟨by omega, fun t ht => ?_⟩, ?_, hd.sig⟩
  · have htag := length_tag ht
    exact hprefix _ (by omega)
  · exact hprefix _ (by omega)

/-- What is decoded has its digits in lower case. -/
theorem digits_of_decoded {data : Bytes} {e : MeshEvent} (hdec : fromWireBytes data = .ok e) : Node.Digits e := by
  obtain ⟨hform, -⟩ := fromWireBytes_sound hdec
  exact ⟨hform.id, hform.pubkey, hform.sig⟩

/-- The bytes are those sent for the event, and a frame holds them. -/
structure FrameOf (e : MeshEvent) (w : Bytes) : Prop where
  encoded : e.toWireBytes = .ok w
  fits : w.length ≤ maxFramePayload

/-- **A frame decodes to its own event or to nothing.** -/
theorem FrameOf.decoded {e e' : MeshEvent} {w : Bytes} (hf : FrameOf e w) (hd : Node.Digits e)
    (hdec : fromWireBytes w = .ok e') : e' = e := by
  have hform := wireForm_of_frame hd hf.encoded hf.fits
  by_cases hblank : e = blankEvent
  · -- the blank event is sent as zeros, which are no event
    have henc := hf.encoded
    rw [toWireBytes_wireForm hform] at henc
    cases henc
    obtain ⟨n, hn⟩ := TrafficPadding.pad_eq_append (encEvent e)
    refine absurd ?_ (fromWireBytes_ok.mp hdec).1
    rw [hn, hblank, encEvent_blankEvent, List.replicate_append_replicate]
    exact allZero_iff.mpr ⟨by simp, by rw [List.length_replicate]⟩
  · have hself := (decodes_iff hf.encoded).mpr ⟨hform, hblank⟩
    rw [hself] at hdec
    exact (Except.ok.inj hdec).symm

theorem frameOf_spec {e : MeshEvent} {w : Bytes} (hw : frameOf e = some w) : FrameOf e w := by
  unfold frameOf wireForm at hw
  obtain ⟨hw, hle⟩ := Option.filter_eq_some_iff.mp hw
  cases henc : e.toWireBytes with
  | error err =>
    rw [henc] at hw
    cases hw
  | ok w' =>
    rw [henc] at hw
    cases hw
    exact ⟨henc, of_decide_eq_true hle⟩

/-- An event with its digits in lower case that fits a frame and has a byte set. -/
structure Carriable (e : MeshEvent) : Prop where
  digits : Node.Digits e
  fits : Fits e
  visible : e ≠ blankEvent

theorem Carriable.frame {e : MeshEvent} (hc : Carriable e) : ∃ w, frameOf e = some w ∧ 1 ≤ w.length ∧
    w.length ≤ maxFramePayload ∧ fromWireBytes w = .ok e := by
  obtain ⟨w, hw⟩ := fits_iff.mp hc.fits
  have hframe := frameOf_spec hw
  have hform := wireForm_of_frame hc.digits hframe.encoded hframe.fits
  refine ⟨w, hw, ?_, hframe.fits, (decodes_iff hframe.encoded).mpr ⟨hform, hc.visible⟩⟩
  have henc := hframe.encoded
  rw [toWireBytes_wireForm hform] at henc
  cases henc
  have hlen := length_encEvent hform
  rw [TrafficPadding.length_pad]
  omega

theorem Carriable.not_oversize {e : MeshEvent} (hc : Carriable e) : ¬Oversize e := fun ho =>
  not_fits_of_oversize ho hc.fits

/-- A queue with room takes all frames. -/
theorem foldl_pushFrame {capacity : Nat} : ∀ (ws q : List Bytes), q.length + ws.length ≤ capacity →
    ws.foldl (pushFrame capacity) q = q ++ ws
  | [], q, _ => (List.append_nil q).symm
  | w :: ws, q, hroom => by
    have hpush : pushFrame capacity q w = q ++ [w] := by
      have hle : (q ++ [w]).length - capacity = 0 := by
        simp only [List.length_append, List.length_cons, List.length_nil] at hroom ⊢
        omega
      rw [pushFrame, List.rtake, hle, List.drop_zero]
    rw [List.foldl_cons, hpush, foldl_pushFrame ws (q ++ [w]), List.append_assoc]
    · rfl
    · simp only [List.length_append, List.length_cons, List.length_nil] at hroom ⊢
      omega

/-- Without an event over the frame size the whole batch is sent. -/
theorem sent_batchOf {g : GossipProtocol} (hc : ∀ e ∈ g.pendingBroadcasts, Carriable e) (p : String) :
    sent (batchOf g p) = batchOf g p := by
  refine List.takeWhile_eq_self_iff.mpr fun e he => ?_
  have hpending := (undelivered_sublist g p).subset (List.mem_of_mem_take he)
  have hsize := mt oversize_iff.mp (hc e hpending).not_oversize
  simpa using hsize

/-- The hops left do not matter, as long as there are any. -/
theorem carriable_ttl (kind : OndeMessageType) {ttl : UInt8} (httl : ttl ≠ 0) :
    Carriable { knownEvent kind with ttl := ttl } := by
  have hform := Post.wireForm_ttl kind ttl
  refine ⟨⟨hform.id, hform.pubkey, hform.sig⟩, ⟨_, toWireBytes_wireForm hform, ?_⟩, ?_⟩
  · have hlen : (encEvent { knownEvent kind with ttl := ttl }).length = 157 := length_encEvent hform
    rw [TrafficPadding.length_pad, hlen]
    decide
  · exact fun hblank => absurd (congrArg MeshEvent.ttl hblank) httl

theorem knownEvent_carriable (kind : OndeMessageType) : Carriable (knownEvent kind) :=
  carriable_ttl kind (show (5 : UInt8) ≠ 0 by decide)

/-- A frame that comes in does nothing to the gossip state, or it inserts the event it decodes to. -/
theorem processFrame_gossip (report : PumpReport) (n : Node h) (frame : InboundFrame) :
    (processFrame (report, n) frame).2.identity = n.identity ∧
      ((processFrame (report, n) frame).2.gossip = n.gossip ∨
        ∃ e order, fromWireBytes frame.payload = .ok e ∧ Admitted h.toPrimitives e ∧
          (processFrame (report, n) frame).2.gossip = (n.gossip.insertNew order e).2) := by
  cases hd : fromWireBytes frame.payload with
  | error err =>
    rw [processFrame_error hd]
    exact ⟨rfl, .inl rfl⟩
  | ok e =>
    rw [processFrame_ok hd]
    have hspec := Node.receivePeerEvent_spec frame.env frame.now n e
    refine ⟨hspec.identity, ?_⟩
    by_cases hreg : (n.verdict frame.now e).passes = true ∧ n.Registers frame.env e
    · exact .inr ⟨e, frame.env.order, rfl, ⟨_, _, hreg.2.1⟩, hspec.registered hreg.1 hreg.2⟩
    · exact .inl (hspec.unregistered hreg)

/-- It inserts an event that the gate and the handler let in. -/
theorem gossip_processFrame {report : PumpReport} {n : Node h} {frame : InboundFrame} {e : MeshEvent}
    (hdec : fromWireBytes frame.payload = .ok e) (hpasses : (n.verdict frame.now e).passes = true)
    (hregisters : n.Registers frame.env e) :
    (processFrame (report, n) frame).2.gossip = (n.gossip.insertNew frame.env.order e).2 := by
  rw [processFrame_ok hdec]
  exact (Node.receivePeerEvent_spec frame.env frame.now n e).registered hpasses hregisters

/-- The frames of a queue that a pass leaves were there, or are those of events of the outbox. -/
theorem Served.mem_queue {keys : List String} {s s' : Pump} (hs : Served keys s s') {p : String} {w : Bytes}
    (hw : w ∈ s'.transport.queue p) : w ∈ s.transport.queue p ∨ ∃ e ∈ s.gossip.pendingBroadcasts, FrameOf e w := by
  have hpush : ∀ (capacity : Nat) (ws q : List Bytes), w ∈ ws.foldl (pushFrame capacity) q → w ∈ q ∨ w ∈ ws := by
    intro capacity ws
    induction ws with
    | nil => exact fun q hw => .inl hw
    | cons v ws ih =>
      intro q hw
      rcases ih _ hw with hq | hws
      · rcases List.mem_append.mp ((List.drop_sublist _ _).subset hq) with hq | hv
        · exact .inl hq
        · exact .inr (List.mem_cons.mpr (.inl (List.mem_singleton.mp hv)))
      · exact .inr (List.mem_cons_of_mem _ hws)
  rw [hs.queue p] at hw
  split at hw
  · rcases hpush _ _ _ hw with hq | hnew
    · exact .inl hq
    · obtain ⟨e, he, hf⟩ := List.mem_filterMap.mp hnew
      have hpending := (undelivered_sublist s.gossip p).subset ((sent_initial s.gossip p).subset he)
      exact .inr ⟨e, hpending, frameOf_spec hf⟩
  · exact .inl hw

/-! ## The state -/

/-- The nodes and their transports, the frames written to the wire, the events signed and by whom, the bytes strangers
wrote, and the events queued by a node to a peer. -/
structure Mesh (h : Host) (ι : Type) where
  node : ι → Node h
  transport : ι → TcpTransport
  wire : List Bytes
  signed : List (ι × MeshEvent)
  injected : List Bytes
  queued : ι → String → List MeshEvent

namespace Mesh

/-- Nothing has happened. -/
structure Fresh (m : Mesh h ι) : Prop where
  gossip : ∀ i, (m.node i).gossip = GossipProtocol.new.setMetrics 0
  queue : ∀ i p, (m.transport i).queue p = []
  wire : m.wire = []
  signed : m.signed = []
  injected : m.injected = []
  queued : ∀ i p, m.queued i p = []

/-- The events that strangers brought, -/
def foreign (m : Mesh h ι) : List MeshEvent := m.injected.filterMap fun data => (fromWireBytes data).toOption

/-- and all there are. -/
def sources (m : Mesh h ι) : List MeshEvent := m.signed.map Prod.snd ++ m.foreign

/-- The events of a batch that are queued. -/
def framed (batch : List MeshEvent) : List MeshEvent := (sent batch).filter fun e => (frameOf e).isSome

/-! ## What a step can do -/

/-- What a step does to the gossip state of a node and to the record of what it queued. -/
inductive Move (m m' : Mesh h ι) (i : ι) : Prop
  | stays (hg : (m'.node i).gossip = (m.node i).gossip) (hq : m'.queued i = m.queued i)
  | inserts (e : MeshEvent) (order : HashOrder) (ha : Admitted h.toPrimitives e)
    (horigin : (i, e) ∈ m'.signed ∨ ∃ w ∈ m.wire, fromWireBytes w = .ok e)
    (hg : (m'.node i).gossip = ((m.node i).gossip.insertNew order e).2) (hq : m'.queued i = m.queued i)
  | flushes (s : Pump) (hs : Served (m.transport i).peerKeys ⟨0, (m.node i).gossip, m.transport i⟩ s)
    (hg : (m'.node i).gossip = s.gossip)
    (hq : ∀ p, m'.queued i p = m.queued i p ++
      if p ∈ (m.transport i).peerKeys then framed (batchOf (m.node i).gossip p) else [])

/-- **What a step can do.** -/
structure StepSpec (m m' : Mesh h ι) : Prop where
  identity : ∀ i, (m'.node i).identity = (m.node i).identity
  move : ∀ i, Move m m' i
  signed : ∀ x ∈ m'.signed, x ∈ m.signed ∨
    x.2.pubkey = (m.node x.1).pubkeyHex ∧ Node.Digits x.2 ∧ Admitted h.toPrimitives x.2
  signs : m.signed ⊆ m'.signed
  injects : m.injected ⊆ m'.injected
  queue : ∀ i p, ∀ w ∈ (m'.transport i).queue p, w ∈ (m.transport i).queue p ∨
    ∃ e ∈ (m.node i).gossip.pendingBroadcasts, FrameOf e w
  wire : ∀ w ∈ m'.wire, w ∈ m.wire ∨ w ∈ m'.injected ∨ ∃ i p, w ∈ (m.transport i).queue p

/-- A step leaves the nodes it does not concern. -/
theorem move_self {m m' : Mesh h ι} {i : ι} (hself : Move m m' i)
    (hother : ∀ j, j ≠ i → m'.node j = m.node j ∧ m'.queued j = m.queued j) (j : ι) : Move m m' j := by
  by_cases hj : j = i
  · rw [hj]
    exact hself
  · obtain ⟨hn, hq⟩ := hother j hj
    exact .stays (congrArg Node.gossip hn) hq

/-! ## Where everything comes from -/

variable {m₀ m m' : Mesh h ι}

/-- Where everything in a mesh comes from: the nodes sign with their keys, and what is in an outbox, a queue or on the
wire was signed or brought in. -/
structure Sourced (m : Mesh h ι) : Prop where
  signed : ∀ x ∈ m.signed, x.2.pubkey = (m.node x.1).pubkeyHex ∧ Node.Digits x.2 ∧ Admitted h.toPrimitives x.2
  outbox : ∀ i, ∀ e ∈ (m.node i).gossip.pendingBroadcasts, e ∈ m.sources ∧ Admitted h.toPrimitives e
  queue : ∀ i p, ∀ w ∈ (m.transport i).queue p, ∃ e ∈ m.sources, FrameOf e w
  wire : ∀ w ∈ m.wire, w ∈ m.injected ∨ ∃ e ∈ m.sources, FrameOf e w

theorem mem_foreign {e : MeshEvent} : e ∈ m.foreign ↔ ∃ data ∈ m.injected, fromWireBytes data = .ok e := by
  unfold foreign
  rw [List.mem_filterMap]
  refine exists_congr fun data => and_congr_right fun _ => ?_
  cases fromWireBytes data <;> simp [Except.toOption]

theorem mem_sources {e : MeshEvent} : e ∈ m.sources ↔ (∃ x ∈ m.signed, x.2 = e) ∨ e ∈ m.foreign := by
  rw [sources, List.mem_append, List.mem_map]

theorem Sourced.digits (hm : Sourced m) {e : MeshEvent} (he : e ∈ m.sources) : Node.Digits e := by
  rcases mem_sources.mp he with ⟨x, hx, rfl⟩ | hforeign
  · exact (hm.signed x hx).2.1
  · obtain ⟨data, -, hdec⟩ := mem_foreign.mp hforeign
    exact digits_of_decoded hdec

/-- **What the wire decodes to was signed or brought in, as it is.** -/
theorem Sourced.decoded (hm : Sourced m) {w : Bytes} (hw : w ∈ m.wire) {e : MeshEvent}
    (hdec : fromWireBytes w = .ok e) : e ∈ m.sources := by
  rcases hm.wire w hw with hinjected | ⟨e', he', hframe⟩
  · exact mem_sources.mpr (.inr (mem_foreign.mpr ⟨w, hinjected, hdec⟩))
  · rw [hframe.decoded (hm.digits he') hdec]
    exact he'

/-- Sources stay sources. -/
theorem StepSpec.sources (hs : StepSpec m m') : m.sources ⊆ m'.sources := by
  intro e he
  rcases mem_sources.mp he with ⟨x, hx, rfl⟩ | hforeign
  · exact mem_sources.mpr (.inl ⟨x, hs.signs hx, rfl⟩)
  · obtain ⟨data, hdata, hdec⟩ := mem_foreign.mp hforeign
    exact mem_sources.mpr (.inr (mem_foreign.mpr ⟨data, hs.injects hdata, hdec⟩))

theorem StepSpec.pubkeyHex (hs : StepSpec m m') (i : ι) : (m'.node i).pubkeyHex = (m.node i).pubkeyHex := by
  rw [Node.pubkeyHex, Node.pubkeyHex, hs.identity]

/-- An event a step inserts is a source. -/
theorem Sourced.origin (hm : Sourced m) (hs : StepSpec m m') {i : ι} {e : MeshEvent}
    (horigin : (i, e) ∈ m'.signed ∨ ∃ w ∈ m.wire, fromWireBytes w = .ok e) : e ∈ m'.sources := by
  rcases horigin with hsigned | ⟨w, hw, hdec⟩
  · exact mem_sources.mpr (.inl ⟨_, hsigned, rfl⟩)
  · exact hs.sources (hm.decoded hw hdec)

theorem Sourced.step (hm : Sourced m) (hs : StepSpec m m') : Sourced m' := by
  refine ⟨fun x hx => ?_, fun i e he => ?_, fun i p w hw => ?_, fun w hw => ?_⟩
  · rw [hs.pubkeyHex]
    rcases hs.signed x hx with hold | hnew
    · exact hm.signed x hold
    · exact hnew
  · have hold : e ∈ (m.node i).gossip.pendingBroadcasts → e ∈ m'.sources ∧ Admitted h.toPrimitives e := fun he =>
      (hm.outbox i e he).imp_left fun hsource => hs.sources hsource
    rcases hs.move i with ⟨hg, -⟩ | ⟨e', order, ha, horigin, hg, -⟩ | ⟨s, hserved, hg, -⟩
    · rw [hg] at he
      exact hold he
    · rw [hg] at he
      by_cases hk : e'.id ∈ (m.node i).gossip.knownEvents
      · rw [insertNew_known hk] at he
        exact hold he
      · rw [(insertNew_new order hk).2.1] at he
        rcases mem_pushBounded he with he | rfl
        · exact hold he
        · exact ⟨hm.origin hs horigin, ha⟩
    · rw [hg, hserved.pending] at he
      exact hold he
  · rcases hs.queue i p w hw with hold | ⟨e, he, hframe⟩
    · obtain ⟨e, he, hframe⟩ := hm.queue i p w hold
      exact ⟨e, hs.sources he, hframe⟩
    · exact ⟨e, hs.sources (hm.outbox i e he).1, hframe⟩
  · rcases hs.wire w hw with hold | hinjected | ⟨i, p, hqueued⟩
    · rcases hm.wire w hold with hinjected | ⟨e, he, hframe⟩
      · exact .inl (hs.injects hinjected)
      · exact .inr ⟨e, hs.sources he, hframe⟩
    · exact .inl hinjected
    · obtain ⟨e, he, hframe⟩ := hm.queue i p w hqueued
      exact .inr ⟨e, hs.sources he, hframe⟩

theorem Fresh.sourced (h₀ : m₀.Fresh) : Sourced m₀ := by
  refine ⟨fun x hx => ?_, fun i e he => ?_, fun i p w hw => ?_, fun w hw => ?_⟩
  · rw [h₀.signed] at hx
    cases hx
  · rw [h₀.gossip] at he
    cases he
  · rw [h₀.queue] at hw
    cases hw
  · rw [h₀.wire] at hw
    cases hw

/-! ## Steps -/

variable [DecidableEq ι]

/-- Another state of a node, -/
def setNode (m : Mesh h ι) (i : ι) (n : Node h) : Mesh h ι := { m with node := Function.update m.node i n }

/-- and of its transport. -/
def setTransport (m : Mesh h ι) (i : ι) (t : TcpTransport) : Mesh h ι :=
  { m with transport := Function.update m.transport i t }

@[simp] theorem setNode_self (m : Mesh h ι) (i : ι) (n : Node h) : (m.setNode i n).node i = n := by
  simp [setNode]

theorem setNode_other (m : Mesh h ι) {i j : ι} (hj : j ≠ i) (n : Node h) : (m.setNode i n).node j = m.node j := by
  simp [setNode, hj]

@[simp] theorem setTransport_self (m : Mesh h ι) (i : ι) (t : TcpTransport) : (m.setTransport i t).transport i = t := by
  simp [setTransport]

theorem setTransport_other (m : Mesh h ι) {i j : ι} (hj : j ≠ i) (t : TcpTransport) :
    (m.setTransport i t).transport j = m.transport j := by simp [setTransport, hj]

/-- A pass of the pump of a node, which leaves the gossip state and the transport so. -/
def flushed (m : Mesh h ι) (i : ι) (s : Pump) : Mesh h ι :=
  { (m.setNode i { m.node i with gossip := s.gossip }).setTransport i s.transport with
    queued := Function.update m.queued i fun p => m.queued i p ++
      if p ∈ (m.transport i).peerKeys then framed (batchOf (m.node i).gossip p) else [] }

/-- What happens next. -/
inductive Step (m : Mesh h ι) : Mesh h ι → Prop
  /-- A node signs an event. -/
  | signs (i : ι) {event : MeshEvent} {n' : Node h} (hs : (m.node i).Signs event n') :
    Step m { m.setNode i n' with signed := m.signed ++ [(i, event)] }
  /-- A pass of the pump of a node queues the batches of its peers. -/
  | flush (i : ι) {s : Pump} (hc : 1 ≤ (m.transport i).queueCapacity)
    (hs : flushOutbound (m.node i).gossip (m.transport i) = some s) : Step m (m.flushed i s)
  /-- A frame of a queue is written. -/
  | write (i : ι) (p : String) {w : Bytes} (hw : w ∈ (m.transport i).queue p) : Step m { m with wire := m.wire ++ [w] }
  /-- Frames leave the queues of a node, in whatever way; so do its peers. -/
  | transport (i : ι) {t : TcpTransport} (ht : ∀ p, t.queue p ⊆ (m.transport i).queue p) : Step m (m.setTransport i t)
  /-- A frame of the wire reaches a node, any of them, at any time, and stays on the wire. -/
  | deliver (i : ι) (frame : InboundFrame) (hw : frame.payload ∈ m.wire) :
    Step m (m.setNode i (processFrame (.zero, m.node i) frame).2)
  /-- A stranger writes bytes. -/
  | inject (data : Bytes) : Step m { m with wire := m.wire ++ [data], injected := m.injected ++ [data] }
  /-- A node does something else. -/
  | aside (i : ι) {n' : Node h} (hid : n'.identity = (m.node i).identity) (hg : n'.gossip = (m.node i).gossip) :
    Step m (m.setNode i n')

/-- The runs. -/
abbrev Reaches (m₀ m : Mesh h ι) : Prop := Relation.ReflTransGen Step m₀ m

/-- Another state of a node with the same key. -/
theorem identity_setNode {i : ι} {n' : Node h} (hid : n'.identity = (m.node i).identity) (j : ι) :
    ((m.setNode i n').node j).identity = (m.node j).identity := by
  by_cases hj : j = i
  · rw [hj, setNode_self, hid]
  · rw [setNode_other m hj]

/-- A node signs: its key is that of the event. -/
theorem spec_signs {i : ι} {event : MeshEvent} {n' : Node h} (hs : (m.node i).Signs event n') :
    StepSpec m { m.setNode i n' with signed := m.signed ++ [(i, event)] } := by
  obtain ⟨hkey, hdigits, hadmitted, hid, order, hg⟩ := hs.sound
  refine ⟨identity_setNode hid, move_self (i := i) (.inserts event order hadmitted ?_ ?_ rfl) ?_, ?_, ?_, ?_, ?_, ?_⟩
  · exact .inl (List.mem_append_right _ (List.mem_singleton_self _))
  · exact (congrArg Node.gossip (setNode_self m i n')).trans hg
  · exact fun j hj => ⟨setNode_other m hj n', rfl⟩
  · rintro x hx
    rcases List.mem_append.mp hx with hold | hnew
    · exact .inl hold
    · obtain rfl := List.mem_singleton.mp hnew
      exact .inr ⟨hkey, hdigits, hadmitted⟩
  · exact List.subset_append_left _ _
  · exact fun _ hd => hd
  · exact fun _ _ w hw => .inl hw
  · exact fun w hw => .inl hw

/-- The pump of a node serves its peers. -/
theorem spec_flushed {i : ι} {s : Pump}
    (hs : Served (m.transport i).peerKeys ⟨0, (m.node i).gossip, m.transport i⟩ s) : StepSpec m (m.flushed i s) := by
  refine ⟨identity_setNode (m := m) rfl, move_self (.flushes s hs ?_ ?_) ?_, fun x hx => .inl hx, ?_, ?_, ?_, ?_⟩
  · exact congrArg Node.gossip (setNode_self m i _)
  · exact fun p => congrFun (Function.update_self i _ m.queued) p
  · exact fun j hj => ⟨setNode_other m hj _, Function.update_of_ne hj _ _⟩
  · exact fun _ hd => hd
  · exact fun _ hd => hd
  · intro j p w hw
    by_cases hj : j = i
    · subst hj
      have hself : (m.flushed j s).transport j = s.transport := Function.update_self ..
      rw [hself] at hw
      exact hs.mem_queue hw
    · have hother : (m.flushed i s).transport j = m.transport j := Function.update_of_ne hj ..
      rw [hother] at hw
      exact .inl hw
  · exact fun w hw => .inl hw

/-- A node changes its gossip state by what reaches it on the wire only. -/
theorem spec_setNode {i : ι} {n' : Node h} (hid : n'.identity = (m.node i).identity)
    (hg : n'.gossip = (m.node i).gossip ∨ ∃ e order, (∃ w ∈ m.wire, fromWireBytes w = .ok e) ∧
      Admitted h.toPrimitives e ∧ n'.gossip = ((m.node i).gossip.insertNew order e).2) :
    StepSpec m (m.setNode i n') := by
  have hself := congrArg Node.gossip (setNode_self m i n')
  have hmove : Move m (m.setNode i n') i := by
    rcases hg with hsame | ⟨e, order, hdec, hadmitted, hg⟩
    · exact .stays (hself.trans hsame) rfl
    · exact .inserts e order hadmitted (.inr hdec) (hself.trans hg) rfl
  exact ⟨identity_setNode hid, move_self hmove fun j hj => ⟨setNode_other m hj n', rfl⟩, fun x hx => .inl hx,
    fun _ hd => hd, fun _ hd => hd, fun _ _ w hw => .inl hw, fun w hw => .inl hw⟩

theorem Step.spec (hst : Step m m') : StepSpec m m' := by
  cases hst with
  | signs i hs => exact spec_signs hs
  | @flush i s hc hs =>
    obtain ⟨s', hs', hserved⟩ := flushOutbound_spec (t := m.transport i) (m.node i).gossip hc
    obtain rfl : s = s' := Option.some.inj (hs.symm.trans hs')
    exact spec_flushed hserved
  | @write i p w hw =>
    refine ⟨fun _ => rfl, fun _ => .stays rfl rfl, fun x hx => .inl hx, fun _ hd => hd, fun _ hd => hd,
      fun _ _ w hw => .inl hw, fun v hv => ?_⟩
    rcases List.mem_append.mp hv with hold | hnew
    · exact .inl hold
    · obtain rfl := List.mem_singleton.mp hnew
      exact .inr (.inr ⟨i, p, hw⟩)
  | @transport i t ht =>
    refine ⟨fun _ => rfl, fun _ => .stays rfl rfl, fun x hx => .inl hx, fun _ hd => hd, fun _ hd => hd,
      fun j p w hw => .inl ?_, fun w hw => .inl hw⟩
    by_cases hj : j = i
    · subst hj
      rw [setTransport_self] at hw
      exact ht p hw
    · rwa [setTransport_other m hj] at hw
  | deliver i frame hw =>
    obtain ⟨hid, hgossip⟩ := processFrame_gossip .zero (m.node i) frame
    refine spec_setNode hid (hgossip.imp_right ?_)
    rintro ⟨e, order, hdec, hadmitted, hg⟩
    exact ⟨e, order, ⟨_, hw, hdec⟩, hadmitted, hg⟩
  | inject data =>
    refine ⟨fun _ => rfl, fun _ => .stays rfl rfl, fun x hx => .inl hx, fun _ hd => hd,
      List.subset_append_left _ _, fun _ _ w hw => .inl hw, fun w hw => ?_⟩
    exact (List.mem_append.mp hw).imp_right fun hnew => .inl (List.mem_append_right _ hnew)
  | aside i hid hg => exact spec_setNode hid (.inl hg)

/-! ## Runs -/

theorem sourced_run (h₀ : m₀.Fresh) (hr : Reaches m₀ m) : Sourced m := by
  induction hr with
  | refl => exact h₀.sourced
  | tail _ hstep ih => exact ih.step hstep.spec

/-- **Relays neither alter nor invent events.** Over every run of the mesh, with loss, repetition, reordering,
misrouting and strangers on the wire: every event in an outbox, and every event that a frame on the wire decodes to, is
one that a node signed or that a stranger brought, with every field as it was; and those in an outbox passed a
validator. -/
theorem mesh_integrity (h₀ : m₀.Fresh) (hr : Reaches m₀ m) :
    (∀ i, ∀ e ∈ (m.node i).gossip.pendingBroadcasts, e ∈ m.sources ∧ Admitted h.toPrimitives e) ∧
    (∀ w ∈ m.wire, ∀ e, fromWireBytes w = .ok e → e ∈ m.sources) ∧
    ∀ x ∈ m.signed, x.2.pubkey = (m.node x.1).pubkeyHex :=
  have hm := sourced_run h₀ hr
  ⟨hm.outbox, fun _ hw _ hdec => hm.decoded hw hdec, fun x hx => (hm.signed x hx).1⟩

/-! ## Authenticity -/

/-- A stranger has no signature of the key of a node but those on the ids the node signed. -/
def Unforged (m : Mesh h ι) : Prop :=
  ∀ e ∈ m.foreign, e.signatureValid h.toPrimitives = true → (∃ i, (m.node i).pubkeyHex = e.pubkey) →
    ∃ x ∈ m.signed, x.2.pubkey = e.pubkey ∧ x.2.id = e.id

/-- The texts that the ids are the hashes of. -/
def texts (m : Mesh h ι) : Set String := {t | ∃ e ∈ m.sources, t = e.canonicalText}

omit [DecidableEq ι] in
/-- Events of one id have the same content. -/
theorem Sourced.sameSigned (hfree : CollisionFree h.toPrimitives m.texts) {e e' : MeshEvent} (he : e ∈ m.sources)
    (ha : Admitted h.toPrimitives e) (he' : e' ∈ m.sources) (ha' : Admitted h.toPrimitives e') (hid : e.id = e'.id) :
    SameSigned e e' := by
  obtain ⟨clock, floor, hvalid⟩ := ha
  obtain ⟨clock', floor', hvalid'⟩ := ha'
  have htexts : {e.canonicalText, e'.canonicalText} ⊆ m.texts := by
    rintro t (rfl | rfl)
    · exact ⟨e, he, rfl⟩
    · exact ⟨e', he', rfl⟩
  refine (canonicalId_inj (hfree.mono htexts)).mp ?_
  rw [← canonical_of_valid hvalid, ← canonical_of_valid hvalid', hid]

/-- **Nobody speaks under the key of a node.** Over every run in which no signature is forged and no two texts collide,
an event in an outbox under the key of a node has the key, the time, the kind, the tags and the content of one that a
node with this key signed. -/
theorem mesh_authentic (h₀ : m₀.Fresh) (hr : Reaches m₀ m) (hunforged : m.Unforged)
    (hfree : CollisionFree h.toPrimitives m.texts) :
    ∀ i, ∀ e ∈ (m.node i).gossip.pendingBroadcasts, ∀ j, e.pubkey = (m.node j).pubkeyHex →
      ∃ x ∈ m.signed, (m.node x.1).pubkeyHex = e.pubkey ∧ SameSigned e x.2 := by
  intro i e he j hkey
  have hm := sourced_run h₀ hr
  obtain ⟨hsource, hadmitted⟩ := hm.outbox i e he
  rcases mem_sources.mp hsource with ⟨x, hx, rfl⟩ | hforeign
  · exact ⟨x, hx, (hm.signed x hx).1.symm, rfl, rfl, rfl, rfl, rfl⟩
  · obtain ⟨clock, floor, hvalid⟩ := hadmitted
    have hsig : e.signatureValid h.toPrimitives = true :=
      (checkSigned_ok.mp (validateWithPowMin_ok.mp hvalid).1).2.2.2
    obtain ⟨x, hx, hpubkey, hid⟩ := hunforged e hforeign hsig ⟨j, hkey.symm⟩
    obtain ⟨hown, -, hadmitted'⟩ := hm.signed x hx
    exact ⟨x, hx, hown.symm.trans hpubkey, Sourced.sameSigned hfree hsource ⟨clock, floor, hvalid⟩
      (mem_sources.mpr (.inl ⟨x, hx, rfl⟩)) hadmitted' hid.symm⟩

/-! ## An author and a node that trusts it -/

/-- Both are fresh, and know the other as a peer. -/
def pairMesh : Mesh knownHost Bool where
  node b := bif b then authorNode else trustingNode
  transport _ := ⟨256, ∅, {"peer"}, 0⟩
  wire := []
  signed := []
  injected := []
  queued _ _ := []

theorem pairMesh_fresh : pairMesh.Fresh :=
  ⟨fun b => by cases b <;> rfl, fun _ _ => rfl, rfl, rfl, rfl, fun _ _ => rfl⟩

/-- An outbox of one event is flushed to a peer with an empty queue. -/
theorem step_flush_one {i : ι} {p : String} {e : MeshEvent} (hc : Carriable e)
    (hheld : (m.node i).gossip.pendingBroadcasts = [e]) (hmarked : (m.node i).gossip.deliveredTo p = [])
    (hkey : p ∈ (m.transport i).peerKeys) (hempty : (m.transport i).queue p = [])
    (hcap : 1 ≤ (m.transport i).queueCapacity) :
    ∃ (s : Pump) (w : Bytes), Step m (m.flushed i s) ∧ s.gossip.pendingBroadcasts = [e] ∧
      e.id ∈ s.gossip.deliveredTo p ∧ w ∈ s.transport.queue p ∧ fromWireBytes w = .ok e ∧
      (m.flushed i s).queued i p = m.queued i p ++ [e] := by
  have hbatch : batchOf (m.node i).gossip p = [e] := by
    simp [batchOf, GossipProtocol.undelivered, hheld, hmarked, pumpBatchMaxEvents]
  have hsent : sent (batchOf (m.node i).gossip p) = [e] := by
    rw [sent_batchOf, hbatch]
    rw [hheld]
    intro e' he'
    obtain rfl := List.mem_singleton.mp he'
    exact hc
  obtain ⟨w, hw, -, -, hdec⟩ := hc.frame
  have hframed : framed (batchOf (m.node i).gossip p) = [e] := by simp [framed, hsent, hw]
  obtain ⟨s, hs, hserved⟩ := flushOutbound_spec (t := m.transport i) (m.node i).gossip hcap
  have hqueue : s.transport.queue p = [w] := by
    rw [hserved.queue, if_pos hkey, hsent, List.filterMap_cons_some hw, hempty]
    exact foldl_pushFrame [w] [] hcap
  have hdelivered := hserved.delivered p
  rw [if_pos hkey, hsent, hmarked] at hdelivered
  refine ⟨s, w, .flush i hcap hs, hserved.pending.trans hheld, ?_, ?_, hdec, ?_⟩
  · rw [hdelivered]
    exact List.mem_singleton_self _
  · rw [hqueue]
    exact List.mem_singleton_self _
  · show Function.update m.queued i _ i p = _
    rw [Function.update_self, if_pos hkey, hframed]

/-- The author publishes an alert, flushes it to its peer, and the frame is written. -/
theorem pairMesh_written : ∃ (m : Mesh knownHost Bool) (w : Bytes), Reaches pairMesh m ∧
    m.signed = [(true, knownEvent .alert)] ∧ m.injected = [] ∧ m.node false = trustingNode ∧
    m.transport false = pairMesh.transport false ∧ m.queued false = pairMesh.queued false ∧
    (m.node true).gossip.pendingBroadcasts = [knownEvent .alert] ∧
    (knownEvent .alert).id ∈ (m.node true).gossip.deliveredTo "peer" ∧
    m.queued true "peer" = [knownEvent .alert] ∧ w ∈ m.wire ∧ fromWireBytes w = .ok (knownEvent .alert) := by
  obtain ⟨author, hp⟩ := author_publishes
  have hsigns : (pairMesh.node true).Signs (knownEvent .alert) author := Node.publish_signs hp
  obtain ⟨-, -, -, -, order, hg⟩ := hsigns.sound
  have hnew : (knownEvent .alert).id ∉ (pairMesh.node true).gossip.knownEvents := Finset.notMem_empty _
  obtain ⟨-, hpending, hd, -⟩ := insertNew_new order hnew
  have hheld : author.gossip.pendingBroadcasts = [knownEvent .alert] := by rw [hg, hpending]; rfl
  have hmarked : author.gossip.deliveredTo "peer" = [] := by rw [hg, deliveredTo, hd]; rfl
  have hkey : "peer" ∈ (pairMesh.transport true).peerKeys := mem_peerKeys.mpr (Finset.mem_singleton_self _)
  obtain ⟨s, w, hflush, hpending', hdelivered, hqueue, hdec, hqueued⟩ := step_flush_one (i := true) (p := "peer")
    (m := { pairMesh.setNode true author with signed := pairMesh.signed ++ [(true, knownEvent .alert)] })
    (knownEvent_carriable .alert) hheld hmarked hkey rfl (show 1 ≤ 256 by decide)
  have hrun := ((Relation.ReflTransGen.single (Step.signs true hsigns)).tail hflush).tail (.write true "peer" hqueue)
  exact ⟨_, w, hrun, rfl, rfl, rfl, rfl, rfl, hpending', hdelivered, hqueued,
    List.mem_append_right _ (List.mem_singleton_self w), hdec⟩

/-- The alert with another number of hops, which is not signed. -/
def alteredAlert : MeshEvent := { knownEvent .alert with ttl := 1 }

/-- Neither the gate nor the validator looks at the hops. -/
theorem verdict_ttl (n : Node h) (now : Nat) (e : MeshEvent) (ttl : UInt8) :
    n.verdict now { e with ttl := ttl } = n.verdict now e := rfl

theorem registers_ttl (env : Env) (n : Node h) (e : MeshEvent) (ttl : UInt8) :
    n.Registers env { e with ttl := ttl } ↔ n.Registers env e := Iff.rfl

/-- A stranger writes the altered alert before the alert itself arrives, and the peer relays it. -/
theorem pairMesh_relayed : ∃ m : Mesh knownHost Bool, Reaches pairMesh m ∧ m.signed = [(true, knownEvent .alert)] ∧
    m.foreign = [alteredAlert] ∧ (m.node false).gossip.pendingBroadcasts = [alteredAlert] ∧
    m.queued true "peer" = [knownEvent .alert] ∧ m.queued false "peer" = [alteredAlert] := by
  obtain ⟨m, -, hr, hsigned, hinjected, hpeer, htransport, hqueue, -, -, hqueued, -, -⟩ := pairMesh_written
  have hc : Carriable alteredAlert := carriable_ttl .alert (by decide)
  obtain ⟨w, -, -, -, hdec⟩ := hc.frame
  let m₁ : Mesh knownHost Bool := { m with wire := m.wire ++ [w], injected := m.injected ++ [w] }
  let frame : InboundFrame := ⟨"peer", w, .still 1700000000, 1700000000⟩
  have hframe : frame.payload ∈ m₁.wire := List.mem_append_right _ (List.mem_singleton_self w)
  have hverdict : trustingNode.verdict frame.now alteredAlert = .room :=
    (verdict_ttl _ _ _ _).trans (trusting_verdict _ .alert)
  have hregisters : trustingNode.Registers frame.env alteredAlert :=
    (registers_ttl _ _ _ _).mpr ⟨trusting_valid .alert, Node.accepts_alert rfl⟩
  have hnew : alteredAlert.id ∉ trustingNode.gossip.knownEvents := trusting_new .alert
  obtain ⟨-, hpending, hd, -⟩ := insertNew_new frame.env.order hnew
  let m₂ := m₁.setNode false (processFrame (.zero, m₁.node false) frame).2
  have htaken : (m₂.node false).gossip = (trustingNode.gossip.insertNew frame.env.order alteredAlert).2 := by
    refine (congrArg Node.gossip (setNode_self m₁ false _)).trans ?_
    rw [show m₁.node false = trustingNode from hpeer]
    exact gossip_processFrame hdec (by rw [hverdict]; rfl) hregisters
  have hstill : m₂.transport false = pairMesh.transport false := htransport
  have hkey : "peer" ∈ (m₂.transport false).peerKeys := by
    rw [hstill]
    exact mem_peerKeys.mpr (Finset.mem_singleton_self _)
  obtain ⟨s, w', hflush, hpending', -, -, -, hqueued'⟩ := step_flush_one (m := m₂) (i := false) (p := "peer") hc
    (by rw [htaken, hpending]; rfl) (by rw [htaken, deliveredTo, hd]; rfl) hkey
    (by rw [hstill]; rfl) (by rw [hstill]; decide)
  refine ⟨_, ((hr.tail (.inject w)).tail (.deliver false frame hframe)).tail hflush, hsigned, ?_, ?_, hqueued, ?_⟩
  · show (m.injected ++ [w]).filterMap _ = _
    rw [hinjected, List.nil_append, List.filterMap_cons_some (by rw [hdec]; rfl), List.filterMap_nil]
  · exact hpending'
  · rw [hqueued', show m₂.queued false = pairMesh.queued false from hqueue]
    rfl

/-- The outbox of the peer holds what the stranger brought. -/
theorem mesh_integrity_alert : ∃ m : Mesh knownHost Bool, Reaches pairMesh m ∧
    (m.node false).gossip.pendingBroadcasts = [alteredAlert] ∧ alteredAlert ∈ m.sources ∧
    Admitted knownHost.toPrimitives alteredAlert := by
  obtain ⟨m, hr, -, -, hheld, -, -⟩ := pairMesh_relayed
  obtain ⟨houtbox, -, -⟩ := mesh_integrity pairMesh_fresh hr
  exact ⟨m, hr, hheld, houtbox false alteredAlert (hheld ▸ List.mem_singleton_self _)⟩

/-- It is still what the author said. -/
theorem mesh_authentic_alert : ∃ m : Mesh knownHost Bool, Reaches pairMesh m ∧
    (m.node false).gossip.pendingBroadcasts = [alteredAlert] ∧
    ∃ x ∈ m.signed, (m.node x.1).pubkeyHex = knownAuthor ∧ SameSigned alteredAlert x.2 := by
  obtain ⟨m, hr, hsigned, hforeign, hheld, -, -⟩ := pairMesh_relayed
  have hauthor : (true, knownEvent .alert) ∈ m.signed := hsigned ▸ List.mem_singleton_self _
  have hkey : (knownEvent .alert).pubkey = (m.node true).pubkeyHex :=
    ((sourced_run pairMesh_fresh hr).signed _ hauthor).1
  have hunforged : m.Unforged := by
    intro e he _ _
    rw [hforeign] at he
    obtain rfl := List.mem_singleton.mp he
    exact ⟨_, hauthor, rfl, rfl⟩
  have hfree : CollisionFree knownHost.toPrimitives m.texts := by
    have hone : m.texts ⊆ {(knownEvent .alert).canonicalText} := by
      rintro t ⟨e, he, rfl⟩
      rw [sources, hsigned, hforeign] at he
      rcases List.mem_cons.mp he with rfl | he
      · rfl
      · obtain rfl := List.mem_singleton.mp he
        rfl
    exact Set.InjOn.mono hone (Set.injOn_singleton _ _)
  obtain ⟨x, hx, hkey', hsame⟩ := mesh_authentic pairMesh_fresh hr hunforged hfree false alteredAlert
    (hheld ▸ List.mem_singleton_self _) true hkey
  exact ⟨m, hr, hheld, x, hx, hkey'.trans (knownEvent_pubkey .alert), hsame⟩

end Mesh

end Onde.Network

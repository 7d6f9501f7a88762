import Onde.Network.Draining
import Onde.Network.Mesh
import Onde.Node.HealBatch

/-!
# From an outbox to a peer

Flushes, queues, frames, sockets, readers, the inbound queue and the pump, one after the other.

* `Sender.pass`: a pass of the pump, and a writer that keeps up with it;
* `sender_passes`: what is written are the frames of the batches;
* `exchange_transparent`: whatever the fragmentation, and whenever the pump of the peer runs, the peer receives the
  events of the outbox, as they are, in order and once, as if they were handed over directly.
-/

namespace Onde.Network

open Onde.Lib Onde.Crypto Onde.Reputation Onde.Protocol Onde.Protocol.GossipProtocol

variable {h : Host} {g : GossipProtocol} {t : TcpTransport} {p : String} {e : MeshEvent}

/-! ## Frames -/

/-- The frames of events. -/
def framesOf (events : List MeshEvent) : List Bytes := events.filterMap frameOf

/-- A frame for each event, which decodes to it. -/
theorem framesOf_spec (events : List MeshEvent) (hc : ∀ e ∈ events, Carriable e) :
    (framesOf events).length = events.length ∧ FrameReader.Payloads (framesOf events) ∧
      (framesOf events).filterMap (fun w => (fromWireBytes w).toOption) = events := by
  induction events with
  | nil => exact ⟨rfl, fun _ hw => (nomatch hw), rfl⟩
  | cons e events ih =>
    obtain ⟨hlen, hpayloads, hdecoded⟩ := ih fun e he => hc e (List.mem_cons_of_mem _ he)
    obtain ⟨w, hw, hpos, hfits, hdec⟩ := (hc e List.mem_cons_self).frame
    have hcons : framesOf (e :: events) = w :: framesOf events := List.filterMap_cons_some hw
    rw [hcons]
    refine ⟨congrArg (· + 1) hlen, fun v hv => ?_, ?_⟩
    · rcases List.mem_cons.mp hv with rfl | hv
      · exact ⟨hpos, hfits⟩
      · exact hpayloads v hv
    · rw [List.filterMap_cons_some (by rw [hdec]; rfl), hdecoded]

/-! ## The sender -/

/-- The gossip state and the transport of a sender, and the frames written to the connection with the peer. -/
structure Sender where
  gossip : GossipProtocol
  transport : TcpTransport
  written : List Bytes

namespace Sender

/-- A pass of the pump; then the writer empties the queue of the peer. -/
def pass (p : String) (s : Sender) : Option Sender :=
  (flushOutbound s.gossip s.transport).map fun f => {
    gossip := f.gossip
    transport := { f.transport with outbound := f.transport.outbound.insert p [] }
    written := s.written ++ f.transport.queue p }

def passes (p : String) : Nat → Sender → Option Sender
  | 0, s => some s
  | n + 1, s => (passes p n s).bind (pass p)

end Sender

/-- A sender that serves a peer: it has room for a batch, and nothing waits in the queue. -/
structure Serves (p : String) (t : TcpTransport) : Prop where
  room : pumpBatchMaxEvents ≤ t.queueCapacity
  dial : p ∈ t.dialTargets
  empty : t.queue p = []

/-- **A pass writes the frames of a batch** and marks its events. -/
theorem sender_pass (hb : Bounded g) (hc : ∀ e ∈ g.pendingBroadcasts, Carriable e) (ht : Serves p t)
    (written : List Bytes) : ∃ g' t', Sender.pass p ⟨g, t, written⟩ =
      some ⟨g', t', written ++ framesOf ((g.undelivered p).take pumpBatchMaxEvents)⟩ ∧
      Handed pumpBatchMaxEvents p g g' ∧ Serves p t' := by
  have hcapacity : 1 ≤ t.queueCapacity := Nat.le_trans (by decide) ht.room
  obtain ⟨f, hf, hs⟩ := flushOutbound_spec (t := t) g hcapacity
  have hkey : p ∈ t.peerKeys := mem_peerKeys.mpr ht.dial
  have hdelivered := hs.delivered p
  have hqueue := hs.queue p
  rw [if_pos hkey, sent_batchOf hc] at hdelivered hqueue
  have hpayloads := framesOf_spec (batchOf g p) fun e he =>
    hc e ((undelivered_sublist g p).subset (List.mem_of_mem_take he))
  have hwritten : f.transport.queue p = framesOf (batchOf g p) := by
    rw [hqueue, ht.empty]
    refine foldl_pushFrame _ [] ?_
    have hle : (batchOf g p).length ≤ pumpBatchMaxEvents := List.length_take_le _ _
    rw [List.length_nil, Nat.zero_add]
    exact hpayloads.1.trans_le (hle.trans ht.room)
  refine ⟨f.gossip, { f.transport with outbound := f.transport.outbound.insert p [] }, ?_,
    ⟨hs.bounded hb, hs.pending, hdelivered⟩, ⟨?_, ?_, ?_⟩⟩
  · rw [Sender.pass, hf, Option.map_some, hwritten]
    rfl
  · exact hs.capacity.symm ▸ ht.room
  · exact hs.dial.symm ▸ ht.dial
  · simp [TcpTransport.queue]

/-- **Passes write the frames of batches**, which drain the outbox. -/
theorem sender_passes (hb : Bounded g) (hc : ∀ e ∈ g.pendingBroadcasts, Carriable e) (ht : Serves p t) :
    ∀ n : Nat, ∃ g' t' batches, Sender.passes p n ⟨g, t, []⟩ = some ⟨g', t', framesOf batches.flatten⟩ ∧
      Drains pumpBatchMaxEvents p g batches g' ∧ batches.length = n ∧ Serves p t'
  | 0 => ⟨g, t, [], rfl, .start, rfl, ht⟩
  | n + 1 => by
    obtain ⟨g', t', batches, hrun, hdrains, hlen, ht'⟩ := sender_passes hb hc ht n
    have hd := hdrains.spec hb
    obtain ⟨g'', t'', hpass, hh, ht''⟩ := sender_pass hd.bounded (hd.pending.symm ▸ hc) ht' (framesOf batches.flatten)
    refine ⟨g'', t'', batches ++ [(g'.undelivered p).take pumpBatchMaxEvents], ?_, .batch hdrains hh, ?_, ht''⟩
    · rw [Sender.passes, hrun, Option.bind_some, hpass, List.flatten_append, List.flatten_singleton, framesOf,
        framesOf, framesOf, List.filterMap_append]
    · rw [List.length_append, List.length_singleton, hlen]

/-! ## The receiver -/

/-- The payload of a frame that was read. -/
def FramePoll.payload : FramePoll → Option Bytes
  | .frame w => some w
  | _ => none

/-- The payloads that the reader of a connection hands over. -/
def framesRead (sock : Socket) : List Bytes := (FrameReader.results .new sock).1.filterMap FramePoll.payload

/-- The reader hands over the frames that were written, whatever the fragmentation. -/
theorem framesRead_spec {ws : List Bytes} {bs : Bytes} {sock : Socket} (hws : FrameReader.Payloads ws)
    (hbs : FrameReader.encodeFrames ws = .ok bs) (hs : Retryable sock) (hstream : stream sock = bs) :
    framesRead sock = ws := by
  rw [framesRead, ((FrameReader.results_eq_parse hs).2 ws bs hws hbs).1 hstream, List.filterMap_append,
    List.filterMap_map]
  have hpayload : FramePoll.payload ∘ FramePoll.frame = some := rfl
  rw [hpayload, List.filterMap_some]
  exact List.append_nil ws

/-- The events of receptions. -/
theorem receptions_events (frames : List InboundFrame) : (receptions frames).map Call.event =
    (frames.map InboundFrame.payload).filterMap fun w => (fromWireBytes w).toOption := by
  unfold receptions
  rw [List.map_filterMap, List.filterMap_map]
  refine List.filterMap_congr fun frame _ => ?_
  rw [Option.map_map]
  exact congrFun Option.map_id _

/-- A run that drops nothing and leaves nothing waiting has handled what arrived. -/
theorem Post.Settled.all {n₀ : Node h} {came : List (String × Bytes)} {s : Post h} (hs : Settled n₀ came s)
    (hdropped : s.queues.framesDroppedInboundFull = 0) (hempty : s.queues.inbound = []) :
    s.handled.map InboundFrame.payload = came.map Prod.snd := by
  have hevery := hs.every
  have horder := hs.order
  rw [hempty, List.append_nil] at horder
  rw [hempty, hdropped] at hevery
  have hwire : (Post.wire s.handled).length = came.length := by
    rw [Post.wire, List.length_map]
    simpa using hevery
  have hall := horder.eq_of_length hwire
  rw [← hall, Post.wire, List.map_map]
  rfl

/-- **The network is transparent.** A sender with room for a batch, nothing in the queue to the peer and an outbox the
frames can carry runs its pump `n` times, while its writer keeps up. Then what it writes is `events`, as frames: each
once, and all from the outbox; with as many passes as the outbox is long, everything that was undelivered; and if
whatever is marked stays so, exactly the first of what was undelivered, in order. However the connection fragments the
bytes, and whenever the pump of the peer runs, if its queue drops nothing and ends empty, the peer is as after the
receptions of exactly these events in this order, and no frame failed to decode. -/
theorem exchange_transparent (hb : Bounded g) (hc : ∀ e ∈ g.pendingBroadcasts, Carriable e) (ht : Serves p t)
    (n : Nat) : ∃ (s : Sender) (events : List MeshEvent) (bs : Bytes), Sender.passes p n ⟨g, t, []⟩ = some s ∧
      FrameReader.encodeFrames s.written = .ok bs ∧ (events.map MeshEvent.id).Nodup ∧
      (∀ e ∈ events, e ∈ g.pendingBroadcasts) ∧
      (g.pendingBroadcasts.length ≤ n → ∀ e ∈ g.undelivered p, e ∈ events) ∧
      (Steady g p → events = (g.undelivered p).take (pumpBatchMaxEvents * n)) ∧
      ∀ (sock : Socket), Retryable sock → stream sock = bs →
        ∀ (capacity : Nat) (receiver : Node h) (as : List Post.Action) (post : Post h),
          (Post.start capacity receiver).run as = some post →
          (Post.arrived as).map Prod.snd = framesRead sock →
          post.queues.framesDroppedInboundFull = 0 → post.queues.inbound = [] →
          post.report.decodeErrors = 0 ∧
          ∃ calls : List Call, calls.map Call.event = events ∧ post.node = afterReceptions receiver calls := by
  obtain ⟨g', t', batches, hrun, hdrains, hlen, -⟩ := sender_passes hb hc ht n
  have hd := hdrains.spec hb
  obtain ⟨hcount, hpayloads, hdecoded⟩ := framesOf_spec batches.flatten fun e he =>
    hc e (hd.settled e he).1
  obtain ⟨bs, hbs, -⟩ := FrameReader.parse_encodeFrames hpayloads
  refine ⟨_, batches.flatten, bs, hrun, hbs, hd.once, fun e he => (hd.settled e he).1, fun hn e he => ?_,
    fun hsteady => ?_, fun sock hs hstream capacity receiver as post hpost harrived hdropped hempty => ?_⟩
  · have hnil := hdrains.done hb (by decide) (hlen.symm ▸ hn)
    refine (hd.waiting e he).resolve_right fun hwaits => ?_
    rw [hnil] at hwaits
    cases hwaits
  · rw [(hdrains.steady hb hsteady).2.1, hlen]
  · have hsettled : Post.Settled receiver ([] ++ Post.arrived as) post :=
      (Post.settled_start capacity receiver).run hpost
    rw [List.nil_append] at hsettled
    have hhandled := hsettled.all hdropped hempty
    rw [harrived, framesRead_spec hpayloads hbs hs hstream] at hhandled
    have hevents : (receptions post.handled).map Call.event = batches.flatten := by
      rw [receptions_events, hhandled, hdecoded]
    refine ⟨?_, receptions post.handled, hevents, hsettled.accounts.node⟩
    have hall : post.report.decodeErrors + (receptions post.handled).length = post.handled.length :=
      hsettled.accounts.decoded
    have hone : post.handled.length = (receptions post.handled).length := by
      rw [← List.length_map (f := InboundFrame.payload), hhandled, hcount, ← hevents, List.length_map]
    omega

/-! ## An alert on its way -/

/-- One pass writes the alert of the node that took it. -/
theorem exchange_transparent_alert : ∃ (s : Sender) (events : List MeshEvent),
    Sender.passes "peer" 1 ⟨alertedNode.gossip, ⟨256, ∅, {"peer"}, 0⟩, []⟩ = some s ∧
      knownEvent .alert ∈ events ∧ (events.map MeshEvent.id).Nodup := by
  have hb : Bounded alertedNode.gossip := alertedOps_run ▸ bounded_deliveryRun _ _
  obtain ⟨-, hp, hd, -⟩ := insertNew_new (g := trustingNode.gossip) .sorted (trusting_new .alert)
  have hpending : alertedNode.gossip.pendingBroadcasts = [knownEvent .alert] := by rw [alertedNode_gossip, hp]; rfl
  have hc : ∀ e ∈ alertedNode.gossip.pendingBroadcasts, Carriable e := by
    rw [hpending]
    intro e he
    obtain rfl := List.mem_singleton.mp he
    exact knownEvent_carriable .alert
  have ht : Serves "peer" ⟨256, ∅, {"peer"}, 0⟩ := ⟨by decide, Finset.mem_singleton_self _, rfl⟩
  obtain ⟨s, events, -, hrun, -, honce, -, hall, -⟩ := exchange_transparent (h := knownHost) hb hc ht 1
  refine ⟨s, events, hrun, hall (by rw [hpending]; exact Nat.le_refl 1) _ (mem_undelivered.mpr ⟨?_, ?_⟩), honce⟩
  · rw [hpending]
    exact List.mem_singleton_self _
  · rw [alertedNode_gossip, deliveredTo, hd]
    exact List.not_mem_nil

end Onde.Network

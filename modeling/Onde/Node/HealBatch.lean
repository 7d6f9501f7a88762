import Onde.Network.Draining
import Onde.Network.Inbound

/-!
# Catching up after a partition

* `Node.takeHealBatch`: a bounded batch of what a peer does not have, marked once it is selected;
* `Node.drainHeal`: batch after batch until one is empty, each received by the peer;
* `heal_drain`: it returns, hands over everything the peer lacks and nothing twice, and nothing else happens to either
  node; in a run whose known set never overflows it hands over exactly what was undelivered, in order.
-/

namespace Onde

open Lib Crypto Reputation Protocol Network Protocol.GossipProtocol

variable {h : Host}

namespace Node

/-- A batch to catch up with. -/
def takeHealBatch (n : Node h) (peerId : String) : List MeshEvent × Node h :=
  let batch := n.gossip.peekPendingForPeer peerId healBatchMaxEvents
  if batch.1 = [] then (batch.1, { n with gossip := batch.2 })
  else (batch.1, { n with gossip := batch.2.markDeliveredToPeer peerId (batch.1.map MeshEvent.id) })

/-- Events received one after the other, from the moment `seq` on. -/
def ingestBatch (moment : Nat → Moment) : Nat → Node h → List MeshEvent → Node h
  | _, n, [] => n
  | seq, n, event :: events =>
    ingestBatch moment (seq + 1) (n.receivePeerEvent (moment seq).env (moment seq).now event).node events

/-- Empty the outbox of a node towards another one, batch after batch, with fuel for the loop: the batches and the two
nodes. -/
def drainHeal (peer : String) (moment : Nat → Moment) : Nat → Nat → Node h → Node h →
    Option (List (List MeshEvent) × Node h × Node h)
  | 0, _, _, _ => none
  | fuel + 1, seq, sender, receiver =>
    let batch := sender.takeHealBatch peer
    if batch.1 = [] then some ([], batch.2, receiver)
    else (drainHeal peer moment fuel (seq + batch.1.length) batch.2 (receiver.ingestBatch moment seq batch.1)).map
      fun r => (batch.1 :: r.1, r.2)

variable {n sender receiver : Node h} {peer : String} {moment : Nat → Moment}

/-! ## One batch -/

/-- **A batch is the first events undelivered to the peer**, and the node is the same but for what it marks. -/
theorem takeHealBatch_spec (hb : Bounded n.gossip) (peer : String) :
    (n.takeHealBatch peer).1 = (n.gossip.undelivered peer).take healBatchMaxEvents ∧
      Handed healBatchMaxEvents peer n.gossip (n.takeHealBatch peer).2.gossip ∧
      (n.takeHealBatch peer).2 = { n with gossip := (n.takeHealBatch peer).2.gossip } := by
  have hbatch : (n.gossip.peekPendingForPeer peer healBatchMaxEvents).1 =
      (n.gossip.undelivered peer).take healBatchMaxEvents := peekPendingForPeer_fst _ _
  obtain ⟨hp, _, hd⟩ := peekPendingForPeer_snd n.gossip peer healBatchMaxEvents
  have hpeeked := hb.peek peer healBatchMaxEvents
  unfold takeHealBatch
  dsimp only
  rw [hbatch]
  split
  · next hnil =>
    refine ⟨rfl, ⟨hpeeked, hp, ?_⟩, rfl⟩
    rw [hnil]
    exact hd peer
  · refine ⟨rfl, ⟨hpeeked.mark peer _, (markDeliveredToPeer_frame _ _ _).1.trans hp, ?_⟩, rfl⟩
    exact (markDeliveredToPeer_self _ _).trans (by rw [hd])

/-- The receptions of a batch. -/
theorem ingestBatch_eq (moment : Nat → Moment) : ∀ (events : List MeshEvent) (seq : Nat) (n : Node h),
    ∃ calls : List Call, calls.map Call.event = events ∧ n.ingestBatch moment seq events = afterReceptions n calls
  | [], _, n => ⟨[], rfl, rfl⟩
  | event :: events, seq, n => by
    obtain ⟨calls, hcalls, heq⟩ := ingestBatch_eq moment events (seq + 1)
      (n.receivePeerEvent (moment seq).env (moment seq).now event).node
    exact ⟨⟨(moment seq).env, (moment seq).now, event⟩ :: calls, by rw [List.map_cons, hcalls], heq⟩

/-! ## The loop -/

/-- What the loop does. -/
structure Healed (peer : String) (sender receiver : Node h) (batches : List (List MeshEvent))
    (sender' receiver' : Node h) : Prop where
  drained : ∃ g, Drains healBatchMaxEvents peer sender.gossip batches g ∧ g.undelivered peer = []
  last : sender'.gossip.undelivered peer = [] ∧ sender' = { sender with gossip := sender'.gossip }
  some : ∀ batch ∈ batches, batch ≠ [] ∧ batch.length ≤ healBatchMaxEvents
  received : ∃ calls : List Call, calls.map Call.event = batches.flatten ∧ receiver' = afterReceptions receiver calls
  count : Steady sender.gossip peer → batches.length =
    ((sender.gossip.undelivered peer).length + (healBatchMaxEvents - 1)) / healBatchMaxEvents

/-- An empty batch ends the loop, -/
theorem drainHeal_last (hb : Bounded sender.gossip) (hnil : (sender.takeHealBatch peer).1 = []) :
    Healed peer sender receiver [] (sender.takeHealBatch peer).2 receiver := by
  obtain ⟨hbatch, hh, hframe⟩ := takeHealBatch_spec hb peer
  have hnone : sender.gossip.undelivered peer = [] := by
    rw [hnil] at hbatch
    rcases List.take_eq_nil_iff.mp hbatch.symm with hzero | hnone
    · cases hzero
    · exact hnone
  refine ⟨⟨_, .start, hnone⟩, ⟨hh.idle hnone, hframe⟩, fun _ hbatch => (nomatch hbatch), ⟨[], rfl, rfl⟩, fun _ => ?_⟩
  rw [hnone]
  rfl

/-- and any other one comes before the rest. -/
theorem Healed.more (hb : Bounded sender.gossip) (hne : (sender.takeHealBatch peer).1 ≠ []) {seq : Nat}
    {batches : List (List MeshEvent)} {sender' receiver' : Node h}
    (hd : Healed peer (sender.takeHealBatch peer).2 (receiver.ingestBatch moment seq (sender.takeHealBatch peer).1)
      batches sender' receiver') :
    Healed peer sender receiver ((sender.takeHealBatch peer).1 :: batches) sender' receiver' := by
  obtain ⟨hbatch, hh, hframe⟩ := takeHealBatch_spec hb peer
  obtain ⟨g, hdrains, hnil⟩ := hd.drained
  refine ⟨⟨g, ?_, hnil⟩, ⟨hd.last.1, ?_⟩, fun batch hmem => ?_, ?_, fun hsteady => ?_⟩
  · rw [hbatch]
    exact .cons hh hdrains
  · have hlast := hd.last.2
    rw [hframe] at hlast
    exact hlast
  · rcases List.mem_cons.mp hmem with rfl | hmem
    · refine ⟨hne, ?_⟩
      rw [hbatch]
      exact List.length_take_le _ _
    · exact hd.some batch hmem
  · obtain ⟨first, hfirst, hreceived⟩ := ingestBatch_eq moment (sender.takeHealBatch peer).1 seq receiver
    obtain ⟨rest, hrest, heq⟩ := hd.received
    refine ⟨first ++ rest, by rw [List.map_append, hfirst, hrest, List.flatten_cons], ?_⟩
    rw [afterReceptions_append, ← hreceived]
    exact heq
  · obtain ⟨hsteady', hleft⟩ := hh.steady hb hsteady
    have hcount := hd.count hsteady'
    have hpos : 0 < (sender.gossip.undelivered peer).length := by
      refine List.length_pos_iff.mpr fun hnone => hne ?_
      rw [hbatch, hnone, List.take_nil]
    rw [List.length_cons, hcount, hleft, List.length_drop]
    unfold healBatchMaxEvents
    omega

/-- **The loop returns**, with any fuel beyond the number of events that are not settled. -/
theorem drainHeal_spec (peer : String) (moment : Nat → Moment) : ∀ (k seq : Nat) (sender receiver : Node h),
    Bounded sender.gossip → unsettled sender.gossip peer ≤ k → ∃ batches sender' receiver',
      Healed peer sender receiver batches sender' receiver' ∧
      ∀ fuel, k < fuel → drainHeal peer moment fuel seq sender receiver = some (batches, sender', receiver') := by
  intro k
  induction k with
  | zero =>
    intro seq sender receiver hb hk
    have hnil : (sender.takeHealBatch peer).1 = [] := by
      by_contra hne
      obtain ⟨hbatch, hh, -⟩ := takeHealBatch_spec hb peer
      have hlt := hh.unsettled_lt hb (hbatch ▸ hne)
      omega
    refine ⟨_, _, _, drainHeal_last hb hnil, fun fuel hfuel => ?_⟩
    obtain ⟨fuel, rfl⟩ : ∃ f, fuel = f + 1 := ⟨fuel - 1, by omega⟩
    rw [drainHeal, if_pos hnil]
  | succ k ih =>
    intro seq sender receiver hb hk
    obtain ⟨hbatch, hh, -⟩ := takeHealBatch_spec hb peer
    by_cases hnil : (sender.takeHealBatch peer).1 = []
    · refine ⟨_, _, _, drainHeal_last hb hnil, fun fuel hfuel => ?_⟩
      obtain ⟨fuel, rfl⟩ : ∃ f, fuel = f + 1 := ⟨fuel - 1, by omega⟩
      rw [drainHeal, if_pos hnil]
    · have hlt := hh.unsettled_lt hb (hbatch ▸ hnil)
      obtain ⟨batches, sender', receiver', hhealed, hrun⟩ := ih (seq + (sender.takeHealBatch peer).1.length)
        (sender.takeHealBatch peer).2 (receiver.ingestBatch moment seq (sender.takeHealBatch peer).1) hh.bounded
        (by omega)
      refine ⟨_, _, _, hhealed.more hb hnil, fun fuel hfuel => ?_⟩
      obtain ⟨fuel, rfl⟩ : ∃ f, fuel = f + 1 := ⟨fuel - 1, by omega⟩
      rw [drainHeal, if_neg hnil, hrun fuel (by omega)]
      rfl

/-- **Catching up returns, hands over everything once, and is no storm.** From every state a run of the gossip reaches,
and for every peer, the loop returns; every batch is bounded; every event that was undelivered is handed over, none
twice, and none that is not in the outbox; the peer receives exactly these, in this order, and afterwards there is
nothing to hand over. If the known set never overflowed, what is handed over is exactly what was undelivered, in order,
in as few batches as its number takes. -/
theorem heal_drain (ops : List DeliveryOp) (sender receiver : Node h)
    (hg : sender.gossip = deliveryRun h.toPrimitives ops) (peer : String) (moment : Nat → Moment) :
    ∃ batches sender' receiver',
      (∀ fuel, sender.gossip.pendingBroadcasts.length < fuel →
        drainHeal peer moment fuel 0 sender receiver = some (batches, sender', receiver')) ∧
      (∀ batch ∈ batches, batch ≠ [] ∧ batch.length ≤ healBatchMaxEvents) ∧
      (batches.flatten.map MeshEvent.id).Nodup ∧
      (∀ e ∈ sender.gossip.undelivered peer, e ∈ batches.flatten) ∧
      (∀ e ∈ batches.flatten, e ∈ sender.gossip.pendingBroadcasts) ∧
      (sender'.takeHealBatch peer).1 = [] ∧ sender' = { sender with gossip := sender'.gossip } ∧
      (∃ calls : List Call, calls.map Call.event = batches.flatten ∧ receiver' = afterReceptions receiver calls) ∧
      (NeverFull h.toPrimitives ops → batches.flatten = sender.gossip.undelivered peer ∧
        batches.length =
          ((sender.gossip.undelivered peer).length + (healBatchMaxEvents - 1)) / healBatchMaxEvents) := by
  have hb : Bounded sender.gossip := hg ▸ bounded_deliveryRun h.toPrimitives ops
  obtain ⟨batches, sender', receiver', hhealed, hrun⟩ := drainHeal_spec peer moment
    sender.gossip.pendingBroadcasts.length 0 sender receiver hb (unsettled_le _ _)
  obtain ⟨g, hdrains, hnil⟩ := hhealed.drained
  have hd := hdrains.spec hb
  refine ⟨batches, sender', receiver', hrun, hhealed.some, hd.once, fun e he => ?_, fun e he => (hd.settled e he).1, ?_,
    hhealed.last.2, hhealed.received, fun hroom => ?_⟩
  · refine (hd.waiting e he).resolve_right fun hwaits => ?_
    rw [hnil] at hwaits
    cases hwaits
  · have hempty : (sender'.gossip.peekPendingForPeer peer healBatchMaxEvents).1 = [] := by
      rw [peekPendingForPeer_fst]
      exact (congrArg (List.take _) hhealed.last.1).trans List.take_nil
    unfold takeHealBatch
    dsimp only
    rw [hempty]
    rfl
  · have hsteady : Steady sender.gossip peer := hg ▸ (steady_run hroom peer).1
    obtain ⟨-, hflat, hrest⟩ := hdrains.steady hb hsteady
    refine ⟨?_, hhealed.count hsteady⟩
    rw [hnil] at hrest
    rw [hflat]
    exact List.take_of_length_le (List.drop_eq_nil_iff.mp hrest.symm)

end Node

/-! ## A node that has taken an alert -/

def alertedNode : Node knownHost :=
  (trustingNode.receivePeerEvent (.still 1700000000) 1700000000 (knownEvent .alert)).node

def alertedOps : List DeliveryOp :=
  [.setMetrics 0, .insert (.addEventWithReputation .sorted 1700000000 (knownEvent .alert) trustingNode.reputation)]

theorem alertedNode_gossip : alertedNode.gossip = (trustingNode.gossip.insertNew .sorted (knownEvent .alert)).2 := by
  refine (Node.receivePeerEvent_spec (.still 1700000000) 1700000000 trustingNode (knownEvent .alert)).registered ?_
    ⟨trusting_valid .alert, Node.accepts_alert (knownEvent_kind .alert)⟩
  rw [trusting_verdict]
  rfl

theorem alertedOps_run : alertedNode.gossip = deliveryRun knownHost.toPrimitives alertedOps := by
  have hadded := addEventWithReputation_of_valid .sorted trustingNode.gossip (trusting_valid .alert)
  have hlast : deliveryRun knownHost.toPrimitives alertedOps = (trustingNode.gossip).after
      (trustingNode.gossip.addEventWithReputation knownHost.toPrimitives .sorted 1700000000 (knownEvent .alert)
        trustingNode.reputation) := deliveryRun_append [.setMetrics 0] _
  rw [alertedNode_gossip, hlast, hadded]
  rfl

/-- It hands the alert over. -/
theorem heal_drain_alert : ∃ batches sender' receiver',
    Node.drainHeal "peer" (fun _ => ⟨.still 1700000000, 1700000000⟩) 2 0 alertedNode strangerNode =
      some (batches, sender', receiver') ∧ knownEvent .alert ∈ batches.flatten := by
  obtain ⟨batches, sender', receiver', hrun, -, -, hall, -⟩ := Node.heal_drain alertedOps alertedNode strangerNode
    alertedOps_run "peer" fun _ => ⟨.still 1700000000, 1700000000⟩
  obtain ⟨-, hp, hd, -⟩ := insertNew_new (g := trustingNode.gossip) .sorted (trusting_new .alert)
  have hpending : alertedNode.gossip.pendingBroadcasts = [knownEvent .alert] := by rw [alertedNode_gossip, hp]; rfl
  refine ⟨batches, sender', receiver', hrun 2 (by rw [hpending]; decide), hall _ (mem_undelivered.mpr ⟨?_, ?_⟩)⟩
  · rw [hpending]
    exact List.mem_singleton_self _
  · rw [alertedNode_gossip, deliveredTo, hd]
    exact List.not_mem_nil

end Onde

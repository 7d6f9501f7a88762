import Onde.Lib.Window
import Onde.Protocol.Gossip

/-!
# Delivery to the peers

A run interleaves insertions with selections for any peers, each of which marks a prefix of what it returned
(`DeliveryOp`). The memory of a peer forgets its oldest ids, but never one of an event that has stayed in the outbox
since it was marked (`remembered_run`). So a selection is what is left to deliver, in outbox order, and returns an
event again only after it has left the outbox (`selection_fifo_complete_once`).
-/

namespace Onde.Protocol

open Onde.Lib Onde.Crypto Onde.Reputation

namespace GossipProtocol

/-- An insertion, or a selection for a peer of which the first `marked` events are marked; the counter may be hooked
at any time. -/
inductive DeliveryOp where
  | setMetrics (counter : Nat)
  | insert (op : InsertOp)
  | getPendingForPeer (peerId : String)
  | peekAndMark (peerId : String) (max marked : Nat)

/-- The ids of a selection. -/
def selectedIds (g : GossipProtocol) (peerId : String) (max : Nat) : List String :=
  (g.peekPendingForPeer peerId max).1.map MeshEvent.id

def DeliveryOp.apply (c : Primitives) (g : GossipProtocol) : DeliveryOp → GossipProtocol
  | .setMetrics counter => g.setMetrics counter
  | .insert op => op.apply c g
  | .getPendingForPeer peerId => (g.getPendingForPeer peerId).2
  | .peekAndMark peerId max marked =>
    (g.peekPendingForPeer peerId max).2.markDeliveredToPeer peerId ((g.selectedIds peerId max).take marked)

/-- The ids an operation marks for a peer. -/
def DeliveryOp.marks (g : GossipProtocol) (peer : String) : DeliveryOp → List String
  | .setMetrics _ => []
  | .insert _ => []
  | .getPendingForPeer peerId => if peerId = peer then g.selectedIds peerId usizeMax else []
  | .peekAndMark peerId max marked => if peerId = peer then (g.selectedIds peerId max).take marked else []

/-- The state after a run. -/
def deliveryRun (c : Primitives) (ops : List DeliveryOp) : GossipProtocol := ops.foldl (DeliveryOp.apply c) new

/-- The events of the outbox not in the memory of the peer. -/
def undelivered (g : GossipProtocol) (peer : String) : List MeshEvent :=
  g.pendingBroadcasts.filter fun e => e.id ∉ g.deliveredTo peer

variable {c : Primitives} {g : GossipProtocol} {peer id : String}

/-! ## One operation -/

theorem deliveryRun_append (ops : List DeliveryOp) (op : DeliveryOp) :
    deliveryRun c (ops ++ [op]) = op.apply c (deliveryRun c ops) := by
  rw [deliveryRun, List.foldl_append]
  rfl

theorem Bounded.deliver (h : Bounded g) (op : DeliveryOp) : Bounded (op.apply c g) := by
  cases op with
  | setMetrics counter => exact h.setMetrics counter
  | insert op => exact h.insert op
  | getPendingForPeer peerId => exact (h.peek peerId usizeMax).mark peerId _
  | peekAndMark peerId max marked => exact (h.peek peerId max).mark peerId _

theorem bounded_deliveryRun (c : Primitives) (ops : List DeliveryOp) : Bounded (deliveryRun c ops) := by
  induction ops using List.reverseRecOn with
  | nil => exact bounded_new
  | append_singleton ops op ih =>
    rw [deliveryRun_append]
    exact ih.deliver op

/-- Peeking and marking a list of ids. -/
theorem peekAndMark_spec (g : GossipProtocol) (peer peerId : String) (max : Nat) (ids : List String) :
    ((g.peekPendingForPeer peerId max).2.markDeliveredToPeer peerId ids).outboxIds = g.outboxIds ∧
    ((g.peekPendingForPeer peerId max).2.markDeliveredToPeer peerId ids).deliveredTo peer =
      (if peerId = peer then ids else []).foldl (pushBounded maxDeliveredPerPeer) (g.deliveredTo peer) := by
  obtain ⟨hp, _, hd⟩ := peekPendingForPeer_snd g peerId max
  obtain ⟨hp', _, hd'⟩ := markDeliveredToPeer_frame (g.peekPendingForPeer peerId max).2 peerId ids
  refine ⟨by rw [outboxIds, hp', hp, outboxIds], ?_⟩
  by_cases h : peerId = peer
  · subst h
    rw [if_pos rfl, markDeliveredToPeer_self, hd]
  · rw [if_neg h, hd' peer (fun he => h he.symm), hd]
    rfl

/-- **What an operation does to a peer**: it pushes an event on the outbox, or it marks ids of the outbox that the
peer's memory lacks; nothing else changes. -/
theorem DeliveryOp.spec (c : Primitives) (g : GossipProtocol) (peer : String) (op : DeliveryOp) :
    (op.apply c g).deliveredTo peer = (op.marks g peer).foldl (pushBounded maxDeliveredPerPeer) (g.deliveredTo peer) ∧
    ((∃ id, id ∉ g.knownEvents ∧ (op.apply c g).outboxIds = pushBounded maxPendingBroadcasts g.outboxIds id ∧
        op.marks g peer = []) ∨
      ((op.apply c g).outboxIds = g.outboxIds ∧
        (op.marks g peer).Sublist (g.outboxIds.filter (· ∉ g.deliveredTo peer)))) := by
  have hsel : ∀ max, (g.selectedIds peer max).Sublist (g.outboxIds.filter (· ∉ g.deliveredTo peer)) := fun max => by
    rw [selectedIds, peekPendingForPeer_fst, outboxIds, List.filter_map]
    exact (List.take_sublist _ _).map _
  cases op with
  | setMetrics counter => exact ⟨rfl, Or.inr ⟨rfl, List.nil_sublist _⟩⟩
  | insert op =>
    rcases insertOp_cases c g op with he | ⟨ord, event, he⟩
    · exact ⟨by rw [apply, he]; rfl, Or.inr ⟨by rw [apply, he], List.nil_sublist _⟩⟩
    · by_cases hk : event.id ∈ g.knownEvents
      · rw [insertNew_known hk] at he
        exact ⟨by rw [apply, he]; rfl, Or.inr ⟨by rw [apply, he], List.nil_sublist _⟩⟩
      · obtain ⟨_, hp, hd, _⟩ := insertNew_new ord hk
        refine ⟨by rw [apply, he, deliveredTo, hd]; rfl, Or.inl ⟨event.id, hk, ?_, rfl⟩⟩
        rw [apply, he, outboxIds, hp, map_pushBounded, outboxIds]
  | getPendingForPeer peerId =>
    obtain ⟨hp, hd⟩ := peekAndMark_spec g peer peerId usizeMax (g.selectedIds peerId usizeMax)
    refine ⟨hd, Or.inr ⟨hp, ?_⟩⟩
    by_cases h : peerId = peer
    · subst h
      rw [marks, if_pos rfl]
      exact hsel _
    · rw [marks, if_neg h]
      exact List.nil_sublist _
  | peekAndMark peerId max marked =>
    obtain ⟨hp, hd⟩ := peekAndMark_spec g peer peerId max ((g.selectedIds peerId max).take marked)
    refine ⟨hd, Or.inr ⟨hp, ?_⟩⟩
    by_cases h : peerId = peer
    · subst h
      rw [marks, if_pos rfl]
      exact (List.take_sublist _ _).trans (hsel _)
    · rw [marks, if_neg h]
      exact List.nil_sublist _

/-- A selection without a limit is all that is undelivered. -/
theorem getPendingForPeer_fst (h : Bounded g) (peer : String) : (g.getPendingForPeer peer).1 = g.undelivered peer := by
  have hlen : (g.undelivered peer).length ≤ usizeMax :=
    (List.length_filter_le _ _).trans (h.pending_le.trans (by simp [maxPendingBroadcasts, usizeMax]))
  exact (peekPendingForPeer_fst peer usizeMax).trans (List.take_of_length_le hlen)

/-! ## Runs -/

/-- The counting condition of the two capacities. -/
theorem memory_covers_outbox : 2 * maxPendingBroadcasts ≤ maxDeliveredPerPeer + 1 := by
  simp [maxPendingBroadcasts, maxDeliveredPerPeer]

/-- A marked event is remembered. -/
theorem remembered_marks (h : Bounded g) (op : DeliveryOp) (hid : id ∈ op.marks g peer) :
    Remembered maxPendingBroadcasts id (op.apply c g).outboxIds ((op.apply c g).deliveredTo peer) := by
  obtain ⟨hd, ⟨_, _, _, hnil⟩ | ⟨ho, hs⟩⟩ := op.spec c g peer
  · rw [hnil] at hid
    exact absurd hid List.not_mem_nil
  · have hsub := hs.trans (List.filter_sublist (l := g.outboxIds))
    rw [hd, ho]
    exact remembered_of_marked memory_covers_outbox h.nodup (by rw [outboxIds, List.length_map]; exact h.pending_le)
      (h.delivered_le peer) (h.nodup.sublist hsub) (fun y hy => hsub.subset hy) hid

/-- **One operation keeps an event remembered**, unless it pushes it out of the outbox. -/
theorem Remembered.deliver (h : Bounded g) (hr : Remembered maxPendingBroadcasts id g.outboxIds (g.deliveredTo peer))
    (op : DeliveryOp) (hin : id ∈ (op.apply c g).outboxIds) :
    Remembered maxPendingBroadcasts id (op.apply c g).outboxIds ((op.apply c g).deliveredTo peer) := by
  have hlen : g.outboxIds.length ≤ maxPendingBroadcasts := by rw [outboxIds, List.length_map]; exact h.pending_le
  obtain ⟨hd, ⟨new, hk, ho, hnil⟩ | ⟨ho, hs⟩⟩ := op.spec c g peer
  · rw [hd, hnil]
    rw [ho] at hin ⊢
    exact hr.push h.nodup hlen (fun hmem => hk (h.known _ hmem)) hin
  · rw [hd, ho]
    have hsub := hs.trans (List.filter_sublist (l := g.outboxIds))
    refine hr.mark memory_covers_outbox h.nodup hlen (h.delivered_le peer) (h.nodup.sublist hsub)
      (fun y hy => hsub.subset hy) fun y hy => ?_
    simpa using (List.mem_filter.mp (hs.subset hy)).2

/-- **A marked event is remembered as long as it stays in the outbox.** -/
theorem remembered_run {pre : List DeliveryOp} {op : DeliveryOp} (hid : id ∈ op.marks (deliveryRun c pre) peer)
    (post : List DeliveryOp)
    (hstay : ∀ mid, mid <+: post → id ∈ (deliveryRun c (pre ++ op :: mid)).outboxIds) :
    Remembered maxPendingBroadcasts id (deliveryRun c (pre ++ op :: post)).outboxIds
      ((deliveryRun c (pre ++ op :: post)).deliveredTo peer) := by
  induction post using List.reverseRecOn with
  | nil =>
    rw [deliveryRun_append]
    exact remembered_marks (bounded_deliveryRun c pre) op hid
  | append_singleton post op' ih =>
    have hr := ih fun mid hmid => hstay mid (hmid.trans (List.prefix_append _ _))
    have hin := hstay (post ++ [op']) (List.prefix_refl _)
    rw [← List.cons_append, ← List.append_assoc, deliveryRun_append] at hin ⊢
    exact Remembered.deliver (bounded_deliveryRun c _) hr op' hin

/-- What the memory holds was marked by an operation of the run. -/
theorem marked_of_deliveredTo (ops : List DeliveryOp) (hid : id ∈ (deliveryRun c ops).deliveredTo peer) :
    ∃ pre op post, ops = pre ++ op :: post ∧ id ∈ op.marks (deliveryRun c pre) peer := by
  induction ops using List.reverseRecOn with
  | nil => exact absurd hid List.not_mem_nil
  | append_singleton ops op ih =>
    rw [deliveryRun_append, (op.spec c _ peer).1] at hid
    by_cases hm : id ∈ op.marks (deliveryRun c ops) peer
    · exact ⟨ops, op, [], rfl, hm⟩
    · have hold : id ∈ (deliveryRun c ops).deliveredTo peer := mem_of_mem_foldl_pushBounded hid hm
      obtain ⟨pre, op', post, rfl, h⟩ := ih hold
      exact ⟨pre, op', post ++ [op], by simp, h⟩

/-- **Delivery to a peer is in outbox order, complete and at most once per stay.** After any run, a selection is the
list of what is left to deliver, cut at `max`; it holds every event never marked for the peer, and an event that was
marked only if it has left the outbox since. -/
theorem selection_fifo_complete_once (c : Primitives) (ops : List DeliveryOp) (peer : String) :
    ∃ left : List MeshEvent, left.Sublist (deliveryRun c ops).pendingBroadcasts ∧
      (∀ max, ((deliveryRun c ops).peekPendingForPeer peer max).1 = left.take max) ∧
      ((deliveryRun c ops).getPendingForPeer peer).1 = left ∧
      (∀ e ∈ (deliveryRun c ops).pendingBroadcasts,
        (∀ pre op post, ops = pre ++ op :: post → e.id ∉ op.marks (deliveryRun c pre) peer) → e ∈ left) ∧
      (∀ e ∈ left, ∀ pre op post, ops = pre ++ op :: post → e.id ∈ op.marks (deliveryRun c pre) peer →
        ∃ mid, mid <+: post ∧ e.id ∉ (deliveryRun c (pre ++ op :: mid)).outboxIds) := by
  have hpeek : ∀ max, ((deliveryRun c ops).peekPendingForPeer peer max).1 =
      ((deliveryRun c ops).undelivered peer).take max := fun max => peekPendingForPeer_fst peer max
  refine ⟨(deliveryRun c ops).undelivered peer, List.filter_sublist, hpeek, ?_, fun e he hnever => ?_,
    fun e he pre op post hops hmarked => ?_⟩
  · exact getPendingForPeer_fst (bounded_deliveryRun c ops) peer
  · refine List.mem_filter.mpr ⟨he, decide_eq_true fun hd => ?_⟩
    obtain ⟨pre, op, post, hops, hmarked⟩ := marked_of_deliveredTo ops hd
    exact hnever pre op post hops hmarked
  · by_contra hstay
    have hstay' : ∀ mid, mid <+: post → e.id ∈ (deliveryRun c (pre ++ op :: mid)).outboxIds := fun mid hmid => by
      by_contra hout
      exact hstay ⟨mid, hmid, hout⟩
    have hmem := (remembered_run hmarked post hstay').mem
    rw [← hops] at hmem
    exact of_decide_eq_true (List.mem_filter.mp he).2 hmem

end GossipProtocol

end Onde.Protocol

import Onde.Network.Mesh

/-!
# Does an event flood the mesh?

A node forwards what is new to it to all its peers, and the mesh has cycles.

* `Flows`: what a node queued to a peer is known to it, and remembered as delivered as long as it is in the outbox;
* `flows_step`: a step keeps that as long as no known set overflows;
* `flood_bounded`: over every run with at most as many events as a known set holds, each node queues each event to each
  peer once at most.
-/

namespace Onde.Network

open Onde.Lib Onde.Crypto Onde.Reputation Onde.Protocol Onde.Protocol.GossipProtocol

variable {h : Host} {ι : Type}

namespace Mesh

/-- What a node queued to a peer: it still knows each event, remembers it as delivered as long as it is in the outbox,
and queued it once. -/
structure Flows (m : Mesh h ι) (i : ι) (p : String) : Prop where
  known : ∀ e ∈ m.queued i p, e.id ∈ (m.node i).gossip.knownEvents
  remembered : ∀ e ∈ m.queued i p, e.id ∈ (m.node i).gossip.outboxIds →
    Remembered maxPendingBroadcasts e.id (m.node i).gossip.outboxIds ((m.node i).gossip.deliveredTo p)
  nodup : ((m.queued i p).map MeshEvent.id).Nodup

/-- The gossip state of a node is within its bounds, and it knows nothing but ids of `ids`. -/
structure Confined (ids : Finset String) (m : Mesh h ι) : Prop where
  bounded : ∀ i, Bounded (m.node i).gossip
  known : ∀ i, (m.node i).gossip.knownEvents ⊆ ids
  flows : ∀ i p, Flows m i p

/-- At most the ids of `ids` are those of events that a validator lets pass. -/
def Within (ids : Finset String) (m : Mesh h ι) : Prop :=
  ∀ e ∈ m.sources, Admitted h.toPrimitives e → e.id ∈ ids

variable {m₀ m m' : Mesh h ι} {i : ι} {p : String} {ids : Finset String}

theorem Fresh.confined (h₀ : m₀.Fresh) (ids : Finset String) : Confined ids m₀ := by
  refine ⟨fun i => ?_, fun i => ?_, fun i p => ⟨?_, ?_, ?_⟩⟩
  · rw [h₀.gossip]
    exact bounded_new.setMetrics 0
  · rw [h₀.gossip]
    exact Finset.empty_subset ids
  · rw [h₀.queued]
    exact fun e he => nomatch he
  · rw [h₀.queued]
    exact fun e he => nomatch he
  · rw [h₀.queued]
    exact List.nodup_nil

/-! ## An event that is inserted -/

/-- With room in the known set nothing is forgotten. -/
theorem knownEvents_insertNew {g : GossipProtocol} {e : MeshEvent} (order : HashOrder) (hknown : g.knownEvents ⊆ ids)
    (he : e.id ∈ ids) (hcard : ids.card ≤ maxKnownEvents) :
    g.knownEvents ⊆ (g.insertNew order e).2.knownEvents ∧ (g.insertNew order e).2.knownEvents ⊆ ids := by
  by_cases hk : e.id ∈ g.knownEvents
  · rw [insertNew_known hk]
    exact ⟨Finset.Subset.refl _, hknown⟩
  · obtain ⟨-, -, -, hsub, -⟩ := insertNew_new (g := g) order hk
    have hroom : g.knownEvents.card < maxKnownEvents := by
      have hle := Finset.card_le_card (Finset.insert_subset he hknown)
      rw [Finset.card_insert_of_notMem hk] at hle
      omega
    exact ⟨fun id hid => mem_insertNew hroom (.inr hid), hsub.trans (Finset.insert_subset he hknown)⟩

/-- An event that is inserted leaves what was queued as it was. -/
theorem Flows.inserts (hf : Flows m i p) (hb : Bounded (m.node i).gossip) {e : MeshEvent} {order : HashOrder}
    (hkeep : (m.node i).gossip.knownEvents ⊆ ((m.node i).gossip.insertNew order e).2.knownEvents)
    (hg : (m'.node i).gossip = ((m.node i).gossip.insertNew order e).2) (hq : m'.queued i = m.queued i) :
    Flows m' i p := by
  by_cases hk : e.id ∈ (m.node i).gossip.knownEvents
  · rw [insertNew_known hk] at hg
    exact ⟨by rw [hg, hq]; exact hf.known, by rw [hg, hq]; exact hf.remembered, by rw [hq]; exact hf.nodup⟩
  · obtain ⟨-, hp, hd, -⟩ := insertNew_new (g := (m.node i).gossip) order hk
    have hout : (m'.node i).gossip.outboxIds =
        pushBounded maxPendingBroadcasts (m.node i).gossip.outboxIds e.id := by
      rw [hg, outboxIds, hp, map_pushBounded, outboxIds]
    have hdelivered : (m'.node i).gossip.deliveredTo p = (m.node i).gossip.deliveredTo p := by
      rw [hg, deliveredTo, hd, deliveredTo]
    have hlen : (m.node i).gossip.outboxIds.length ≤ maxPendingBroadcasts := by
      rw [outboxIds, List.length_map]
      exact hb.pending_le
    refine ⟨fun x hx => ?_, fun x hx hin => ?_, by rw [hq]; exact hf.nodup⟩
    · rw [hq] at hx
      rw [hg]
      exact hkeep (hf.known x hx)
    · rw [hq] at hx
      rw [hout] at hin ⊢
      rw [hdelivered]
      -- what was queued is known, so it is another event
      have hold : x.id ∈ (m.node i).gossip.outboxIds := (mem_pushBounded hin).resolve_right fun heq =>
        hk (heq ▸ hf.known x hx)
      exact (hf.remembered x hx hold).push hb.nodup hlen (fun hmem => hk (hb.known _ hmem)) hin

/-! ## A pass of the pump -/

theorem framed_sublist (batch : List MeshEvent) : (framed batch).Sublist (sent batch) := List.filter_sublist

/-- A pass queues what was not queued before. -/
theorem Flows.flushes (hf : Flows m i p) (hb : Bounded (m.node i).gossip) {s : Pump}
    (hs : Served (m.transport i).peerKeys ⟨0, (m.node i).gossip, m.transport i⟩ s) (hg : (m'.node i).gossip = s.gossip)
    (hq : ∀ p, m'.queued i p = m.queued i p ++
      if p ∈ (m.transport i).peerKeys then framed (batchOf (m.node i).gossip p) else []) : Flows m' i p := by
  have hknown : (m'.node i).gossip.knownEvents = (m.node i).gossip.knownEvents := by rw [hg, hs.known]
  have hout : (m'.node i).gossip.outboxIds = (m.node i).gossip.outboxIds := by
    rw [hg, outboxIds, hs.pending, outboxIds]
  have hdelivered := hs.delivered p
  have hqueued := hq p
  by_cases hkey : p ∈ (m.transport i).peerKeys
  · rw [if_pos hkey, ← hg] at hdelivered
    rw [if_pos hkey] at hqueued
    have hbatch : (sent (batchOf (m.node i).gossip p)).Sublist ((m.node i).gossip.undelivered p) :=
      (sent_initial _ p).sublist
    have hmarks : ((sent (batchOf (m.node i).gossip p)).map MeshEvent.id).Sublist (m.node i).gossip.outboxIds :=
      (hbatch.trans (undelivered_sublist _ p)).map _
    have hnew : ∀ id ∈ (sent (batchOf (m.node i).gossip p)).map MeshEvent.id, id ∉ (m.node i).gossip.deliveredTo p := by
      intro id hid
      obtain ⟨e, he, rfl⟩ := List.mem_map.mp hid
      exact not_delivered (hbatch.subset he)
    obtain ⟨hkeep, hgain⟩ := settled_succ hb hmarks hnew hout hdelivered
    have hframed : ∀ e ∈ framed (batchOf (m.node i).gossip p),
        e.id ∈ (sent (batchOf (m.node i).gossip p)).map MeshEvent.id := fun e he =>
      List.mem_map_of_mem ((framed_sublist _).subset he)
    refine ⟨fun e he => ?_, fun e he hin => ?_, ?_⟩
    · rw [hknown]
      rw [hqueued] at he
      rcases List.mem_append.mp he with hold | hmore
      · exact hf.known e hold
      · exact hb.known _ (hmarks.subset (hframed e hmore))
    · rw [hqueued] at he
      rcases List.mem_append.mp he with hold | hmore
      · rw [hout] at hin
        exact (mem_settled.mp (hkeep (mem_settled.mpr ⟨hin, hf.remembered e hold hin⟩))).2
      · exact (mem_settled.mp (hgain _ (hframed e hmore)).1).2
    · rw [hqueued, List.map_append]
      refine List.Nodup.append hf.nodup ((hb.nodup.sublist hmarks).sublist ((framed_sublist _).map _)) ?_
      intro id hold hmore
      obtain ⟨e, he, rfl⟩ := List.mem_map.mp hold
      obtain ⟨e', he', hid⟩ := List.mem_map.mp hmore
      -- what was queued and is in the outbox is remembered, so no batch holds it
      have hin := hframed e' he'
      rw [hid] at hin
      exact hnew _ hin (hf.remembered e he (hmarks.subset hin)).mem
  · rw [if_neg hkey, ← hg] at hdelivered
    rw [if_neg hkey, List.append_nil] at hqueued
    refine ⟨?_, ?_, ?_⟩
    · rw [hqueued, hknown]
      exact hf.known
    · rw [hqueued, hout, hdelivered]
      exact hf.remembered
    · rw [hqueued]
      exact hf.nodup

/-! ## Runs -/

/-- **A step keeps all that**, as long as no known set overflows. -/
theorem Confined.step (hc : Confined ids m) (hm : Sourced m) (hs : StepSpec m m') (hids : Within ids m')
    (hcard : ids.card ≤ maxKnownEvents) : Confined ids m' := by
  have hmove : ∀ j, Bounded (m'.node j).gossip ∧ (m'.node j).gossip.knownEvents ⊆ ids ∧ ∀ p, Flows m' j p := by
    intro j
    have hb := hc.bounded j
    rcases hs.move j with ⟨hg, hq⟩ | ⟨e, order, ha, horigin, hg, hq⟩ | ⟨s, hserved, hg, hq⟩
    · refine ⟨hg ▸ hb, hg ▸ hc.known j, fun p => ⟨?_, ?_, ?_⟩⟩
      · rw [hg, hq]
        exact (hc.flows j p).known
      · rw [hg, hq]
        exact (hc.flows j p).remembered
      · rw [hq]
        exact (hc.flows j p).nodup
    · obtain ⟨hkeep, hknown⟩ := knownEvents_insertNew order (hc.known j)
        (hids e (hm.origin hs horigin) ha) hcard
      exact ⟨hg ▸ hb.insertNew, hg ▸ hknown, fun p => (hc.flows j p).inserts hb hkeep hg hq⟩
    · refine ⟨hg ▸ hserved.bounded hb, ?_, fun p => (hc.flows j p).flushes hb hserved hg hq⟩
      rw [hg, hserved.known]
      exact hc.known j
  exact ⟨fun j => (hmove j).1, fun j => (hmove j).2.1, fun j p => (hmove j).2.2 p⟩

variable [DecidableEq ι]

theorem confined_run (h₀ : m₀.Fresh) (hr : Reaches m₀ m) (hids : Within ids m) (hcard : ids.card ≤ maxKnownEvents) :
    Confined ids m := by
  induction hr with
  | refl => exact h₀.confined ids
  | @tail b c hrun hstep ih =>
    have hspec := hstep.spec
    exact (ih fun e he => hids e (hspec.sources he)).step (sourced_run h₀ hrun) hspec hids hcard

/-- **No event floods the mesh.** Over every run of the mesh, whatever its cycles, with every repetition on the wire and
everything strangers write: if the events that a validator lets pass have at most as many ids as a known set holds, each
node queues each event to each peer once at most, and to each peer no more frames than there are ids. -/
theorem flood_bounded (h₀ : m₀.Fresh) (hr : Reaches m₀ m) (hids : Within ids m) (hcard : ids.card ≤ maxKnownEvents)
    (i : ι) (p : String) : ((m.queued i p).map MeshEvent.id).Nodup ∧ (m.queued i p).length ≤ ids.card := by
  have hc := confined_run h₀ hr hids hcard
  have hnodup := (hc.flows i p).nodup
  refine ⟨hnodup, ?_⟩
  have hsub : ((m.queued i p).map MeshEvent.id).toFinset ⊆ ids := by
    intro id hid
    obtain ⟨e, he, rfl⟩ := List.mem_map.mp (List.mem_toFinset.mp hid)
    exact hc.known i ((hc.flows i p).known e he)
  have hle := Finset.card_le_card hsub
  rwa [List.toFinset_card_of_nodup hnodup, List.length_map] at hle

/-- The alert and what a stranger made of it have one id: the author and its peer queue it, each once. -/
theorem flood_bounded_alert : ∃ m : Mesh knownHost Bool, Reaches pairMesh m ∧
    m.queued true "peer" = [knownEvent .alert] ∧ m.queued false "peer" = [alteredAlert] ∧
    ∀ i, ((m.queued i "peer").map MeshEvent.id).Nodup ∧ (m.queued i "peer").length ≤ 1 := by
  obtain ⟨m, hr, hsigned, hforeign, -, hauthor, hpeer⟩ := pairMesh_relayed
  have hids : Within {(knownEvent .alert).id} m := by
    intro e he _
    rw [sources, hsigned, hforeign] at he
    rcases List.mem_cons.mp he with rfl | he
    · exact Finset.mem_singleton_self _
    · obtain rfl := List.mem_singleton.mp he
      exact Finset.mem_singleton_self _
  refine ⟨m, hr, hauthor, hpeer, fun i => ?_⟩
  obtain ⟨hnodup, hle⟩ := flood_bounded pairMesh_fresh hr hids (by rw [Finset.card_singleton]; decide) i "peer"
  exact ⟨hnodup, by rwa [Finset.card_singleton] at hle⟩

end Mesh

end Onde.Network

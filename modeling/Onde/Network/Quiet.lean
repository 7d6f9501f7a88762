import Onde.Lib.Run
import Onde.Network.Exchange
import Onde.Network.Flood

/-!
# When the mesh is quiet

Once an event has been flushed and heard along the links, who holds it?

* `Hears`: a frame of the wire reaches a node; `LetsIn`: the node lets the event in that it decodes to;
* `Holds`: a node holds what it knows, and an event that is marked for a peer was queued to it;
* `Quiet`: a link is done with an event;
* `mesh_converges`: at the end of every run without overflow, an event that a node holds or has signed is held wherever
  links lead that are done with it.
-/

namespace Onde.Network

open Onde.Lib Onde.Crypto Onde.Reputation Onde.Protocol Onde.Protocol.GossipProtocol

variable {h : Host} {ι : Type}

namespace Mesh

/-! ## What a node holds -/

/-- Each known event is in the outbox, what is marked for a peer is known, and it was queued to the peer. -/
structure Holds (m : Mesh h ι) (i : ι) (p : String) : Prop where
  held : ∀ id ∈ (m.node i).gossip.knownEvents, id ∈ (m.node i).gossip.outboxIds
  marked : ∀ id ∈ (m.node i).gossip.deliveredTo p, id ∈ (m.node i).gossip.knownEvents
  queued : ∀ e ∈ (m.node i).gossip.pendingBroadcasts, e.id ∈ (m.node i).gossip.deliveredTo p → e ∈ m.queued i p

variable {m₀ m m' : Mesh h ι} {i j : ι} {p : String} {ids : Finset String}

theorem Fresh.holds (h₀ : m₀.Fresh) (i : ι) (p : String) : Holds m₀ i p := by
  refine ⟨?_, ?_, ?_⟩
  all_goals rw [h₀.gossip]
  · exact fun id hid => nomatch hid
  · exact fun id hid => nomatch hid
  · exact fun e he => nomatch he

/-- With room for all ids the outbox loses nothing. -/
theorem pending_insertNew {g : GossipProtocol} {e : MeshEvent} (order : HashOrder) (hb : Bounded g)
    (hknown : g.knownEvents ⊆ ids) (he : e.id ∈ ids) (hcard : ids.card ≤ maxPendingBroadcasts)
    (hk : e.id ∉ g.knownEvents) :
    (g.insertNew order e).2.pendingBroadcasts = g.pendingBroadcasts ++ [e] := by
  rw [(insertNew_new order hk).2.1]
  refine pushBounded_room ?_ e
  have hsub : g.outboxIds.toFinset ⊆ g.knownEvents := fun id hid => hb.known id (List.mem_toFinset.mp hid)
  have hlen := Finset.card_le_card hsub
  rw [List.toFinset_card_of_nodup hb.nodup, outboxIds, List.length_map] at hlen
  have hle := Finset.card_le_card (Finset.insert_subset he hknown)
  rw [Finset.card_insert_of_notMem hk] at hle
  omega

/-- An event that is inserted is held, and marked for nobody. -/
theorem Holds.inserts (hh : Holds m i p) (hb : Bounded (m.node i).gossip) (hknown : (m.node i).gossip.knownEvents ⊆ ids)
    {e : MeshEvent} {order : HashOrder} (he : e.id ∈ ids) (hcard : ids.card ≤ maxPendingBroadcasts)
    (hg : (m'.node i).gossip = ((m.node i).gossip.insertNew order e).2) (hq : m'.queued i = m.queued i) :
    Holds m' i p := by
  by_cases hk : e.id ∈ (m.node i).gossip.knownEvents
  · rw [insertNew_known hk] at hg
    exact ⟨by rw [hg]; exact hh.held, by rw [hg]; exact hh.marked, by rw [hg, hq]; exact hh.queued⟩
  · obtain ⟨-, -, hd, hsub, -⟩ := insertNew_new (g := (m.node i).gossip) order hk
    have hpending := pending_insertNew order hb hknown he hcard hk
    have hkeep := (knownEvents_insertNew order hknown he (hcard.trans (by decide))).1
    have hdelivered : (m'.node i).gossip.deliveredTo p = (m.node i).gossip.deliveredTo p := by
      rw [hg, deliveredTo, hd, deliveredTo]
    have hout : (m'.node i).gossip.outboxIds = (m.node i).gossip.outboxIds ++ [e.id] := by
      rw [hg, outboxIds, hpending, List.map_append, outboxIds, List.map_singleton]
    refine ⟨fun id hid => ?_, fun id hid => ?_, fun x hx hmarked => ?_⟩
    · rw [hg] at hid
      rw [hout, List.mem_append, List.mem_singleton]
      exact (Finset.mem_insert.mp (hsub hid)).symm.imp_left (hh.held id)
    · rw [hdelivered] at hid
      rw [hg]
      exact hkeep (hh.marked id hid)
    · rw [hdelivered] at hmarked
      rw [hg, hpending] at hx
      rw [hq]
      rcases List.mem_append.mp hx with hold | hnew
      · exact hh.queued x hold hmarked
      · -- what is marked is known, so it is not the new event
        rw [List.mem_singleton.mp hnew] at hmarked
        exact absurd (hh.marked _ hmarked) hk

/-- What was let in is encoded, so it is queued if it is sent. -/
theorem framed_of_sent {e : MeshEvent} {batch : List MeshEvent} (ha : Admitted h.toPrimitives e) (he : e ∈ sent batch) :
    e ∈ framed batch := by
  obtain ⟨clock, floor, hvalid⟩ := ha
  obtain ⟨w, hw⟩ := toWireBytes_of_valid hvalid
  have hnot : ¬Oversize e := by
    rw [← oversize_iff]
    simpa using List.mem_takeWhile_imp he
  have hfits : Fits e := ⟨w, hw, Nat.not_lt.mp fun hlt => hnot ⟨w, hw, hlt⟩⟩
  obtain ⟨w', hframe⟩ := fits_iff.mp hfits
  exact List.mem_filter.mpr ⟨he, by rw [hframe]; rfl⟩

/-- A pass queues what it marks. -/
theorem Holds.flushes (hh : Holds m i p) (hb : Bounded (m.node i).gossip)
    (hadmitted : ∀ e ∈ (m.node i).gossip.pendingBroadcasts, Admitted h.toPrimitives e) {s : Pump}
    (hs : Served (m.transport i).peerKeys ⟨0, (m.node i).gossip, m.transport i⟩ s) (hg : (m'.node i).gossip = s.gossip)
    (hq : ∀ p, m'.queued i p = m.queued i p ++
      if p ∈ (m.transport i).peerKeys then framed (batchOf (m.node i).gossip p) else []) : Holds m' i p := by
  have hknown : (m'.node i).gossip.knownEvents = (m.node i).gossip.knownEvents := by rw [hg, hs.known]
  have hpending : (m'.node i).gossip.pendingBroadcasts = (m.node i).gossip.pendingBroadcasts := by rw [hg, hs.pending]
  have hdelivered := hs.delivered p
  rw [← hg] at hdelivered
  have hsub : ∀ e ∈ sent (batchOf (m.node i).gossip p), e ∈ (m.node i).gossip.pendingBroadcasts := fun e he =>
    (undelivered_sublist _ p).subset ((sent_initial _ p).subset he)
  refine ⟨fun id hid => ?_, fun id hid => ?_, fun e he hmarked => ?_⟩
  · rw [hknown] at hid
    rw [outboxIds, hpending]
    exact hh.held id hid
  · rw [hknown]
    rw [hdelivered] at hid
    split at hid
    · by_cases hnew : id ∈ (sent (batchOf (m.node i).gossip p)).map MeshEvent.id
      · obtain ⟨e, he, rfl⟩ := List.mem_map.mp hnew
        exact hb.known _ (List.mem_map_of_mem (hsub e he))
      · exact hh.marked id (mem_of_mem_foldl_pushBounded hid hnew)
    · exact hh.marked id hid
  · rw [hpending] at he
    rw [hq p]
    rw [hdelivered] at hmarked
    split at hmarked
    · next hkey =>
      rw [if_pos hkey]
      by_cases hnew : e ∈ sent (batchOf (m.node i).gossip p)
      · exact List.mem_append_right _ (framed_of_sent (hadmitted e he) hnew)
      · refine List.mem_append_left _ (hh.queued e he ?_)
        exact mem_of_mem_foldl_pushBounded hmarked fun hid => hnew ((mem_sent_iff hb.nodup he).mp hid)
    · exact List.mem_append_left _ (hh.queued e he hmarked)

/-! ## Steps -/

/-- What a node knows it knows after a step. -/
theorem known_step (hc : Confined ids m) (hm : Sourced m) (hs : StepSpec m m') (hids : Within ids m')
    (hcard : ids.card ≤ maxPendingBroadcasts) (i : ι) :
    (m.node i).gossip.knownEvents ⊆ (m'.node i).gossip.knownEvents := by
  rcases hs.move i with ⟨hg, -⟩ | ⟨e, order, ha, horigin, hg, -⟩ | ⟨s, hserved, hg, -⟩
  · rw [hg]
  · rw [hg]
    exact (knownEvents_insertNew order (hc.known i) (hids e (hm.origin hs horigin) ha) (hcard.trans (by decide))).1
  · rw [hg, hserved.known]

/-- A step leaves all that as it is, as long as no outbox overflows. -/
theorem Holds.step (hh : Holds m i p) (hc : Confined ids m) (hm : Sourced m) (hs : StepSpec m m')
    (hids : Within ids m') (hcard : ids.card ≤ maxPendingBroadcasts) : Holds m' i p := by
  rcases hs.move i with ⟨hg, hq⟩ | ⟨e, order, ha, horigin, hg, hq⟩ | ⟨s, hserved, hg, hq⟩
  · exact ⟨by rw [hg]; exact hh.held, by rw [hg]; exact hh.marked, by rw [hg, hq]; exact hh.queued⟩
  · exact hh.inserts (hc.bounded i) (hc.known i) (hids e (hm.origin hs horigin) ha) hcard hg hq
  · exact hh.flushes (hc.bounded i) (fun e he => (hm.outbox i e he).2) hserved hg hq

/-! ## What is heard -/

/-- The node lets the event of the frame in. -/
structure LetsIn (n : Node h) (frame : InboundFrame) (e : MeshEvent) : Prop where
  decoded : fromWireBytes frame.payload = .ok e
  passes : (n.verdict frame.now e).passes = true
  registers : n.Registers frame.env e

/-- A link is done with an id: if the node holds its event, it has flushed it to the peer, and if it queued it, the node
at the other end has let it in. -/
structure Quiet (vs : List (Visit (Mesh h ι) (ι × InboundFrame))) (m : Mesh h ι) (id : String) (i : ι) (p : String)
    (j : ι) : Prop where
  flushed : id ∈ (m.node i).gossip.outboxIds → id ∈ (m.node i).gossip.deliveredTo p
  heard : ∀ e ∈ m.queued i p, e.id = id → ∃ v ∈ vs, v.label.1 = j ∧ LetsIn (v.state.node j) v.label.2 e

variable {vs : List (Visit (Mesh h ι) (ι × InboundFrame))}

/-- What holds along a run without overflow. -/
structure Settling (ids : Finset String) (vs : List (Visit (Mesh h ι) (ι × InboundFrame))) (m : Mesh h ι) :
    Prop where
  sourced : Sourced m
  confined : Confined ids m
  holds : ∀ i p, Holds m i p
  signed : ∀ x ∈ m.signed, x.2.id ∈ (m.node x.1).gossip.knownEvents
  heard : ∀ v ∈ vs, ∀ e, LetsIn (v.state.node v.label.1) v.label.2 e →
    e.id ∈ (m.node v.label.1).gossip.knownEvents

/-- An id a node knows is known over a link that is done with it, -/
theorem Settling.link (hset : Settling ids vs m) {id : String} (hquiet : Quiet vs m id i p j)
    (hid : id ∈ (m.node i).gossip.knownEvents) : id ∈ (m.node j).gossip.knownEvents := by
  have hheld := (hset.holds i p).held id hid
  obtain ⟨e, he, rfl⟩ := List.mem_map.mp hheld
  obtain ⟨v, hv, rfl, hl⟩ := hquiet.heard e ((hset.holds i p).queued e he (hquiet.flushed hheld)) rfl
  exact hset.heard v hv e hl

/-- and wherever such links lead. -/
theorem Settling.path (hset : Settling ids vs m) {id : String} {links : ι → String → ι → Prop}
    (hquiet : ∀ i p j, links i p j → Quiet vs m id i p j)
    (hpath : Relation.ReflTransGen (fun i j => ∃ p, links i p j) i j) (hid : id ∈ (m.node i).gossip.knownEvents) :
    id ∈ (m.node j).gossip.knownEvents := by
  induction hpath with
  | refl => exact hid
  | tail _ hlink ih =>
    obtain ⟨p, hlink⟩ := hlink
    exact hset.link (hquiet _ p _ hlink) ih

variable [DecidableEq ι]

/-- A node knows what it has just signed. -/
theorem known_signed (hst : Step m m') {x : ι × MeshEvent} (hx : x ∈ m'.signed) :
    x ∈ m.signed ∨ x.2.id ∈ (m'.node x.1).gossip.knownEvents := by
  cases hst with
  | @signs i event n' hs =>
    rcases List.mem_append.mp hx with hold | hnew
    · exact .inl hold
    · obtain rfl := List.mem_singleton.mp hnew
      obtain ⟨-, -, -, -, order, hg⟩ := hs.sound
      have hself : ((m.setNode i n').node i).gossip = ((m.node i).gossip.insertNew order event).2 :=
        (congrArg Node.gossip (setNode_self m i n')).trans hg
      refine .inr ?_
      show event.id ∈ ((m.setNode i n').node i).gossip.knownEvents
      rw [hself]
      exact self_mem_insertNew
  | flush => exact .inl hx
  | write => exact .inl hx
  | transport => exact .inl hx
  | deliver => exact .inl hx
  | inject => exact .inl hx
  | aside => exact .inl hx

/-! ## Runs that record what is heard -/

/-- A frame of the wire reaches a node. -/
def Hears (d : ι × InboundFrame) (m m' : Mesh h ι) : Prop :=
  d.2.payload ∈ m.wire ∧ m' = m.setNode d.1 (processFrame (.zero, m.node d.1) d.2).2

/-- The runs, with some of the frames that reach a node. -/
abbrev HearsRun (m₀ : Mesh h ι) (vs : List (Visit (Mesh h ι) (ι × InboundFrame))) (m : Mesh h ι) : Prop :=
  Run Hears Step m₀ vs m

theorem Hears.step {d : ι × InboundFrame} (hd : Hears d m m') : Step m m' := by
  obtain ⟨hw, rfl⟩ := hd
  exact .deliver d.1 d.2 hw

/-- A node knows what it has just let in. -/
theorem LetsIn.known {frame : InboundFrame} {e : MeshEvent} (hl : LetsIn (m.node i) frame e)
    (hd : Hears (i, frame) m m') : e.id ∈ (m'.node i).gossip.knownEvents := by
  obtain ⟨-, rfl⟩ := hd
  show e.id ∈ ((m.setNode i _).node i).gossip.knownEvents
  rw [setNode_self, gossip_processFrame hl.decoded hl.passes hl.registers]
  exact self_mem_insertNew

theorem Settling.step (hset : Settling ids vs m) (hst : Step m m') (hids : Within ids m')
    (hcard : ids.card ≤ maxPendingBroadcasts) : Settling ids vs m' := by
  have hspec := hst.spec
  have hkept := known_step hset.confined hset.sourced hspec hids hcard
  refine ⟨hset.sourced.step hspec, hset.confined.step hset.sourced hspec hids (hcard.trans (by decide)),
    fun i p => (hset.holds i p).step hset.confined hset.sourced hspec hids hcard, fun x hx => ?_, fun v hv e hl => ?_⟩
  · rcases known_signed hst hx with hold | hnew
    · exact hkept x.1 (hset.signed x hold)
    · exact hnew
  · exact hkept v.label.1 (hset.heard v hv e hl)

/-- **The run lemma.** -/
theorem settling_run (h₀ : m₀.Fresh) (hr : HearsRun m₀ vs m) (hids : Within ids m)
    (hcard : ids.card ≤ maxPendingBroadcasts) : Settling ids vs m := by
  induction hr with
  | start =>
    refine ⟨h₀.sourced, h₀.confined ids, h₀.holds, fun x hx => ?_, fun v hv => nomatch hv⟩
    rw [h₀.signed] at hx
    cases hx
  | @visit vs s s' d _ hd ih =>
    have hst := hd.step
    have hset := (ih fun e he => hids e (hst.spec.sources he)).step hst hids hcard
    refine ⟨hset.sourced, hset.confined, hset.holds, hset.signed, fun v hv e hl => ?_⟩
    rcases List.mem_append.mp hv with hold | hnew
    · exact hset.heard v hold e hl
    · obtain rfl := List.mem_singleton.mp hnew
      exact hl.known hd
  | silent _ hst ih => exact (ih fun e he => hids e (hst.spec.sources he)).step hst hids hcard

/-! ## Convergence -/

/-- **In a quiet mesh everybody holds the event.** Take any run of the mesh from a fresh state, with loss, repetition,
misrouting and strangers on the wire, in which the events that a validator lets pass have at most as many ids as an
outbox holds, and no two texts collide. Whatever a node signed or holds at its end is held, with the same content,
wherever links lead from it that are done with this event. -/
theorem mesh_converges (h₀ : m₀.Fresh) (hr : HearsRun m₀ vs m) (hids : Within ids m)
    (hcard : ids.card ≤ maxPendingBroadcasts) (hfree : CollisionFree h.toPrimitives m.texts) (i : ι) (e : MeshEvent)
    (he : e ∈ (m.node i).gossip.pendingBroadcasts ∨ (i, e) ∈ m.signed) (links : ι → String → ι → Prop)
    (hquiet : ∀ i p j, links i p j → Quiet vs m e.id i p j) (j : ι)
    (hpath : Relation.ReflTransGen (fun i j => ∃ p, links i p j) i j) :
    ∃ e' ∈ (m.node j).gossip.pendingBroadcasts, SameSigned e e' := by
  have hset := settling_run h₀ hr hids hcard
  obtain ⟨hsource, hadmitted, hknown⟩ : e ∈ m.sources ∧ Admitted h.toPrimitives e ∧
      e.id ∈ (m.node i).gossip.knownEvents := by
    rcases he with hheld | hsigned
    · obtain ⟨hsource, hadmitted⟩ := hset.sourced.outbox i e hheld
      exact ⟨hsource, hadmitted, (hset.confined.bounded i).known _ (List.mem_map_of_mem hheld)⟩
    · exact ⟨mem_sources.mpr (.inl ⟨_, hsigned, rfl⟩), (hset.sourced.signed _ hsigned).2.2, hset.signed _ hsigned⟩
  obtain ⟨e', he', hid⟩ := List.mem_map.mp ((hset.holds j "").held _ (hset.path hquiet hpath hknown))
  obtain ⟨hsource', hadmitted'⟩ := hset.sourced.outbox j e' he'
  exact ⟨e', he', Sourced.sameSigned hfree hsource hadmitted hsource' hadmitted' hid.symm⟩

/-! ## An alert that is heard -/

theorem hearsRun_of_reaches (hr : Reaches m₀ m) : HearsRun m₀ [] m := by
  induction hr with
  | refl => exact .start
  | tail _ hst ih => exact .silent ih hst

/-- The peer hears it, and holds it. -/
theorem mesh_converges_alert : ∃ (vs : _) (m : Mesh knownHost Bool), HearsRun pairMesh vs m ∧
    ∃ e ∈ (m.node false).gossip.pendingBroadcasts, SameSigned (knownEvent .alert) e := by
  obtain ⟨m, w, hr, hsigned, hinjected, hpeer, -, -, hheld, hmarked, hqueued, hw, hdec⟩ := pairMesh_written
  let frame : InboundFrame := ⟨"peer", w, .still 1700000000, 1700000000⟩
  have hhears : Hears (false, frame) m (m.setNode false (processFrame (.zero, m.node false) frame).2) := ⟨hw, rfl⟩
  have hlets : LetsIn (m.node false) frame (knownEvent .alert) := by
    rw [hpeer]
    exact ⟨hdec, by rw [trusting_verdict]; rfl, trusting_valid .alert, Node.accepts_alert rfl⟩
  have hrun := (hearsRun_of_reaches hr).visit hhears
  generalize hm' : m.setNode false (processFrame (.zero, m.node false) frame).2 = m' at hrun
  have hauthor : m'.node true = m.node true := by rw [← hm', setNode_other m (by decide)]
  have hsources : m'.sources = [knownEvent .alert] := by
    rw [← hm']
    show m.signed.map Prod.snd ++ m.injected.filterMap _ = _
    rw [hsigned, hinjected]
    rfl
  have hids : Within {(knownEvent .alert).id} m' := by
    intro e he _
    rw [hsources] at he
    obtain rfl := List.mem_singleton.mp he
    exact Finset.mem_singleton_self _
  have hfree : CollisionFree knownHost.toPrimitives m'.texts := by
    have hone : m'.texts ⊆ {(knownEvent .alert).canonicalText} := by
      rintro t ⟨e, he, rfl⟩
      rw [hsources] at he
      obtain rfl := List.mem_singleton.mp he
      rfl
    exact Set.InjOn.mono hone (Set.injOn_singleton _ _)
  have hquiet : Quiet ([] ++ [⟨m, (false, frame)⟩]) m' (knownEvent .alert).id true "peer" false := by
    refine ⟨fun _ => ?_, fun e he _ => ⟨_, List.mem_singleton_self _, rfl, ?_⟩⟩
    · rw [hauthor]
      exact hmarked
    · rw [← hm'] at he
      obtain rfl := List.mem_singleton.mp (hqueued ▸ he)
      exact hlets
  have hmem : knownEvent .alert ∈ (m'.node true).gossip.pendingBroadcasts := by
    rw [hauthor, hheld]
    exact List.mem_singleton_self _
  exact ⟨_, m', hrun, mesh_converges pairMesh_fresh hrun hids (by rw [Finset.card_singleton]; decide) hfree true _
    (.inl hmem) (fun i p j => i = true ∧ p = "peer" ∧ j = false) (by rintro i p j ⟨rfl, rfl, rfl⟩; exact hquiet) false
    (.single ⟨"peer", rfl, rfl, rfl⟩)⟩

end Mesh

end Onde.Network

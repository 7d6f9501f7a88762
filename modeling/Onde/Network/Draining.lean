import Onde.Network.Transport

/-!
# Draining an outbox

Batch after batch, the first events undelivered to a peer are handed over and marked.

* `Handed`: one batch; `Drains`: batches one after the other;
* `Drains.spec`: no event is handed over twice, and none that waits is left out;
* `Drains.done`: as many batches as the outbox is long leave nothing to deliver;
* `Steady`: whatever is marked stays so as long as it is in the outbox; then the batches are what was undelivered, in
  order (`Drains.steady`);
* `steady_run`: so it is in every run whose known set never overflows.
-/

namespace Onde.Network

open Onde.Lib Onde.Crypto Onde.Reputation Onde.Protocol Onde.Protocol.GossipProtocol

variable {size : Nat} {p : String} {g g' : GossipProtocol} {batches : List (List MeshEvent)}

/-- The first `size` events undelivered to a peer are handed over and marked, and the outbox is left as it was. -/
structure Handed (size : Nat) (p : String) (g g' : GossipProtocol) : Prop where
  bounded : Bounded g'
  pending : g'.pendingBroadcasts = g.pendingBroadcasts
  delivered : g'.deliveredTo p =
    (((g.undelivered p).take size).map MeshEvent.id).foldl (pushBounded maxDeliveredPerPeer) (g.deliveredTo p)

/-- Batches, oldest first. -/
inductive Drains (size : Nat) (p : String) (g : GossipProtocol) : List (List MeshEvent) → GossipProtocol → Prop
  | start : Drains size p g [] g
  | batch {batches : List (List MeshEvent)} {g' g'' : GossipProtocol} (hr : Drains size p g batches g')
    (hh : Handed size p g' g'') : Drains size p g (batches ++ [(g'.undelivered p).take size]) g''

/-! ## One batch -/

theorem Handed.outboxIds (hh : Handed size p g g') : g'.outboxIds = g.outboxIds := by
  rw [GossipProtocol.outboxIds, hh.pending, GossipProtocol.outboxIds]

/-- The ids of a batch are ids of the outbox, in order, -/
theorem batch_sublist (size : Nat) (p : String) (g : GossipProtocol) :
    (((g.undelivered p).take size).map MeshEvent.id).Sublist g.outboxIds :=
  ((List.take_sublist _ _).trans (undelivered_sublist g p)).map _

/-- and not marked yet. -/
theorem batch_new {id : String} (hid : id ∈ ((g.undelivered p).take size).map MeshEvent.id) : id ∉ g.deliveredTo p := by
  obtain ⟨e, he, rfl⟩ := List.mem_map.mp hid
  exact not_delivered (List.mem_of_mem_take he)

/-- **A batch settles its events** and unsettles none. -/
theorem Handed.settles (hb : Bounded g) (hh : Handed size p g g') : settled g p ⊆ settled g' p ∧
    ∀ id ∈ ((g.undelivered p).take size).map MeshEvent.id, id ∈ settled g' p ∧ id ∉ settled g p :=
  settled_succ hb (batch_sublist size p g) (fun _ hid => batch_new hid) hh.outboxIds hh.delivered

/-- An event of the outbox is told by its id. -/
theorem eq_of_id (hb : Bounded g) {e e' : MeshEvent} (he : e ∈ g.pendingBroadcasts) (he' : e' ∈ g.pendingBroadcasts)
    (hid : e.id = e'.id) : e = e' :=
  List.inj_on_of_nodup_map hb.nodup he he' hid

theorem mem_undelivered {e : MeshEvent} :
    e ∈ g.undelivered p ↔ e ∈ g.pendingBroadcasts ∧ e.id ∉ g.deliveredTo p := by
  simp [GossipProtocol.undelivered]

/-- Every event that waits is in the batch or waits on. -/
theorem Handed.waiting (hb : Bounded g) (hh : Handed size p g g') {e : MeshEvent} (he : e ∈ g.undelivered p) :
    e ∈ (g.undelivered p).take size ∨ e ∈ g'.undelivered p := by
  obtain ⟨hpending, hwaits⟩ := mem_undelivered.mp he
  by_cases hin : e.id ∈ g'.deliveredTo p
  · left
    rw [hh.delivered] at hin
    by_contra hout
    refine hwaits (mem_of_mem_foldl_pushBounded hin fun hid => hout ?_)
    obtain ⟨e', he', hsame⟩ := List.mem_map.mp hid
    have hpending' := (undelivered_sublist g p).subset (List.mem_of_mem_take he')
    rwa [← eq_of_id hb hpending' hpending hsame]
  · exact .inr (mem_undelivered.mpr ⟨by rw [hh.pending]; exact hpending, hin⟩)

/-- With nothing to deliver there is nothing to deliver afterwards. -/
theorem Handed.idle (hh : Handed size p g g') (hnil : g.undelivered p = []) : g'.undelivered p = [] := by
  have hd := hh.delivered
  rw [hnil, List.take_nil, List.map_nil, List.foldl_nil] at hd
  rw [GossipProtocol.undelivered, hh.pending, hd]
  exact hnil

/-! ## Batches one after the other -/

/-- What batches keep. -/
structure Drained (p : String) (g : GossipProtocol) (batches : List (List MeshEvent)) (g' : GossipProtocol) : Prop where
  bounded : Bounded g'
  pending : g'.pendingBroadcasts = g.pendingBroadcasts
  once : (batches.flatten.map MeshEvent.id).Nodup
  settled : ∀ e ∈ batches.flatten, e ∈ g.pendingBroadcasts ∧ e.id ∈ settled g' p
  waiting : ∀ e ∈ g.undelivered p, e ∈ batches.flatten ∨ e ∈ g'.undelivered p

/-- **No event is handed over twice, and none that waits is left out.** -/
theorem Drains.spec (hb : Bounded g) (hr : Drains size p g batches g') : Drained p g batches g' := by
  induction hr with
  | start => exact ⟨hb, rfl, List.nodup_nil, fun e he => (nomatch he), fun e he => .inr he⟩
  | @batch batches g' g'' hr hh ih =>
    obtain ⟨hkeep, hgain⟩ := hh.settles ih.bounded
    have hflat : (batches ++ [(g'.undelivered p).take size]).flatten =
        batches.flatten ++ (g'.undelivered p).take size := by simp
    refine ⟨hh.bounded, hh.pending.trans ih.pending, ?_, fun e he => ?_, fun e he => ?_⟩
    · rw [hflat, List.map_append]
      refine List.Nodup.append ih.once (ih.bounded.nodup.sublist (batch_sublist size p g')) fun id hold hnew => ?_
      obtain ⟨e, he, rfl⟩ := List.mem_map.mp hold
      exact (hgain _ hnew).2 (ih.settled e he).2
    · rw [hflat] at he
      rcases List.mem_append.mp he with hold | hnew
      · exact (ih.settled e hold).imp_right fun hid => hkeep hid
      · have hpending := (undelivered_sublist g' p).subset (List.mem_of_mem_take hnew)
        exact ⟨ih.pending ▸ hpending, (hgain _ (List.mem_map_of_mem hnew)).1⟩
    · rw [hflat, List.mem_append, or_assoc]
      exact (ih.waiting e he).imp_right (hh.waiting ih.bounded)

/-- As long as something waits, each batch has an event. -/
theorem Drains.progress (hsize : 1 ≤ size) (hr : Drains size p g batches g') :
    g'.undelivered p = [] ∨ batches.length ≤ batches.flatten.length := by
  induction hr with
  | start => exact .inr (Nat.le_refl _)
  | @batch batches g' g'' hr hh ih =>
    by_cases hnil : g'.undelivered p = []
    · exact .inl (hh.idle hnil)
    · right
      have hle := ih.resolve_left hnil
      have hpos : 1 ≤ ((g'.undelivered p).take size).length := by
        rw [List.length_take]
        exact Nat.le_min.mpr ⟨hsize, List.length_pos_iff.mpr hnil⟩
      simp only [List.length_append, List.length_singleton, List.flatten_append, List.flatten_singleton]
      omega

/-- **As many batches as the outbox is long leave nothing to deliver.** -/
theorem Drains.done (hb : Bounded g) (hsize : 1 ≤ size) (hr : Drains size p g batches g')
    (hlen : g.pendingBroadcasts.length ≤ batches.length) : g'.undelivered p = [] := by
  rcases hr.progress hsize with hnil | hle
  · exact hnil
  have hd := hr.spec hb
  -- the batches hold every event of the outbox
  have hall : g.outboxIds.toFinset ⊆ (batches.flatten.map MeshEvent.id).toFinset := by
    have hsub : (batches.flatten.map MeshEvent.id).toFinset ⊆ g.outboxIds.toFinset := fun id hid => by
      obtain ⟨e, he, rfl⟩ := List.mem_map.mp (List.mem_toFinset.mp hid)
      exact List.mem_toFinset.mpr (List.mem_map_of_mem (hd.settled e he).1)
    refine (Finset.eq_of_subset_of_card_le hsub ?_).ge
    rw [List.toFinset_card_of_nodup hd.once, List.toFinset_card_of_nodup hb.nodup, List.length_map,
      GossipProtocol.outboxIds, List.length_map]
    exact hlen.trans hle
  refine List.eq_nil_iff_forall_not_mem.mpr fun e he => ?_
  obtain ⟨hpending, hwaits⟩ := mem_undelivered.mp he
  rw [hd.pending] at hpending
  have hid : e.id ∈ (batches.flatten.map MeshEvent.id).toFinset :=
    hall (List.mem_toFinset.mpr (List.mem_map_of_mem hpending))
  obtain ⟨e', he', hsame⟩ := List.mem_map.mp (List.mem_toFinset.mp hid)
  exact hwaits (hsame ▸ (mem_settled.mp (hd.settled e' he').2).2.mem)

/-- The first batch, and then the rest. -/
theorem Drains.cons {g₁ : GossipProtocol} (hh : Handed size p g g₁) (hr : Drains size p g₁ batches g') :
    Drains size p g ((g.undelivered p).take size :: batches) g' := by
  induction hr with
  | start => exact .batch .start hh
  | batch _ hh' ih => exact .batch ih hh'

/-- The events of the outbox that are not settled. -/
noncomputable def unsettled (g : GossipProtocol) (p : String) : Nat := (g.outboxIds.toFinset \ settled g p).card

theorem unsettled_le (g : GossipProtocol) (p : String) : unsettled g p ≤ g.pendingBroadcasts.length := by
  have hle := (Finset.card_le_card (Finset.sdiff_subset (s := g.outboxIds.toFinset) (t := settled g p))).trans
    (List.toFinset_card_le g.outboxIds)
  rwa [GossipProtocol.outboxIds, List.length_map] at hle

/-- **A batch that is not empty leaves fewer events to settle.** -/
theorem Handed.unsettled_lt (hb : Bounded g) (hh : Handed size p g g') (hne : (g.undelivered p).take size ≠ []) :
    unsettled g' p < unsettled g p := by
  obtain ⟨hkeep, hgain⟩ := hh.settles hb
  obtain ⟨e, rest, hbatch⟩ := List.exists_cons_of_ne_nil hne
  have he : e.id ∈ ((g.undelivered p).take size).map MeshEvent.id := by
    rw [hbatch]
    exact List.mem_cons_self
  obtain ⟨hnow, hbefore⟩ := hgain _ he
  unfold unsettled
  rw [hh.outboxIds]
  refine Finset.card_lt_card (Finset.ssubset_iff_of_subset (Finset.sdiff_subset_sdiff (Finset.Subset.refl _) hkeep)
    |>.mpr ⟨e.id, ?_, ?_⟩)
  · exact Finset.mem_sdiff.mpr ⟨List.mem_toFinset.mpr ((batch_sublist size p g).subset he), hbefore⟩
  · exact fun hmem => (Finset.mem_sdiff.mp hmem).2 hnow

/-! ## In order -/

/-- Whatever is marked stays so as long as it is in the outbox. -/
def Steady (g : GossipProtocol) (p : String) : Prop := ∀ id ∈ g.outboxIds, id ∈ g.deliveredTo p → id ∈ settled g p

/-- A batch is taken off what is undelivered. -/
theorem Handed.steady (hb : Bounded g) (hs : Steady g p) (hh : Handed size p g g') :
    Steady g' p ∧ g'.undelivered p = (g.undelivered p).drop size := by
  obtain ⟨hkeep, hgain⟩ := hh.settles hb
  have hiff : ∀ e ∈ g.pendingBroadcasts, e.id ∈ g'.deliveredTo p ↔
      e.id ∈ g.deliveredTo p ∨ e ∈ (g.undelivered p).take size := by
    intro e he
    constructor
    · intro hid
      by_cases hwaits : e.id ∈ g.deliveredTo p
      · exact .inl hwaits
      · refine .inr ((hh.waiting hb (mem_undelivered.mpr ⟨he, hwaits⟩)).resolve_right fun hw => ?_)
        exact (mem_undelivered.mp hw).2 hid
    · rintro (hold | hnew)
      · exact (mem_settled.mp (hkeep (hs _ (List.mem_map_of_mem he) hold))).2.mem
      · exact (mem_settled.mp (hgain _ (List.mem_map_of_mem hnew)).1).2.mem
  constructor
  · intro id hin hid
    rw [hh.outboxIds] at hin
    obtain ⟨e, he, rfl⟩ := List.mem_map.mp hin
    rcases (hiff e he).mp hid with hold | hnew
    · exact hkeep (hs _ hin hold)
    · exact (hgain _ (List.mem_map_of_mem hnew)).1
  · have hnodup : (g.undelivered p).Nodup := ((hb.nodup.of_map _).sublist (undelivered_sublist g p))
    have hwaits : g'.undelivered p = (g.undelivered p).filter (· ∉ (g.undelivered p).take size) := by
      rw [GossipProtocol.undelivered, hh.pending]
      conv_rhs => rw [GossipProtocol.undelivered, List.filter_filter]
      refine List.filter_congr fun e he => ?_
      have hnot := not_congr (hiff e he)
      rw [not_or] at hnot
      rw [← GossipProtocol.undelivered]
      simp only [← Bool.decide_and, hnot, and_comm]
    rw [hwaits]
    conv_lhs => arg 2; rw [← List.take_append_drop size (g.undelivered p)]
    rw [List.filter_append, List.filter_eq_nil_iff.mpr fun e he => by simpa using he, List.nil_append]
    refine List.filter_eq_self.mpr fun e he => decide_eq_true fun htaken => ?_
    have hsplit := hnodup
    rw [← List.take_append_drop size (g.undelivered p)] at hsplit
    exact (List.nodup_append.mp hsplit).2.2 e htaken e he rfl

/-- **The batches are what was undelivered, in order.** -/
theorem Drains.steady (hb : Bounded g) (hs : Steady g p) (hr : Drains size p g batches g') : Steady g' p ∧
    batches.flatten = (g.undelivered p).take (size * batches.length) ∧
    g'.undelivered p = (g.undelivered p).drop (size * batches.length) := by
  induction hr with
  | start => exact ⟨hs, by simp, by simp⟩
  | @batch batches g' g'' hr hh ih =>
    obtain ⟨hsteady, hflat, hrest⟩ := ih
    obtain ⟨hsteady', hrest'⟩ := hh.steady (hr.spec hb).bounded hsteady
    have hmore : size * (batches ++ [(g'.undelivered p).take size]).length = size * batches.length + size := by
      rw [List.length_append, List.length_singleton, Nat.mul_succ]
    refine ⟨hsteady', ?_, ?_⟩
    · rw [hmore, List.flatten_append, List.flatten_singleton, hflat, hrest, ← List.take_add]
    · rw [hmore, hrest', hrest, List.drop_drop]

/-! ## Runs that forget no event -/

variable {c : Primitives} {ops : List DeliveryOp}

/-- The known set has had room for one more in every state of the run. -/
def NeverFull (c : Primitives) (ops : List DeliveryOp) : Prop :=
  ∀ pre, pre <+: ops → (deliveryRun c pre).knownEvents.card < maxKnownEvents

/-- With room in the known set an operation forgets no event. -/
theorem knownEvents_apply (hroom : g.knownEvents.card < maxKnownEvents) (op : DeliveryOp) :
    g.knownEvents ⊆ (op.apply c g).knownEvents := by
  cases op with
  | setMetrics counter => exact Finset.Subset.refl _
  | insert op =>
    rcases insertOp_cases c g op with he | ⟨ord, event, he⟩
    · rw [DeliveryOp.apply, he]
    · rw [DeliveryOp.apply, he]
      exact fun id hid => mem_insertNew hroom (.inr hid)
  | getPendingForPeer peerId =>
    exact ((markDeliveredToPeer_frame _ _ _).2.1.trans (peekPendingForPeer_snd g peerId usizeMax).2.1).ge
  | peekAndMark peerId max marked =>
    exact ((markDeliveredToPeer_frame _ _ _).2.1.trans (peekPendingForPeer_snd g peerId max).2.1).ge

/-- One operation: what is marked is known and stays settled. -/
theorem steady_apply (hb : Bounded g) (hknown : ∀ id ∈ g.deliveredTo p, id ∈ g.knownEvents) (hs : Steady g p)
    (op : DeliveryOp) : Steady (op.apply c g) p := by
  intro id hin hid
  refine mem_settled.mpr ⟨hin, ?_⟩
  by_cases hmarked : id ∈ op.marks g p
  · exact remembered_marks hb op hmarked
  · obtain ⟨hd, hout⟩ := op.spec c g p
    rw [hd] at hid
    have hold : id ∈ g.deliveredTo p := mem_of_mem_foldl_pushBounded hid hmarked
    have hwas : id ∈ g.outboxIds := by
      rcases hout with ⟨new, hnew, ho, -⟩ | ⟨ho, -⟩
      · rw [ho] at hin
        -- the event inserted was not known, so it was not marked
        exact (mem_pushBounded hin).resolve_right fun heq => hnew (heq ▸ hknown id hold)
      · rwa [ho] at hin
    exact Remembered.deliver hb (mem_settled.mp (hs id hwas hold)).2 op hin

/-- **A run whose known set never overflows is steady.** -/
theorem steady_run (hroom : NeverFull c ops) (p : String) : Steady (deliveryRun c ops) p ∧
    ∀ id ∈ (deliveryRun c ops).deliveredTo p, id ∈ (deliveryRun c ops).knownEvents := by
  induction ops using List.reverseRecOn with
  | nil => exact ⟨fun _ hin _ => (nomatch hin), fun _ hid => (nomatch hid)⟩
  | append_singleton ops op ih =>
    obtain ⟨hs, hknown⟩ := ih fun pre hpre => hroom pre (hpre.trans (List.prefix_append _ _))
    have hb := bounded_deliveryRun c ops
    have hkeep := knownEvents_apply (c := c) (hroom ops (List.prefix_append _ _)) op
    rw [deliveryRun_append]
    refine ⟨steady_apply hb hknown hs op, fun id hid => ?_⟩
    obtain ⟨hd, hout⟩ := op.spec c (deliveryRun c ops) p
    by_cases hmarked : id ∈ op.marks (deliveryRun c ops) p
    · rcases hout with ⟨-, -, -, hnil⟩ | ⟨-, hsub⟩
      · rw [hnil] at hmarked
        cases hmarked
      · exact hkeep (hb.known _ (List.mem_of_mem_filter (hsub.subset hmarked)))
    · rw [hd] at hid
      exact hkeep (hknown _ (mem_of_mem_foldl_pushBounded hid hmarked))

end Onde.Network

import Onde.Lib.Fifo
import Onde.Protocol.Event
import Onde.Reputation.System

/-!
# The gossip state

* `insertNew`: the known set, the bounded outbox and the eviction of known ids in hash order (`expireOldKnown`);
* `peekPendingForPeer`, `markDeliveredToPeer`, `getPendingForPeer`: selection for a peer and its bounded memory;
* `gossip_bounded`: the bounds and the distinctness of the outbox, over every run.
-/

namespace Onde.Protocol

open Onde.Lib Onde.Crypto Onde.Reputation

def maxKnownEvents : Nat := 10000
def maxPendingBroadcasts : Nat := 1000
def maxDeliveredPerPeer : Nat := 2000

/-- The last value of a `usize`. -/
def usizeMax : Nat := 2 ^ 64 - 1

/-- All checks, with the difficulty floor the reputation asks of the author. -/
def MeshEvent.validateWithReputation (c : Primitives) (clock : Nat) (reputation : ReputationSystem) (e : MeshEvent) :
    Except String Unit :=
  e.validateWithPowMin c clock (reputation.requiredPowDifficulty e.pubkey)

/-- The known ids, the outbox, the ids delivered to each peer, and the counter of gossiped messages if it is hooked. -/
structure GossipProtocol where
  knownEvents : Finset String
  pendingBroadcasts : List MeshEvent
  delivered : StrMap (List String)
  metrics : Option Nat

namespace GossipProtocol

def new : GossipProtocol := ⟨∅, [], ∅, none⟩

/-- The ids of the outbox, oldest first. -/
def outboxIds (g : GossipProtocol) : List String := g.pendingBroadcasts.map MeshEvent.id

/-- The ids remembered as delivered to a peer, oldest first. -/
def deliveredTo (g : GossipProtocol) (peer : String) : List String := g.delivered.getD peer []

/-- Hook the counter of gossiped messages. -/
def setMetrics (g : GossipProtocol) (counter : Nat) : GossipProtocol := { g with metrics := some counter }

def isKnown (g : GossipProtocol) (id : String) : Bool := id ∈ g.knownEvents

/-! ## Insertion -/

/-- Walk over the ids and remove those outside `keep`, until `overflow` of them are gone. -/
def evictKnown (keep : Finset String) : Nat → List String → Finset String → Finset String
  | 0, _, known => known
  | _ + 1, [], known => known
  | n + 1, id :: ids, known =>
    if id ∈ keep then evictKnown keep (n + 1) ids known else evictKnown keep n ids (known.erase id)

/-- Evict known ids that are not in the outbox, in the iteration order of the set, down to the bound. -/
def expireOldKnown (ord : HashOrder) (g : GossipProtocol) : GossipProtocol :=
  if g.knownEvents.card ≤ maxKnownEvents then g
  else
    let keep := g.outboxIds.toFinset
    let overflow := g.knownEvents.card - maxKnownEvents
    { g with knownEvents := evictKnown keep overflow (ord.order g.knownEvents) g.knownEvents }

/-- Register a new event and put it in the outbox. -/
def insertNew (ord : HashOrder) (g : GossipProtocol) (event : MeshEvent) : Bool × GossipProtocol :=
  if event.id ∈ g.knownEvents then (false, g)
  else
    let g₁ := { g with
      knownEvents := insert event.id g.knownEvents
      pendingBroadcasts := pushBounded maxPendingBroadcasts g.pendingBroadcasts event }
    let g₂ := if maxKnownEvents < g₁.knownEvents.card then g₁.expireOldKnown ord else g₁
    (true, { g₂ with metrics := g₂.metrics.map (· + 1) })

/-- Add an event of the local user, with the fixed difficulty floor. -/
def addEvent (c : Primitives) (ord : HashOrder) (clock : Nat) (g : GossipProtocol) (event : MeshEvent) :
    Except String (Bool × GossipProtocol) := do
  event.validate c clock
  pure (g.insertNew ord event)

/-- Add an event with the adaptive difficulty floor. -/
def addEventWithReputation (c : Primitives) (ord : HashOrder) (clock : Nat) (g : GossipProtocol) (event : MeshEvent)
    (reputation : ReputationSystem) : Except String (Bool × GossipProtocol) := do
  event.validateWithReputation c clock reputation
  pure (g.insertNew ord event)

/-- Process an event received from a peer. -/
def receiveEvent (c : Primitives) (ord : HashOrder) (clock : Nat) (g : GossipProtocol) (event : MeshEvent) :
    Bool × GossipProtocol :=
  if event.id ∈ g.knownEvents then (false, g)
  else match event.validate c clock with
    | .ok () => g.insertNew ord event
    | .error _ => (false, g)

/-- The state after an insertion; a refused one changes nothing. -/
def after (g : GossipProtocol) : Except String (Bool × GossipProtocol) → GossipProtocol
  | .ok r => r.2
  | .error _ => g

/-! ## Delivery to a peer -/

/-- The first `max` events whose ids are not in `delivered`. -/
def selectPending (delivered : List String) : Nat → List MeshEvent → List MeshEvent
  | 0, _ => []
  | _ + 1, [] => []
  | n + 1, event :: events =>
    if event.id ∈ delivered then selectPending delivered (n + 1) events
    else event :: selectPending delivered n events

/-- Select for a peer without marking. -/
def peekPendingForPeer (g : GossipProtocol) (peerId : String) (max : Nat) : List MeshEvent × GossipProtocol :=
  if max = 0 then ([], g)
  else
    let deliveredSet := g.deliveredTo peerId
    (selectPending deliveredSet max g.pendingBroadcasts, { g with delivered := g.delivered.insert peerId deliveredSet })

/-- Remember ids as delivered to a peer. -/
def markDeliveredToPeer (g : GossipProtocol) (peerId : String) (ids : List String) : GossipProtocol :=
  if ids = [] then g
  else { g with delivered :=
    g.delivered.insert peerId (ids.foldl (pushBounded maxDeliveredPerPeer) (g.deliveredTo peerId)) }

/-- Select everything pending for a peer and mark it. -/
def getPendingForPeer (g : GossipProtocol) (peerId : String) : List MeshEvent × GossipProtocol :=
  let peeked := g.peekPendingForPeer peerId usizeMax
  (peeked.1, peeked.2.markDeliveredToPeer peerId (peeked.1.map MeshEvent.id))

/-! ## What the operations do -/

variable {c : Primitives} {ord : HashOrder} {g : GossipProtocol} {event : MeshEvent} {clock : Nat}

theorem evictKnown_subset (keep : Finset String) : ∀ (n : Nat) (ids : List String) (known : Finset String),
    evictKnown keep n ids known ⊆ known
  | 0, _, _ => by rw [evictKnown]
  | _ + 1, [], _ => by rw [evictKnown]
  | n + 1, id :: ids, known => by
    rw [evictKnown]
    split
    · exact evictKnown_subset keep (n + 1) ids known
    · exact (evictKnown_subset keep n ids _).trans (Finset.erase_subset _ _)

theorem evictKnown_keep {keep : Finset String} {x : String} (hx : x ∈ keep) :
    ∀ (n : Nat) (ids : List String) (known : Finset String), x ∈ known → x ∈ evictKnown keep n ids known
  | 0, _, _, h => by rwa [evictKnown]
  | _ + 1, [], _, h => by rwa [evictKnown]
  | n + 1, id :: ids, known, h => by
    rw [evictKnown]
    split
    · exact evictKnown_keep hx _ _ _ h
    · next hid => exact evictKnown_keep hx _ _ _ (Finset.mem_erase.mpr ⟨fun he => hid (he ▸ hx), h⟩)

/-- Each evicted id counts once, whatever the order. -/
theorem card_evictKnown (keep : Finset String) : ∀ (n : Nat) {ids : List String} {known : Finset String}, ids.Nodup →
    (∀ x ∈ ids, x ∈ known) →
    (evictKnown keep n ids known).card + min n (ids.filter (· ∉ keep)).length = known.card
  | 0, _, _, _, _ => by simp [evictKnown]
  | _ + 1, [], _, _, _ => by simp [evictKnown]
  | n + 1, id :: ids, known, hn, hk => by
    have hn' := List.nodup_cons.mp hn
    rw [evictKnown]
    split
    · next hid =>
      rw [List.filter_cons_of_neg (by simpa using hid)]
      exact card_evictKnown keep (n + 1) hn'.2 fun x hx => hk x (List.mem_cons_of_mem _ hx)
    · next hid =>
      have hmem : id ∈ known := hk id List.mem_cons_self
      have ih := card_evictKnown keep n hn'.2 fun x hx =>
        Finset.mem_erase.mpr ⟨fun he : x = id => hn'.1 (he ▸ hx), hk x (List.mem_cons_of_mem _ hx)⟩
      have hpos : 0 < known.card := Finset.card_pos.mpr ⟨id, hmem⟩
      rw [List.filter_cons_of_pos (by simpa using hid), List.length_cons]
      rw [Finset.card_erase_of_mem hmem] at ih
      omega

theorem expireOldKnown_frame (g : GossipProtocol) :
    (g.expireOldKnown ord).pendingBroadcasts = g.pendingBroadcasts ∧
      (g.expireOldKnown ord).delivered = g.delivered := by
  unfold expireOldKnown
  split <;> exact ⟨rfl, rfl⟩

theorem expireOldKnown_subset : (g.expireOldKnown ord).knownEvents ⊆ g.knownEvents := by
  unfold expireOldKnown
  split
  · exact Finset.Subset.refl _
  · exact evictKnown_subset _ _ _ _

theorem mem_expireOldKnown {x : String} (hx : x ∈ g.outboxIds) (hk : x ∈ g.knownEvents) :
    x ∈ (g.expireOldKnown ord).knownEvents := by
  unfold expireOldKnown
  split
  · exact hk
  · have hkeep : x ∈ g.outboxIds.toFinset := List.mem_toFinset.mpr hx
    generalize g.knownEvents.card - maxKnownEvents = overflow
    exact evictKnown_keep hkeep overflow (ord.order g.knownEvents) g.knownEvents hk

/-- **Eviction reaches the bound, whatever the order**, as long as the outbox is within it. -/
theorem card_expireOldKnown (h : g.pendingBroadcasts.length ≤ maxKnownEvents) :
    (g.expireOldKnown ord).knownEvents.card ≤ maxKnownEvents := by
  unfold expireOldKnown
  split
  · next hle => exact hle
  · have hcard := card_evictKnown g.outboxIds.toFinset (g.knownEvents.card - maxKnownEvents)
      (ord.nodup g.knownEvents) fun x hx => (ord.mem _ x).mp hx
    have hkeep : g.outboxIds.toFinset.card ≤ maxKnownEvents :=
      (List.toFinset_card_le _).trans (by rw [outboxIds, List.length_map]; exact h)
    -- the ids outside the outbox are at least as many as the overflow
    have hout : g.knownEvents.card ≤
        ((ord.order g.knownEvents).filter (· ∉ g.outboxIds.toFinset)).length + g.outboxIds.toFinset.card := by
      have hsub : g.knownEvents ⊆
          ((ord.order g.knownEvents).filter (· ∉ g.outboxIds.toFinset)).toFinset ∪ g.outboxIds.toFinset := by
        intro x hx
        by_cases hxo : x ∈ g.outboxIds.toFinset
        · exact Finset.mem_union_right _ hxo
        · refine Finset.mem_union_left _ (List.mem_toFinset.mpr (List.mem_filter.mpr ⟨(ord.mem _ x).mpr hx, ?_⟩))
          simpa using hxo
      exact (Finset.card_le_card hsub).trans ((Finset.card_union_le _ _).trans
        (Nat.add_le_add_right (List.toFinset_card_le _) _))
    dsimp only
    omega

theorem insertNew_known (h : event.id ∈ g.knownEvents) : g.insertNew ord event = (false, g) := if_pos h

/-- **What an insertion does.** -/
theorem insertNew_new (ord : HashOrder) (h : event.id ∉ g.knownEvents) :
    (g.insertNew ord event).1 = true ∧
    (g.insertNew ord event).2.pendingBroadcasts = pushBounded maxPendingBroadcasts g.pendingBroadcasts event ∧
    (g.insertNew ord event).2.delivered = g.delivered ∧
    (g.insertNew ord event).2.knownEvents ⊆ insert event.id g.knownEvents ∧
    (∀ x ∈ (g.insertNew ord event).2.outboxIds, x ∈ insert event.id g.knownEvents →
      x ∈ (g.insertNew ord event).2.knownEvents) := by
  unfold insertNew
  rw [if_neg h]
  dsimp only
  split
  · have hids : ∀ g₁ : GossipProtocol, (g₁.expireOldKnown ord).outboxIds = g₁.outboxIds := fun g₁ => by
      rw [outboxIds, (expireOldKnown_frame g₁).1, outboxIds]
    refine ⟨rfl, (expireOldKnown_frame _).1, (expireOldKnown_frame _).2, expireOldKnown_subset, fun x hx hk => ?_⟩
    exact mem_expireOldKnown (by rw [← hids]; exact hx) hk
  · exact ⟨rfl, rfl, rfl, Finset.Subset.refl _, fun x _ hk => hk⟩

/-- An inserted event is known, whatever the eviction order. -/
theorem self_mem_insertNew : event.id ∈ (g.insertNew ord event).2.knownEvents := by
  by_cases hk : event.id ∈ g.knownEvents
  · rw [insertNew_known hk]
    exact hk
  · obtain ⟨_, hp, _, _, hkeep⟩ := insertNew_new ord hk
    refine hkeep _ ?_ (Finset.mem_insert_self _ _)
    rw [outboxIds, hp]
    exact List.mem_map_of_mem (self_mem_pushBounded _ _ _)

/-- As long as the known set is not full, nothing is forgotten and the event becomes known. -/
theorem mem_insertNew (h : g.knownEvents.card < maxKnownEvents) {x : String}
    (hx : x = event.id ∨ x ∈ g.knownEvents) : x ∈ (g.insertNew ord event).2.knownEvents := by
  by_cases hk : event.id ∈ g.knownEvents
  · rw [insertNew_known hk]
    rcases hx with rfl | hx
    · exact hk
    · exact hx
  · have hle : ¬maxKnownEvents < (insert event.id g.knownEvents).card := by
      have := Finset.card_insert_le event.id g.knownEvents
      omega
    unfold insertNew
    rw [if_neg hk]
    dsimp only
    rw [if_neg hle]
    exact Finset.mem_insert.mpr hx

theorem card_insertNew (hp : g.pendingBroadcasts.length ≤ maxPendingBroadcasts)
    (hk : g.knownEvents.card ≤ maxKnownEvents) : (g.insertNew ord event).2.knownEvents.card ≤ maxKnownEvents := by
  by_cases h : event.id ∈ g.knownEvents
  · rw [insertNew_known h]; exact hk
  · have hle : (pushBounded maxPendingBroadcasts g.pendingBroadcasts event).length ≤ maxPendingBroadcasts :=
      length_pushBounded (by decide) hp event
    unfold insertNew
    rw [if_neg h]
    dsimp only
    split
    · exact card_expireOldKnown (Nat.le_trans hle (by simp [maxPendingBroadcasts, maxKnownEvents]))
    · next hle => exact Nat.le_of_not_lt hle

theorem selectPending_eq (delivered : List String) : ∀ (n : Nat) (events : List MeshEvent),
    selectPending delivered n events = (events.filter fun e => e.id ∉ delivered).take n
  | 0, events => by rw [selectPending, List.take_zero]
  | _ + 1, [] => by rw [selectPending]; rfl
  | n + 1, event :: events => by
    rw [selectPending]
    split
    · next h => rw [selectPending_eq, List.filter_cons_of_neg (by simpa using h)]
    · next h => rw [selectPending_eq, List.filter_cons_of_pos (by simpa using h), List.take_succ_cons]

/-- **A selection is the undelivered part of the outbox, in its order, cut at `max`.** -/
theorem peekPendingForPeer_fst (peer : String) (max : Nat) : (g.peekPendingForPeer peer max).1 =
    (g.pendingBroadcasts.filter fun e => e.id ∉ g.deliveredTo peer).take max := by
  unfold peekPendingForPeer
  split
  · next h => rw [h, List.take_zero]
  · exact selectPending_eq _ _ _

theorem peekPendingForPeer_snd (g : GossipProtocol) (peer : String) (max : Nat) :
    (g.peekPendingForPeer peer max).2.pendingBroadcasts = g.pendingBroadcasts ∧
    (g.peekPendingForPeer peer max).2.knownEvents = g.knownEvents ∧
    ∀ p, (g.peekPendingForPeer peer max).2.deliveredTo p = g.deliveredTo p := by
  unfold peekPendingForPeer
  split
  · exact ⟨rfl, rfl, fun _ => rfl⟩
  · refine ⟨rfl, rfl, fun p => ?_⟩
    by_cases hp : p = peer
    · subst hp; exact StrMap.getD_insert_self
    · exact StrMap.getD_insert_ne hp

theorem markDeliveredToPeer_frame (g : GossipProtocol) (peer : String) (ids : List String) :
    (g.markDeliveredToPeer peer ids).pendingBroadcasts = g.pendingBroadcasts ∧
    (g.markDeliveredToPeer peer ids).knownEvents = g.knownEvents ∧
    ∀ p, p ≠ peer → (g.markDeliveredToPeer peer ids).deliveredTo p = g.deliveredTo p := by
  unfold markDeliveredToPeer
  split
  · exact ⟨rfl, rfl, fun _ _ => rfl⟩
  · exact ⟨rfl, rfl, fun p hp => StrMap.getD_insert_ne hp⟩

theorem markDeliveredToPeer_self (peer : String) (ids : List String) :
    (g.markDeliveredToPeer peer ids).deliveredTo peer =
      ids.foldl (pushBounded maxDeliveredPerPeer) (g.deliveredTo peer) := by
  unfold markDeliveredToPeer
  split
  · next h => rw [h]; rfl
  · exact StrMap.getD_insert_self

/-! ## Runs -/

/-- One way to offer an event to the outbox. -/
inductive InsertOp where
  | addEvent (ord : HashOrder) (clock : Nat) (event : MeshEvent)
  | addEventWithReputation (ord : HashOrder) (clock : Nat) (event : MeshEvent) (reputation : ReputationSystem)
  | receiveEvent (ord : HashOrder) (clock : Nat) (event : MeshEvent)

def InsertOp.apply (c : Primitives) (g : GossipProtocol) : InsertOp → GossipProtocol
  | .addEvent ord clock event => g.after (g.addEvent c ord clock event)
  | .addEventWithReputation ord clock event reputation =>
    g.after (g.addEventWithReputation c ord clock event reputation)
  | .receiveEvent ord clock event => (g.receiveEvent c ord clock event).2

/-- The event offered. -/
def InsertOp.offered : InsertOp → MeshEvent
  | .addEvent _ _ event => event
  | .addEventWithReputation _ _ event _ => event
  | .receiveEvent _ _ event => event

/-- One operation on the gossip state. -/
inductive GossipOp where
  | setMetrics (counter : Nat)
  | insert (op : InsertOp)
  | getPendingForPeer (peerId : String)
  | peekPendingForPeer (peerId : String) (max : Nat)
  | markDeliveredToPeer (peerId : String) (ids : List String)

def GossipOp.apply (c : Primitives) (g : GossipProtocol) : GossipOp → GossipProtocol
  | .setMetrics counter => g.setMetrics counter
  | .insert op => op.apply c g
  | .getPendingForPeer peerId => (g.getPendingForPeer peerId).2
  | .peekPendingForPeer peerId max => (g.peekPendingForPeer peerId max).2
  | .markDeliveredToPeer peerId ids => g.markDeliveredToPeer peerId ids

theorem addEvent_ok {r : Bool × GossipProtocol} (h : g.addEvent c ord clock event = .ok r) :
    event.validate c clock = .ok () ∧ r = g.insertNew ord event := by
  unfold addEvent at h
  cases hv : event.validate c clock with
  | error err => rw [hv] at h; cases h
  | ok u => rw [hv] at h; cases h; exact ⟨rfl, rfl⟩

theorem addEventWithReputation_ok {rep : ReputationSystem} {r : Bool × GossipProtocol}
    (h : g.addEventWithReputation c ord clock event rep = .ok r) :
    event.validateWithReputation c clock rep = .ok () ∧ r = g.insertNew ord event := by
  unfold addEventWithReputation at h
  cases hv : event.validateWithReputation c clock rep with
  | error err => rw [hv] at h; cases h
  | ok u => rw [hv] at h; cases h; exact ⟨rfl, rfl⟩

theorem addEventWithReputation_of_valid {rep : ReputationSystem} (ord : HashOrder) (g : GossipProtocol)
    (h : event.validateWithReputation c clock rep = .ok ()) :
    g.addEventWithReputation c ord clock event rep = .ok (g.insertNew ord event) := by
  rw [addEventWithReputation, h]
  rfl

/-- Some validator accepted the event. -/
def Admitted (c : Primitives) (e : MeshEvent) : Prop := ∃ clock floor, e.validateWithPowMin c clock floor = .ok ()

/-- **An insertion is refused or is `insertNew` of an event that a validator accepted.** -/
theorem insertOp_spec (c : Primitives) (g : GossipProtocol) (op : InsertOp) :
    op.apply c g = g ∨ Admitted c op.offered ∧ ∃ ord, op.apply c g = (g.insertNew ord op.offered).2 := by
  cases op with
  | addEvent ord clock event =>
    show g.after (g.addEvent c ord clock event) = g ∨ _
    cases h : g.addEvent c ord clock event with
    | error err => exact Or.inl rfl
    | ok r =>
      obtain ⟨hvalid, hr⟩ := addEvent_ok h
      exact Or.inr ⟨⟨clock, _, hvalid⟩, ord, by rw [InsertOp.offered, ← hr, InsertOp.apply, h]; rfl⟩
  | addEventWithReputation ord clock event rep =>
    show g.after (g.addEventWithReputation c ord clock event rep) = g ∨ _
    cases h : g.addEventWithReputation c ord clock event rep with
    | error err => exact Or.inl rfl
    | ok r =>
      obtain ⟨hvalid, hr⟩ := addEventWithReputation_ok h
      exact Or.inr ⟨⟨clock, _, hvalid⟩, ord, by rw [InsertOp.offered, ← hr, InsertOp.apply, h]; rfl⟩
  | receiveEvent ord clock event =>
    show (g.receiveEvent c ord clock event).2 = g ∨ _
    rw [receiveEvent]
    split
    · exact Or.inl rfl
    · next hnew =>
      cases hvalid : event.validate c clock with
      | error err => exact Or.inl rfl
      | ok u => exact Or.inr ⟨⟨clock, _, hvalid⟩, ord, by rw [InsertOp.apply, receiveEvent, if_neg hnew, hvalid]; rfl⟩

/-- An insertion is refused or is `insertNew`. -/
theorem insertOp_cases (c : Primitives) (g : GossipProtocol) (op : InsertOp) :
    op.apply c g = g ∨ ∃ ord event, op.apply c g = (g.insertNew ord event).2 :=
  (insertOp_spec c g op).imp_right fun ⟨_, ord, h⟩ => ⟨ord, op.offered, h⟩

/-- The outbox is distinct and known, and every structure is within its bound. -/
structure Bounded (g : GossipProtocol) : Prop where
  nodup : g.outboxIds.Nodup
  known : ∀ id ∈ g.outboxIds, id ∈ g.knownEvents
  pending_le : g.pendingBroadcasts.length ≤ maxPendingBroadcasts
  known_le : g.knownEvents.card ≤ maxKnownEvents
  delivered_le : ∀ peer, (g.deliveredTo peer).length ≤ maxDeliveredPerPeer

theorem bounded_new : Bounded new :=
  ⟨List.nodup_nil, fun _ h => (List.not_mem_nil h).elim, Nat.zero_le _, Nat.zero_le _, fun _ => Nat.zero_le _⟩

theorem Bounded.insertNew (h : Bounded g) : Bounded (g.insertNew ord event).2 := by
  by_cases hk : event.id ∈ g.knownEvents
  · rw [insertNew_known hk]; exact h
  obtain ⟨_, hp, hd, _, hkeep⟩ := insertNew_new ord hk
  have hids : (g.insertNew ord event).2.outboxIds = pushBounded maxPendingBroadcasts g.outboxIds event.id := by
    rw [outboxIds, hp, map_pushBounded, outboxIds]
  have hnew : event.id ∉ g.outboxIds := fun hmem => hk (h.known _ hmem)
  refine ⟨?_, fun id hid => hkeep id hid ?_, ?_, card_insertNew h.pending_le h.known_le, fun peer => ?_⟩
  · rw [hids]; exact nodup_pushBounded h.nodup hnew
  · rw [hids] at hid
    rcases mem_pushBounded hid with hid | rfl
    · exact Finset.mem_insert_of_mem (h.known _ hid)
    · exact Finset.mem_insert_self _ _
  · rw [hp]; exact length_pushBounded (by decide) h.pending_le _
  · rw [deliveredTo, hd]; exact h.delivered_le peer

theorem Bounded.setMetrics (h : Bounded g) (counter : Nat) : Bounded (g.setMetrics counter) :=
  ⟨h.nodup, h.known, h.pending_le, h.known_le, h.delivered_le⟩

theorem Bounded.insert (h : Bounded g) (op : InsertOp) : Bounded (op.apply c g) := by
  rcases insertOp_cases c g op with he | ⟨ord, event, he⟩
  · rw [he]; exact h
  · rw [he]; exact h.insertNew

theorem Bounded.peek (h : Bounded g) (peer : String) (max : Nat) : Bounded (g.peekPendingForPeer peer max).2 := by
  obtain ⟨hp, hk, hd⟩ := peekPendingForPeer_snd g peer max
  refine ⟨?_, ?_, by rw [hp]; exact h.pending_le, by rw [hk]; exact h.known_le,
    fun p => by rw [hd]; exact h.delivered_le p⟩
  · rw [outboxIds, hp]; exact h.nodup
  · rw [outboxIds, hp, hk]; exact h.known

theorem length_foldl_pushBounded {α : Type} {cap : Nat} (hc : 0 < cap) (ids q : List α) (h : q.length ≤ cap) :
    (ids.foldl (pushBounded cap) q).length ≤ cap := by
  rw [foldl_pushBounded hc ids h]; exact length_rtake_le _ _

theorem Bounded.mark (h : Bounded g) (peer : String) (ids : List String) :
    Bounded (g.markDeliveredToPeer peer ids) := by
  obtain ⟨hp, hk, hd⟩ := markDeliveredToPeer_frame g peer ids
  refine ⟨?_, ?_, by rw [hp]; exact h.pending_le, by rw [hk]; exact h.known_le, fun p => ?_⟩
  · rw [outboxIds, hp]; exact h.nodup
  · rw [outboxIds, hp, hk]; exact h.known
  · by_cases hpp : p = peer
    · subst hpp
      rw [markDeliveredToPeer_self]
      exact length_foldl_pushBounded (by decide) _ _ (h.delivered_le p)
    · rw [hd p hpp]; exact h.delivered_le p

theorem Bounded.apply (h : Bounded g) (op : GossipOp) : Bounded (op.apply c g) := by
  cases op with
  | setMetrics counter => exact h.setMetrics counter
  | insert op => exact h.insert op
  | getPendingForPeer peer => exact (h.peek peer usizeMax).mark peer _
  | peekPendingForPeer peer max => exact h.peek peer max
  | markDeliveredToPeer peer ids => exact h.mark peer ids

/-- **The representation invariant holds after every run, whatever the hash order.** -/
theorem gossip_bounded (c : Primitives) (ops : List GossipOp) : Bounded (ops.foldl (GossipOp.apply c) new) := by
  induction ops using List.reverseRecOn with
  | nil => exact bounded_new
  | append_singleton ops op ih =>
    rw [List.foldl_append]
    exact ih.apply op

end GossipProtocol

end Onde.Protocol

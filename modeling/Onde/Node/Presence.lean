import Onde.Node.HealGrace

/-!
# The presence book

Every admitted event of another node enters its author in the book, and nothing leaves it.

* `contacts`: the peers that a run entered;
* `trackedPeers_eq`: the book of a run has one entry for each of them;
* `tracked_bounded_iff`: it stays within the connections of the configuration exactly when the run met no more peers.
-/

namespace Onde

open Lib Crypto Reputation Protocol

variable {h : Host}

namespace Node

/-- The number of peers in the presence book. -/
def trackedPeers (n : Node h) : Nat := n.peerLastSeen.entries.length

/-- The keys of the book. -/
def tracked (n : Node h) : Finset String := n.peerLastSeen.keys.toFinset

theorem mem_tracked {n : Node h} {peer : String} : peer ∈ n.tracked ↔ peer ∈ n.peerLastSeen := by
  rw [tracked, List.mem_toFinset, AList.mem_keys]

theorem trackedPeers_eq_card (n : Node h) : n.trackedPeers = n.tracked.card := by
  rw [tracked, List.toFinset_card_of_nodup (AList.keys_nodup _)]
  exact (List.length_map _).symm

/-- **A step enters the peer it meets**, and keeps the others. -/
theorem tracked_apply (n : Node h) (t : Traffic) :
    (t.apply n).tracked = n.tracked ∪ (t.contacted n).toList.toFinset := by
  have hseen := (traffic_presence n t).1
  ext peer
  rw [Finset.mem_union, mem_tracked, mem_tracked, hseen]
  cases t.contacted n with
  | none => simp
  | some met => simp [AList.mem_insert, or_comm]

end Node

/-- The peers that a run entered in the book: the foreign authors of the events it admitted, and those whose contact was
noted. -/
def contacts (vs : List (Visit (Node h) Traffic)) : List String := vs.filterMap fun v => v.label.contacted v.state

variable {n₀ n : Node h} {vs : List (Visit (Node h) Traffic)}

theorem contacts_cons {v : Visit (Node h) Traffic} {peer : String} (hmet : v.label.contacted v.state = some peer) :
    contacts (v :: vs) = peer :: contacts vs := List.filterMap_cons_some hmet

/-- **The book of a run holds the peers it met.** -/
theorem tracked_run (hfresh : n₀.peerLastSeen = ∅) (hr : Traffics n₀ vs n) : n.tracked = (contacts vs).toFinset := by
  induction hr with
  | start =>
    rw [Node.tracked, hfresh]
    rfl
  | @visit ws s s' t hw hv ih =>
    obtain rfl : s' = _ := hv
    have hcontacts : contacts (ws ++ [⟨s, t⟩]) = contacts ws ++ (t.contacted s).toList := by
      rw [contacts, List.filterMap_append]
      cases hcon : t.contacted s with
      | none => simp [contacts, hcon]
      | some met => simp [contacts, hcon]
    rw [Node.tracked_apply, ih, hcontacts, List.toFinset_append]
  | @silent ws s s' hw he ih => rw [Node.tracked, he.peerLastSeen, ← Node.tracked, ih]

/-- **The presence book has an entry for every peer the run met.** -/
theorem trackedPeers_run (hfresh : n₀.peerLastSeen = ∅) (hr : Traffics n₀ vs n) :
    n.trackedPeers = (contacts vs).toFinset.card := by
  rw [Node.trackedPeers_eq_card, tracked_run hfresh hr]

/-- A longer run met no fewer peers. -/
theorem contacts_mono {past : List (Visit (Node h) Traffic)} (hpast : past <+: vs) :
    (contacts past).toFinset.card ≤ (contacts vs).toFinset.card := by
  obtain ⟨rest, rfl⟩ := hpast
  refine Finset.card_le_card fun peer hpeer => ?_
  rw [contacts, List.filterMap_append, List.toFinset_append]
  exact Finset.mem_union_left _ hpeer

/-- **In a run of a fresh node the book stays within the connections of the configuration exactly when the run met no
more distinct peers than that.** -/
theorem tracked_bounded_iff (config : NodeConfig) (identity : Identity) (persistence : Option h.MessageDb)
    (socialStore : Option h.SocialDb) (vs : List (Visit (Node h) Traffic)) (n : Node h)
    (hr : Traffics (Node.new config identity persistence socialStore) vs n) :
    (∀ past n', past <+: vs → Traffics (Node.new config identity persistence socialStore) past n' →
      n'.trackedPeers ≤ config.maxPeerConnections.toNat) ↔
      (contacts vs).toFinset.card ≤ config.maxPeerConnections.toNat := by
  constructor
  · intro hbound
    rw [← trackedPeers_run rfl hr]
    exact hbound vs n (List.prefix_refl vs) hr
  · intro hfew past n' hpast hrun
    rw [trackedPeers_run rfl hrun]
    exact (contacts_mono hpast).trans hfew

/-! ## Two keys at a node with one connection -/

namespace Node

variable {c : Call}

/-- A new event that finds room in the window enters its author. -/
theorem contacted_of_room (hroom : n.verdict c.now c.event = .room) :
    (Traffic.receive c).contacted n = some c.event.pubkey := by
  rcases (admitPeerEvent_spec c.env c.now n c.event).admitted with ⟨-, hstop⟩ | ⟨hadmitted, -⟩
  · rw [hroom] at hstop
    cases hstop
  · exact if_pos ⟨hadmitted, (verdict_room hroom).1⟩

/-- A transcription has no handler: beyond the gate it changes neither the gossip nor the reputation. -/
theorem receive_transcription (hroom : n.verdict c.now c.event = .room) (hk : c.event.kind = .transcription) :
    ((Traffic.receive c).apply n).gossip = n.gossip ∧ ((Traffic.receive c).apply n).reputation = n.reputation := by
  rw [Traffic.apply, receivePeerEvent_node_gossip, receivePeerEvent_node_reputation]
  rcases receivePeerEventInner_cases c.env c.now n c.event with ⟨hstop, -⟩ | ⟨-, -, n₁, -, hrep, hgossip, -, -, hr⟩
  · rw [hroom] at hstop
    cases hstop
  · have hroute : n₁.routePeerEvent c.env c.now c.event = ⟨.other, n₁, false, none⟩ := by
      unfold routePeerEvent
      rw [hk]
    rw [hr, hroute]
    exact ⟨hgossip, hrep⟩

end Node

/-- The values behind a transcription signed with each of two keys. -/
def twoKeys : KnownValues where
  keys := knownKeys ++ [("0303030303030303030303030303030303030303030303030303030303030303", knownBeneficiary)]
  digests :=
    [((canonical knownAuthor 1700000000 .transcription [] "OK").render,
      "d7d7cdd2b25a983914fb82561cc1706838c96b336bff11b7cc8f26a041d62bc1"),
     ((canonical knownBeneficiary 1700000000 .transcription [] "OK").render,
      "4cd9134f889b313a607ec2ac7dc2c460197897475961eb9df43be521d978056d")]
  signatures :=
    [(knownAuthor, "d7d7cdd2b25a983914fb82561cc1706838c96b336bff11b7cc8f26a041d62bc1",
      "ced42a0acb05ba0b68dc49ae11034ae750e052be19ff4505b7b7deaad3de2a03" ++
      "5859833157c4dcd9886841282b0f50d3436c434423effdbf0bc186f02749880c"),
     (knownBeneficiary, "4cd9134f889b313a607ec2ac7dc2c460197897475961eb9df43be521d978056d",
      "0568411ef6b7bf2e50cd2def9fd398f57fb8e1fc28cbb411a443fd8d2e012d05" ++
      "669b7100fefdedc9ee192b7ad2afd438e6126f2f26c9842c54501874ea5b6605")]

def twoKeysHost : Host := .ofKnown twoKeys [] []

/-- A configuration for one connection, -/
def narrowConfig : NodeConfig := { NodeConfig.default with maxPeerConnections := 1 }

/-- and its node. -/
def narrowNode : Node twoKeysHost := Node.new narrowConfig (.ofByte 2) none none

/-- A transcription signed with one of the keys, as it is received. -/
def transcriptionCall (key : UInt8) : Call where
  env := .still 1700000000
  now := 1700000000
  event := MeshEvent.newSigned twoKeysHost.toPrimitives (.ofByte key) .transcription "OK" [] 1700000000

theorem transcriptionCall_signed (key : UInt8) :
    (transcriptionCall key).event.signatureValid twoKeysHost.toPrimitives = true :=
  newSigned_signatureValid (Host.ofKnown_lawful _ _ _).primitives (.ofByte key) .transcription "OK" [] 1700000000

theorem transcriptionCall_first : (transcriptionCall 1).event.pubkey = knownAuthor :=
  Identity.pubkeyHex_ofKnown (k := twoKeys) (x := twoKeys.keys[0]) rfl (lowerHex_ofList rfl rfl)

theorem transcriptionCall_second : (transcriptionCall 3).event.pubkey = knownBeneficiary :=
  Identity.pubkeyHex_ofKnown (k := twoKeys) (x := twoKeys.keys[2]) rfl (lowerHex_ofList rfl rfl)

theorem narrow_pubkey : knownAuthor ≠ narrowNode.pubkeyHex ∧ knownBeneficiary ≠ narrowNode.pubkeyHex := by
  have hkey : narrowNode.pubkeyHex = _ :=
    Identity.pubkeyHex_ofKnown (k := twoKeys) (x := twoKeys.keys[1]) rfl (lowerHex_ofList rfl rfl)
  rw [hkey]
  exact ⟨mt String.ofList_inj.mp (by decide), mt String.ofList_inj.mp (by decide)⟩

theorem narrow_first : narrowNode.verdict 1700000000 (transcriptionCall 1).event = .room := by
  refine Node.verdict_clean (transcriptionCall_signed 1) ?_ (Finset.notMem_empty _) rfl ?_
  · rw [transcriptionCall_first]
    exact narrow_pubkey.1
  · exact (by decide : 0 < spamBudgetPerWindow)

/-- The node after the first transcription. -/
def metNode : Node twoKeysHost := (Traffic.receive (transcriptionCall 1)).apply narrowNode

theorem narrow_second : metNode.verdict 1700000000 (transcriptionCall 3).event = .room := by
  obtain ⟨hgossip, hrep⟩ := Node.receive_transcription (c := transcriptionCall 1) narrow_first rfl
  have hid : metNode.pubkeyHex = narrowNode.pubkeyHex :=
    congrArg (Identity.pubkeyHex twoKeysHost.toPrimitives) (Node.receivePeerEvent_spec _ _ _ _).identity
  have hstamps : (metNode.spamGuard.stamps knownBeneficiary).length = 0 := by
    have hsub := Node.stamps_receive (transcriptionCall 1).env (transcriptionCall 1).now narrowNode
      (transcriptionCall 1).event knownBeneficiary
    have hnone : narrowNode.spamGuard.stamps knownBeneficiary = [] := StrMap.getD_empty
    rw [transcriptionCall_first, if_neg fun hsame => absurd hsame.1 (by decide), hnone] at hsub
    exact List.length_eq_zero_iff.mpr (List.sublist_nil.mp hsub)
  refine Node.verdict_clean (transcriptionCall_signed 3) ?_ ?_ ?_ ?_
  · rw [transcriptionCall_second, hid]
    exact narrow_pubkey.2
  · rw [metNode, hgossip]
    exact Finset.notMem_empty _
  · rw [metNode, hrep]
    rfl
  · rw [transcriptionCall_second, hstamps]
    decide

/-- Two transcriptions, signed with two keys. -/
def twoCalls : List (Visit (Node twoKeysHost) Traffic) :=
  [⟨narrowNode, .receive (transcriptionCall 1)⟩, ⟨metNode, .receive (transcriptionCall 3)⟩]

theorem twoCalls_run : Traffics narrowNode twoCalls ((Traffic.receive (transcriptionCall 3)).apply metNode) := by
  have h₁ : Moves (.receive (transcriptionCall 1)) narrowNode metNode := rfl
  have h₂ : Moves (.receive (transcriptionCall 3)) metNode _ := rfl
  exact (Run.start.visit h₁).visit h₂

theorem twoCalls_contacts : contacts twoCalls = [knownAuthor, knownBeneficiary] := by
  have h₁ := Node.contacted_of_room (c := transcriptionCall 1) narrow_first
  have h₂ := Node.contacted_of_room (c := transcriptionCall 3) narrow_second
  rw [transcriptionCall_first] at h₁
  rw [transcriptionCall_second] at h₂
  rw [twoCalls, contacts_cons (v := ⟨narrowNode, .receive (transcriptionCall 1)⟩) h₁,
    contacts_cons (v := ⟨metNode, .receive (transcriptionCall 3)⟩) h₂]
  rfl

/-- **A node with room for one connection tracks two peers.** -/
theorem tracked_unbounded : ¬∀ past n', past <+: twoCalls → Traffics narrowNode past n' →
    n'.trackedPeers ≤ narrowNode.config.maxPeerConnections.toNat := by
  intro hbound
  have hle := hbound twoCalls _ (List.prefix_refl _) twoCalls_run
  rw [trackedPeers_run rfl twoCalls_run, twoCalls_contacts] at hle
  exact absurd hle (by decide)

/-- One peer is within its one connection. -/
theorem tracked_bounded_first :
    (∀ past n', past <+: [⟨narrowNode, .receive (transcriptionCall 1)⟩] → Traffics narrowNode past n' →
      n'.trackedPeers ≤ narrowNode.config.maxPeerConnections.toNat) ∧
    (contacts [⟨narrowNode, .receive (transcriptionCall 1)⟩]).toFinset.card = 1 := by
  have h₁ : Moves (.receive (transcriptionCall 1)) narrowNode metNode := rfl
  have hcontacts : contacts [⟨narrowNode, .receive (transcriptionCall 1)⟩] = [knownAuthor] := by
    have h₂ := Node.contacted_of_room (c := transcriptionCall 1) narrow_first
    rw [transcriptionCall_first] at h₂
    rw [contacts_cons (v := ⟨narrowNode, .receive (transcriptionCall 1)⟩) h₂]
    rfl
  have hrun : Traffics narrowNode [⟨narrowNode, .receive (transcriptionCall 1)⟩] metNode := Run.start.visit h₁
  refine ⟨(tracked_bounded_iff narrowConfig (.ofByte 2) none none _ metNode hrun).mpr ?_, ?_⟩
  · exact (congrArg (fun peers => peers.toFinset.card) hcontacts).le
  · exact congrArg (fun peers => peers.toFinset.card) hcontacts

end Onde

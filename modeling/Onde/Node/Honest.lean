import Onde.Node.Framing
import Onde.Node.Publish

/-!
# Is honest traffic ever penalised?

Two nodes with clocks at most four minutes apart: one publishes through its entry points, the other receives what was
published, each event any number of times and in any order.

* `Net`, `Delivers`, `Quietly`: the two nodes and their runs;
* `tolerated_iff`: in every run, a delivery is not penalised exactly when it is `Tolerated`;
* `honest_iff`: a run of tolerated deliveries leaves the author without an abuse record;
* `stranger_penalised`: an author that trusts itself pays no proof of work, and a fresh node penalises it.
-/

namespace Onde

open Lib Crypto Reputation Protocol Social

variable {h : Host}

/-- The most two clocks differ, in seconds. -/
def clockGapSecs : Nat := 240

/-- An author, another node, their clocks, and what the author has published. -/
structure Net (h : Host) where
  author : Node h
  peer : Node h
  authorClock : Nat
  peerClock : Nat
  published : List MeshEvent

/-- The clocks are at most four minutes apart. -/
def Net.Near (net : Net h) : Prop :=
  net.authorClock ≤ net.peerClock + clockGapSecs ∧ net.peerClock ≤ net.authorClock + clockGapSecs

/-- The other node receives an event as it was published. -/
inductive Delivers (c : Call) (net : Net h) : Net h → Prop
  | deliver (hmem : c.event ∈ net.published) (hclock : c.env.clock = net.peerClock) :
    Delivers c net { net with peer := (net.peer.receivePeerEvent c.env c.now c.event).node }

/-- What happens between deliveries: time goes on, the author publishes, and both nodes do anything else that keeps
their keys and what the other node holds against the author. -/
inductive Quietly (net : Net h) : Net h → Prop
  | tick {authorClock peerClock : Nat} (ha : net.authorClock ≤ authorClock) (hp : net.peerClock ≤ peerClock)
    (hnear : { net with authorClock := authorClock, peerClock := peerClock : Net h }.Near) :
    Quietly net { net with authorClock := authorClock, peerClock := peerClock }
  | publish {env : Env} {p : Publication} {event : MeshEvent} {author : Node h} (hclock : env.clock = net.authorClock)
    (hp : net.author.publish env p = .ok (event, author)) :
    Quietly net { net with author := author, published := net.published ++ [event] }
  | author {author : Node h} (hid : author.identity = net.author.identity) : Quietly net { net with author := author }
  | peer {peer : Node h} (hid : peer.identity = net.peer.identity)
    (habuse : peer.reputation.abuse.lookup net.author.pubkeyHex =
      net.peer.reputation.abuse.lookup net.author.pubkeyHex) : Quietly net { net with peer := peer }

/-- The runs of the two nodes, with the deliveries they took. -/
abbrev NetRun (net₀ : Net h) (vs : List (Visit (Net h) Call)) (net : Net h) : Prop :=
  Run Delivers Quietly net₀ vs net

/-- A delivery the other node lets pass: the event is its own, known or within the budget, and an alert or a social
event has the proof of work this node asks of its author, and a content it reads; or it is new and its author
ignored. -/
def Tolerated (now : Nat) (n : Node h) (event : MeshEvent) : Prop :=
  ((event.pubkey = n.pubkeyHex ∨ event.id ∈ n.gossip.knownEvents ∨ n.HasRoom now event.pubkey) ∧
    (event.kind = .alert ∨ event.kind.isSocial = true →
      n.reputation.requiredPowDifficulty event.pubkey ≤ event.powDifficulty) ∧
    (event.kind.isSocial = true → event.content.utf8ByteSize ≤ socialPostMaxBytes)) ∨
  (event.pubkey ≠ n.pubkeyHex ∧ event.id ∉ n.gossip.knownEvents ∧
    n.reputation.actionFor event.pubkey now = .ignore)

namespace Node

variable {env : Env} {now clock : Nat} {n : Node h} {event : MeshEvent} {author : String}

/-! ## One delivery -/

/-- A published event is in time for a clock at most four minutes behind. -/
theorem published_checkSigned (hp : Published h author clock event) (hle : clock ≤ env.clock + clockGapSecs) :
    event.checkSigned h.toPrimitives env.clock = .ok () := by
  obtain ⟨hsize, _, hid, hsig⟩ := checkSigned_ok.mp hp.signed
  refine checkSigned_ok.mpr ⟨hsize, ?_, hid, hsig⟩
  rintro ⟨_, hskew⟩
  have hrecent := hp.recent
  simp only [clockGapSecs, maxClockSkewSecs] at hle hskew
  omega

theorem published_valid (hp : Published h author clock event) (hle : clock ≤ env.clock + clockGapSecs) :
    event.validateWithReputation h.toPrimitives env.clock n.reputation = .ok () ↔
      n.reputation.requiredPowDifficulty event.pubkey ≤ event.powDifficulty := by
  constructor
  · intro hv
    exact (checkPow_ok.mp (validateWithPowMin_ok.mp hv).2).1
  · intro hfloor
    exact validateWithPowMin_ok.mpr ⟨published_checkSigned hp hle, checkPow_ok.mpr ⟨hfloor, hp.pow⟩⟩

/-- The payload of a post or a comment is read only within the bound. -/
theorem published_payload (hp : Published h author clock event) (hs : event.kind.isSocial = true) :
    (∃ effect, socialPayload h event = .ok effect) ↔ event.content.utf8ByteSize ≤ socialPostMaxBytes := by
  refine ⟨?_, hp.payload hs⟩
  rintro ⟨effect, he⟩
  unfold socialPayload at he
  rcases hp.kind with hk | hk | hk | hk
  · rw [hk] at hs
    cases hs
  · rw [hk] at hs
    cases hs
  · rw [hk] at he
    obtain ⟨_, hbound, _⟩ := bind_eq_ok.mp he
    exact checkSocialPayloadSize_ok.mp hbound
  · rw [hk] at he
    obtain ⟨_, hbound, _⟩ := bind_eq_ok.mp he
    exact checkSocialPayloadSize_ok.mp hbound

/-- **The dispatcher penalises a published event for its proof of work and its size only.** -/
theorem published_routeViolation (hp : Published h author clock event) (hle : clock ≤ env.clock + clockGapSecs) :
    n.routeViolation env event = none ↔
      (event.kind = .alert ∨ event.kind.isSocial = true →
        n.reputation.requiredPowDifficulty event.pubkey ≤ event.powDifficulty) ∧
      (event.kind.isSocial = true → event.content.utf8ByteSize ≤ socialPostMaxBytes) := by
  rw [routeViolation_none, published_valid hp hle]
  constructor
  · rintro ⟨halert, _, hsocial⟩
    refine ⟨?_, fun hs => (published_payload hp hs).mp (hsocial hs).1⟩
    rintro (hk | hk)
    · exact halert hk
    · exact (hsocial hk).2
  · rintro ⟨hfloor, hsize⟩
    refine ⟨fun hk => hfloor (Or.inl hk), ?_, fun hs => ⟨(published_payload hp hs).mpr (hsize hs), hfloor (Or.inr hs)⟩⟩
    intro hk
    rcases hp.kind with hk' | hk' | hk' | hk' <;> rw [hk'] at hk <;> cases hk

/-- A published event is not penalised exactly when its delivery is tolerated. -/
theorem published_violation (hp : Published h author clock event) (hle : clock ≤ env.clock + clockGapSecs) :
    (n.receivePeerEvent env now event).violation = none ↔ Tolerated now n event := by
  have hs : event.signatureValid h.toPrimitives = true := (checkSigned_ok.mp hp.signed).2.2.2
  rw [(receivePeerEvent_spec env now n event).violation, Tolerated, ← published_routeViolation hp hle,
    ← verdict_ignored hs]
  cases hv : n.verdict now event with
  | unsigned =>
    rw [verdict_unsigned, hs] at hv
    cases hv
  | own =>
    have hown := (verdict_own hs).mp hv
    simp [hown, Verdict.passes]
  | known =>
    have hknown := ((verdict_known hs).mp hv).2
    simp [hknown, Verdict.passes]
  | ignored => simp [Verdict.passes]
  | room =>
    obtain ⟨_, _, hroom⟩ := verdict_room hv
    simp [hroom, Verdict.passes]
  | full =>
    obtain ⟨ho, hk, hroom⟩ := verdict_full hv
    simp [ho, hk, hroom]

end Node

/-! ## Runs -/

section
variable {net₀ net : Net h} {vs : List (Visit (Net h) Call)}

/-- What every run keeps: the key of the author, the clocks, and that everything published is. -/
structure NetInv (net₀ net : Net h) : Prop where
  identity : net.author.identity = net₀.author.identity
  near : net.Near
  published : ∀ event ∈ net.published, Published h net₀.author.pubkeyHex net.authorClock event

theorem NetInv.pubkeyHex (hi : NetInv net₀ net) : net.author.pubkeyHex = net₀.author.pubkeyHex := by
  rw [Node.pubkeyHex, Node.pubkeyHex, hi.identity]

theorem netInv_delivers {c : Call} {net' : Net h} (hi : NetInv net₀ net) (hd : Delivers c net net') :
    NetInv net₀ net' := by
  cases hd with
  | deliver _ _ => exact ⟨hi.identity, hi.near, hi.published⟩

theorem netInv_quietly (hl : h.Lawful) {net' : Net h} (hi : NetInv net₀ net) (hq : Quietly net net') :
    NetInv net₀ net' := by
  cases hq with
  | tick ha _ hnear => exact ⟨hi.identity, hnear, fun event hmem => (hi.published event hmem).mono ha⟩
  | @publish env p event author hclock hp =>
    obtain ⟨hpub, _, hid⟩ := Node.publish_ok hl hp
    rw [hi.pubkeyHex, hclock] at hpub
    refine ⟨hid.trans hi.identity, hi.near, ?_⟩
    intro e hmem
    rcases List.mem_append.mp hmem with hold | hnew
    · exact hi.published e hold
    · rw [List.mem_singleton.mp hnew]
      exact hpub
  | author hid => exact ⟨hid.trans hi.identity, hi.near, hi.published⟩
  | peer _ _ => exact ⟨hi.identity, hi.near, hi.published⟩

/-- **In every run a delivery is not penalised exactly when it is tolerated.** -/
theorem tolerated_iff {c : Call} {net' : Net h} (hi : NetInv net₀ net) (hd : Delivers c net net') :
    c.event.pubkey = net₀.author.pubkeyHex ∧
      ((net.peer.receivePeerEvent c.env c.now c.event).violation = none ↔ Tolerated c.now net.peer c.event) := by
  cases hd with
  | deliver hmem hclock =>
    have hp := hi.published _ hmem
    refine ⟨hp.pubkey, Node.published_violation hp ?_⟩
    rw [hclock]
    exact hi.near.1

/-- A run of tolerated deliveries records nothing against the author. -/
theorem clean_run (hl : h.Lawful) (hi : NetInv net₀ net₀)
    (hclean : net₀.peer.reputation.abuse.lookup net₀.author.pubkeyHex = none) (hr : NetRun net₀ vs net)
    (htol : ∀ v ∈ vs, Tolerated v.label.now v.state.peer v.label.event) :
    NetInv net₀ net ∧ net.peer.reputation.abuse.lookup net₀.author.pubkeyHex = none := by
  induction hr with
  | start => exact ⟨hi, hclean⟩
  | @visit ws s s' c hw hd ih =>
    obtain ⟨hinv, hnone⟩ := ih fun v hmem => htol v (List.mem_append_left _ hmem)
    obtain ⟨hauthor, hiff⟩ := tolerated_iff hinv hd
    have hviol := hiff.mpr (htol ⟨s, c⟩ (List.mem_append_right _ (List.mem_singleton_self _)))
    refine ⟨netInv_delivers hinv hd, ?_⟩
    cases hd with
    | deliver _ _ =>
      have habuse := Node.receivePeerEvent_abuse hviol
      rw [hauthor] at habuse
      exact habuse.trans hnone
  | silent _ hq ih =>
    obtain ⟨hinv, hnone⟩ := ih htol
    refine ⟨netInv_quietly hl hinv hq, ?_⟩
    cases hq with
    | peer _ habuse =>
      rw [hinv.pubkeyHex] at habuse
      exact habuse.trans hnone
    | tick _ _ _ => exact hnone
    | publish _ _ => exact hnone
    | author _ => exact hnone

/-- **When honest traffic is not penalised.** In every run of an author and another node with clocks at most four
minutes apart: a delivery records no violation exactly when it is `Tolerated`; and if every delivery of the run is, a
node that held nothing against the author at first never does. -/
theorem honest_iff (hl : h.Lawful) (hnear : net₀.Near) (hempty : net₀.published = [])
    (hclean : net₀.peer.reputation.abuse.lookup net₀.author.pubkeyHex = none) (hr : NetRun net₀ vs net) :
    (∀ v ∈ vs, (v.state.peer.receivePeerEvent v.label.env v.label.now v.label.event).violation = none ↔
      Tolerated v.label.now v.state.peer v.label.event) ∧
    ((∀ v ∈ vs, Tolerated v.label.now v.state.peer v.label.event) →
      net.peer.reputation.abuse.lookup net₀.author.pubkeyHex = none ∧
        ∀ now, net.peer.reputation.abuseLevel net₀.author.pubkeyHex now = 0) := by
  have hi : NetInv net₀ net₀ := ⟨rfl, hnear, by rw [hempty]; simp⟩
  constructor
  · intro v hmem
    have hinv : NetInv net₀ v.state := Run.visited (I := NetInv net₀) hi
      (fun _ _ _ hinv hd => netInv_delivers hinv hd) (fun _ _ hinv hq => netInv_quietly hl hinv hq) hr hmem
    obtain ⟨_, hd⟩ := hr.taken hmem
    exact (tolerated_iff hinv hd).2
  · intro htol
    obtain ⟨_, hnone⟩ := clean_run hl hi hclean hr htol
    refine ⟨hnone, fun now => ?_⟩
    rw [ReputationSystem.abuseLevel, hnone]
    rfl

end

/-! ## Two fresh nodes -/

/-- The author, fresh: it trusts itself. -/
def authorNode : Node knownHost := Node.new .default (.ofByte 1) none none

/-- It publishes an alert without proof of work. -/
theorem author_publishes : ∃ author, authorNode.publish (.still 1700000000) (.alert "OK") =
    .ok (knownEvent .alert, author) := by
  have hfloor : authorNode.reputation.requiredPowDifficulty authorNode.pubkeyHex = 0 :=
    Node.new_floor .default (.ofByte 1) none none
  have hpow : (knownEvent .alert).checkPow knownHost.toPrimitives 0 = .ok () :=
    checkPow_ok.mpr ⟨UInt8.le_refl 0, verifyPow_zero knownHost.toPrimitives (knownEvent .alert).id 0⟩
  have hv : (knownEvent .alert).validateWithReputation knownHost.toPrimitives 1700000000 authorNode.reputation =
      .ok () := by
    have hkey : (knownEvent .alert).pubkey = authorNode.pubkeyHex := rfl
    rw [MeshEvent.validateWithReputation, hkey, hfloor]
    exact validateWithPowMin_ok.mpr ⟨knownEvent_checkSigned .alert, hpow⟩
  have htime : (Env.still 1700000000).fuzzyTimestampSecs = 1700000000 := by decide +kernel
  have hsigned : authorNode.publishSigned (.still 1700000000)
      (MeshEvent.newSigned knownHost.toPrimitives (.ofByte 1) .alert "OK" [] 1700000000) "PoW computation failed" =
      .ok (knownEvent .alert, _) := Node.publishSigned_trusted _ hfloor hv
  rw [← htime] at hsigned
  unfold Node.publish Node.publishAlert
  exact ⟨_, Node.publishText_of_signed "Alert" (by decide) (by decide +kernel) hsigned⟩

/-- **A fresh node penalises the alert of an author that trusts itself.** -/
theorem stranger_penalised :
    (∃ author, authorNode.publish (.still 1700000000) (.alert "OK") = .ok (knownEvent .alert, author)) ∧
    strangerNode.reputation.abuse.lookup authorNode.pubkeyHex = none ∧
    (strangerNode.receivePeerEvent (.still 1700000000) 1700000000 (knownEvent .alert)).violation =
      some .insufficientPow :=
  ⟨author_publishes, rfl, stranger_violation⟩

/-- A node that trusts the author does not. -/
theorem trusting_clean : (trustingNode.receivePeerEvent (.still 1700000000) 1700000000
    (knownEvent .alert)).node.reputation.abuseLevel authorNode.pubkeyHex 1700000000 = 0 := by
  obtain ⟨author, hp⟩ := author_publishes
  have hpublished : NetRun ⟨authorNode, trustingNode, 1700000000, 1700000000, []⟩ []
      ⟨author, trustingNode, 1700000000, 1700000000, [knownEvent .alert]⟩ := .silent .start (.publish rfl hp)
  have hdelivers : Delivers ⟨.still 1700000000, 1700000000, knownEvent .alert⟩ (⟨author, trustingNode, 1700000000,
      1700000000, [knownEvent .alert]⟩ : Net knownHost) _ := .deliver (List.mem_singleton_self (knownEvent .alert)) rfl
  have hrun := hpublished.visit hdelivers
  have htol : Tolerated 1700000000 trustingNode (knownEvent .alert) := by
    refine Or.inl ⟨Or.inr (Or.inr (Node.verdict_room (trusting_verdict _ _)).2.2), fun _ => ?_, fun hs => nomatch hs⟩
    rw [trusting_floor]
    exact UInt8.zero_le
  obtain ⟨_, hclean⟩ := honest_iff knownHost_lawful ⟨by decide, by decide⟩ rfl rfl hrun
  have hall : ∀ v ∈ [(⟨⟨author, trustingNode, 1700000000, 1700000000, [knownEvent .alert]⟩,
      ⟨.still 1700000000, 1700000000, knownEvent .alert⟩⟩ : Visit (Net knownHost) Call)],
      Tolerated v.label.now v.state.peer v.label.event := by
    intro v hmem
    rw [List.mem_singleton.mp hmem]
    exact htol
  have hlevel := (hclean hall).2 1700000000
  dsimp only at hlevel
  exact hlevel

end Onde

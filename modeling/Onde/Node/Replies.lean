import Onde.Node.ChunkRequests
import Onde.Node.Signing

/-!
# What the update handlers publish

An event of an update makes a node publish at most one event of its own.

* `reply`: the kind, the content and the tags of that event, by the outcome;
* `published`: the event itself; nothing else enters the outbox (`handleIncomingUpdate_gossip`);
* `tagGet_skip`, `parseIndex_text`: the tags of an event give back what they were built from.
-/

namespace Onde

open Lib Crypto Reputation Protocol Update

/-! ## Tags -/

/-- The tags before the one that is looked for are passed over. -/
theorem tagGet_skip {key other value : String} {rest : List (String × String)} {c d : Char} {cs ds : List Char}
    (hkey : key.toList = c :: cs) (hother : other.toList = d :: ds) (hne : c ≠ d) :
    tagGet (buildTags ((other, value) :: rest)) key = tagGet (buildTags rest) key := by
  have hnone : afterHead (toString key ++ "=") (toString other ++ "=" ++ toString value) = none := by
    have hhead : (toString key ++ "=").toList = c :: (cs ++ "=".toList) := by
      rw [String.toList_append]
      exact congrArg (· ++ "=".toList) hkey
    have htext : (toString other ++ "=" ++ toString value).toList = d :: (ds ++ "=".toList ++ value.toList) := by
      rw [String.toList_append, String.toList_append]
      exact congrArg (· ++ "=".toList ++ value.toList) hother
    exact afterHead_of_ne hhead htext hne
  show ((toString other ++ "=" ++ toString value) :: buildTags rest).findSome?
    (afterHead (toString key ++ "=")) = _
  rw [List.findSome?_cons, hnone]
  rfl

/-- An index is read back from its text. -/
theorem parseIndex_text (index : UInt32) : parseIndex (toString index) = some index := by
  have hle : index.toNat ≤ 4294967295 := Nat.le_of_lt_succ index.toNat_lt
  have hread : parseUnsigned 4294967295 (toString index).toList = some index.toNat := parseUnsigned_repr hle
  rw [parseIndex, hread, Option.map_some, UInt32.ofNat_toNat]

namespace UpdateNode

variable {u : UpdateHost} {n n' : UpdateNode u} {env : UpdateEnv} {event e : MeshEvent}

/-! ## Replies -/

/-- What a node signs when it has handled an event: the kind, the content and the tags, by the outcome. -/
def reply (n : UpdateNode u) (event : MeshEvent) :
    UpdateHandlingOutcome → Option (OndeMessageType × String × List (String × String))
  | .announcementRequested => some (.updateRequest, "", [(tagReqType, "manifest"), (tagTo, event.pubkey)])
  | .manifestRequested => n.pendingAnnouncement.map fun announcement => (.updateRequest, "",
      [(tagReqType, "chunk"), (tagTo, event.pubkey), (tagIndex, "0"), (tagVersion, announcement.version.text)])
  | .chunkRequested next => some (.updateRequest, "",
      [(tagReqType, "chunk"), (tagTo, event.pubkey), (tagIndex, toString next)])
  | .manifestServed => n.updateOffer.map fun offer => (.updateManifest, u.base64Encode offer.manifestWire,
      [(tagRootSig, hexEncode offer.manifestSignature.1), (tagVersion, offer.version.text), (tagPeer, n.pubkeyHex)])
  | .chunkServed index => n.updateOffer.bind fun offer =>
    (UpdateProtocol.chunk offer.apk index offer.chunkSize.toNat).map fun data =>
      (.updateChunk, u.base64Encode data, [(tagIndex, toString index),
        (tagTotal, toString (UpdateProtocol.chunkCount offer.apk.length offer.chunkSize.toNat)),
        (tagPeer, n.pubkeyHex)])
  | .ignored | .installed _ | .rejected _ => none

/-- The event a node has published after an outcome. -/
def publishedBy (env : UpdateEnv) (n : UpdateNode u) (event : MeshEvent) :
    Except String UpdateHandlingOutcome → Option MeshEvent
  | .error _ => none
  | .ok outcome => (n.reply event outcome).bind fun r =>
    ((n.publishGossipEvent env r.1 r.2.1 r.2.2).toOption).map Prod.fst

/-- The event a node publishes when it handles an event. -/
def published (env : UpdateEnv) (n : UpdateNode u) (event : MeshEvent) : Option MeshEvent :=
  n.publishedBy env event (n.handleIncomingUpdate env event).1

/-- An event is the signed form of a reply. -/
structure Carries (n : UpdateNode u) (e : MeshEvent) (r : OndeMessageType × String × List (String × String)) :
    Prop where
  kind : e.kind = r.1
  content : e.content = r.2.1
  tags : e.tags = buildTags r.2.2
  pubkey : e.pubkey = n.pubkeyHex

/-- What is published carries what it was made of, and enters the outbox. -/
theorem publishGossipEvent_ok {kind : OndeMessageType} {content : String} {tags : List (String × String)}
    (hp : n.publishGossipEvent env kind content tags = .ok (e, n')) :
    n.Carries e (kind, content, tags) ∧ n'.gossip = (n.gossip.insertNew env.order e).2 ∧
      n' = { n with toNode := n'.toNode } ∧ n'.reputation = n.reputation ∧ n'.identity = n.identity := by
  obtain ⟨⟨e', node⟩, hsigned, heq⟩ := bind_eq_ok.mp hp
  cases heq
  obtain ⟨⟨nonce, rfl⟩, -, hid⟩ := Node.publishSigned_ok hsigned
  obtain ⟨gossip, hframe⟩ := Node.publishSigned_frame hsigned
  refine ⟨⟨rfl, rfl, rfl, rfl⟩, Node.publishSigned_gossip hsigned, rfl, ?_, hid⟩
  rw [hframe]

/-- Publishing reads nothing of the update protocol. -/
theorem publishGossipEvent_congr {m m' : UpdateNode u} (hm : m.toNode = n.toNode) {kind : OndeMessageType}
    {content : String} {tags : List (String × String)}
    (hp : m.publishGossipEvent env kind content tags = .ok (e, m')) :
    ∃ n', n.publishGossipEvent env kind content tags = .ok (e, n') ∧ n'.toNode = m'.toNode := by
  obtain ⟨⟨e', node⟩, hsigned, heq⟩ := bind_eq_ok.mp hp
  cases heq
  rw [hm] at hsigned
  exact ⟨_, bind_eq_ok.mpr ⟨_, hsigned, rfl⟩, rfl⟩

/-- What an outcome leaves in the outbox: what was published, and nothing else. -/
def Leaves (env : UpdateEnv) (n : UpdateNode u) (event : MeshEvent)
    (r : Except String UpdateHandlingOutcome × UpdateNode u) : Prop :=
  r.2.gossip = match n.publishedBy env event r.1 with
    | none => n.gossip
    | some e => (n.gossip.insertNew env.order e).2

/-- An outcome with no reply leaves the outbox alone. -/
theorem leaves_none {r : Except String UpdateHandlingOutcome × UpdateNode u}
    (hr : ∀ outcome, r.1 = .ok outcome → n.reply event outcome = none) (hg : r.2.gossip = n.gossip) :
    n.Leaves env event r := by
  have hnone : n.publishedBy env event r.1 = none := by
    cases hout : r.1 with
    | error err => rfl
    | ok outcome => rw [publishedBy, hr outcome hout, Option.bind_none]
  rw [Leaves, hnone, hg]

/-- An answer leaves the reply of its outcome. -/
theorem leaves_answer {m : UpdateNode u} (hm : m.toNode = n.toNode) {kind : OndeMessageType} {content : String}
    {tags : List (String × String)} {outcome : UpdateHandlingOutcome}
    (hr : n.reply event outcome = some (kind, content, tags)) :
    n.Leaves env event (m.answer env kind content tags outcome) := by
  unfold answer
  cases hp : m.publishGossipEvent env kind content tags with
  | error err =>
    show m.gossip = _
    rw [hm]
    rfl
  | ok r =>
    obtain ⟨e, m'⟩ := r
    obtain ⟨n', hn, hsame⟩ := publishGossipEvent_congr hm hp
    have hsome : n.publishedBy env event (.ok outcome) = some e := by
      rw [publishedBy, hr, Option.bind_some, hn]
      rfl
    show m'.gossip = _
    rw [hsome, ← hsame]
    exact (publishGossipEvent_ok hn).2.1

/-- The end of a transfer publishes nothing. -/
theorem finishTransfer_leaves {m : UpdateNode u} (hm : m.toNode = n.toNode) :
    n.Leaves env event (m.finishTransfer env) := by
  have hnone : ∀ outcome, (m.finishTransfer env).1 = .ok outcome → n.reply event outcome = none := by
    unfold finishTransfer
    dsimp only
    split
    · rintro _ ⟨⟩
      rfl
    split
    · nofun
    · rintro _ ⟨⟩
      rfl
  refine leaves_none hnone ?_
  unfold finishTransfer
  dsimp only
  split
  · rw [hm]
  split <;> rw [hm]

/-- **The outbox gets what is published, and nothing else.** -/
theorem handleIncomingUpdate_gossip (env : UpdateEnv) (n : UpdateNode u) (event : MeshEvent) :
    (n.handleIncomingUpdate env event).2.gossip = match n.published env event with
      | none => n.gossip
      | some e => (n.gossip.insertNew env.order e).2 := by
  show n.Leaves env event (n.handleIncomingUpdate env event)
  have herror : ∀ err, n.Leaves env event (.error err, n) := fun err => leaves_none nofun rfl
  have hrejected : ∀ reason, n.Leaves env event (.ok (.rejected reason), n) :=
    fun reason => leaves_none (by rintro _ ⟨⟩; rfl) rfl
  have hignored : n.Leaves env event (.ok .ignored, n) := leaves_none (by rintro _ ⟨⟩; rfl) rfl
  unfold handleIncomingUpdate
  split
  · unfold onUpdateAnnounce
    split
    · exact herror _
    dsimp only
    split
    · exact hrejected _
    · refine leaves_answer ?_ ?_
      · rfl
      · rfl
  · unfold onUpdateManifest
    split
    · exact herror _
    next announcement hann =>
    split
    · exact herror _
    dsimp only
    split
    · exact hrejected _
    · refine leaves_answer ?_ ?_
      · rfl
      · rw [reply, hann, Option.map_some]
  · unfold onUpdateChunk
    split
    · exact herror _
    split
    · exact herror _
    split
    · exact herror _
    split
    · exact hrejected _
    dsimp only
    split
    · refine leaves_answer ?_ ?_
      · rfl
      · rfl
    · exact finishTransfer_leaves rfl
  · unfold onUpdateRequest
    dsimp only
    split
    · exact hignored
    split
    · exact herror _
    next offer hoffer =>
    split
    · refine leaves_answer rfl ?_
      rw [reply, hoffer, Option.map_some]
    split
    · split
      · exact herror _
      split
      · exact herror _
      split
      · exact herror _
      next data hdata =>
        refine leaves_answer rfl ?_
        rw [reply, hoffer, Option.bind_some, hdata, Option.map_some]
    · exact herror _
  · exact hignored

/-- An answer leaves the offer as it was. -/
theorem answer_offer (n : UpdateNode u) (env : UpdateEnv) (kind : OndeMessageType) (content : String)
    (tags : List (String × String)) (outcome : UpdateHandlingOutcome) :
    (n.answer env kind content tags outcome).2.updateOffer = n.updateOffer := by
  unfold answer
  cases hp : n.publishGossipEvent env kind content tags with
  | error err => rfl
  | ok r =>
    obtain ⟨-, -, hframe, -, -⟩ := publishGossipEvent_ok hp
    show r.2.updateOffer = n.updateOffer
    rw [hframe]

/-- A node that asks nothing of itself can publish. -/
theorem publishGossipEvent_trusting (hl : u.toPrimitives.Lawful)
    (hfloor : n.reputation.requiredPowDifficulty n.pubkeyHex = 0) {kind : OndeMessageType} (hk : kind ≠ .alert)
    (env : UpdateEnv) (content : String) (tags : List (String × String)) :
    ∃ e n', n.publishGossipEvent env kind content tags = .ok (e, n') := by
  have hout := (answer_trusting hl hfloor hk env content tags .ignored).1
  unfold answer at hout
  cases hp : n.publishGossipEvent env kind content tags with
  | error err =>
    rw [hp] at hout
    cases hout
  | ok r => exact ⟨r.1, r.2, rfl⟩

/-- What a handler that answered has done. -/
structure Answered (env : UpdateEnv) (n : UpdateNode u) (event : MeshEvent) (m : UpdateNode u)
    (outcome : UpdateHandlingOutcome) (r : OndeMessageType × String × List (String × String)) : Prop where
  outcome : (n.handleIncomingUpdate env event).1 = .ok outcome
  same : SameSelf m (n.handleIncomingUpdate env event).2
  offer : (n.handleIncomingUpdate env event).2.updateOffer = m.updateOffer
  published : ∃ e, n.published env event = some e ∧ n.Carries e r

/-- **A handler that answers publishes the reply**, if the node asks nothing of itself. -/
theorem answered (hl : u.toPrimitives.Lawful) (hfloor : n.reputation.requiredPowDifficulty n.pubkeyHex = 0)
    {m : UpdateNode u} (hm : m.toNode = n.toNode) {kind : OndeMessageType} (hk : kind ≠ .alert) {content : String}
    {tags : List (String × String)} {outcome : UpdateHandlingOutcome}
    (hh : n.handleIncomingUpdate env event = m.answer env kind content tags outcome)
    (hr : n.reply event outcome = some (kind, content, tags)) :
    Answered env n event m outcome (kind, content, tags) := by
  have hfloor' : m.reputation.requiredPowDifficulty m.pubkeyHex = 0 := by rwa [Node.pubkeyHex, hm]
  obtain ⟨hout, hsame⟩ := answer_trusting hl hfloor' hk env content tags outcome
  have hout' : (n.handleIncomingUpdate env event).1 = .ok outcome := by rw [hh, hout]
  refine ⟨hout', hh ▸ hsame, hh ▸ m.answer_offer env kind content tags outcome, ?_⟩
  obtain ⟨e, n', hp⟩ := publishGossipEvent_trusting hl hfloor hk env content tags
  refine ⟨e, ?_, (publishGossipEvent_ok hp).1⟩
  rw [UpdateNode.published, hout', publishedBy, hr, Option.bind_some, hp]
  rfl

/-- A handler that failed, or refused, has published nothing. -/
theorem published_none (hr : ∀ outcome, (n.handleIncomingUpdate env event).1 = .ok outcome →
    n.reply event outcome = none) : n.published env event = none := by
  rw [published]
  cases hout : (n.handleIncomingUpdate env event).1 with
  | error err => rfl
  | ok outcome => rw [publishedBy, hr outcome hout, Option.bind_none]

end UpdateNode

end Onde

import Onde.Node.Publish
import Onde.Update.Authentic
import Onde.Update.Versions

/-!
# Updates over the gossip

* `UpdateNode`: the node with its update protocol, the announcement it has accepted, and the update it offers;
* `handleIncomingUpdate`: what an event of one of the four kinds does; `Effect` says it in terms of the protocol
  (`handleIncomingUpdate_effect`);
* `announceUpdate_step`: announcing an update of one's own is one of the steps elsewhere;
* `update_no_downgrade`: in every run what is announced, transferred or installed is newer than the current version;
* `update_backed`: and the root key signed what is installed.
-/

namespace Onde

open Lib Crypto Reputation Protocol Update

/-- What the update handlers take from outside besides. -/
structure UpdateHost extends Host where
  base64Encode : Bytes → String
  tempPath : String → String

/-- What a call reads from its surroundings: whether a file can be written, too. -/
structure UpdateEnv extends Env where
  write : String → Bytes → Except String Unit

/-- An update this node distributes. -/
structure UpdateOffer where
  version : Version
  apk : Bytes
  manifestWire : Bytes
  manifestSignature : ByteArr 64
  chunkSize : UInt32

/-- The node with what it keeps about updates. -/
structure UpdateNode (u : UpdateHost) extends Node u.toHost where
  updateProtocol : UpdateProtocol
  updateRootSigning : Option Identity
  pendingAnnouncement : Option UpdateAnnouncement
  updateOffer : Option UpdateOffer

inductive UpdateHandlingOutcome where
  | ignored
  | announcementRequested
  | manifestRequested
  | chunkRequested (index : UInt32)
  | installed (version : Version)
  | manifestServed
  | chunkServed (index : UInt32)
  | rejected (reason : String)
  deriving DecidableEq

/-! ## Tags -/

def tagRootSig : String := "root_sig"
def tagPeer : String := "peer"
def tagTo : String := "to"
def tagVersion : String := "version"
def tagIndex : String := "index"
def tagTotal : String := "total"
def tagReqType : String := "req_type"

/-- The value of the first tag with a key. -/
def tagGet (tags : List String) (key : String) : Option String := tags.findSome? fun t => afterHead s!"{key}=" t

theorem tagGet_head (key value : String) (rest : List (String × String)) :
    tagGet (buildTags ((key, value) :: rest)) key = some value := by
  have hhead : afterHead s!"{key}=" s!"{key}={value}" = some value := by
    show afterHead (toString key ++ "=") (toString key ++ "=" ++ toString value) = some value
    exact afterHead_append _ _
  simp only [tagGet, buildTags, List.map_cons, List.findSome?_cons, hhead]

def parseIndex (s : String) : Option UInt32 := (parseUnsigned 4294967295 s.toList).map UInt32.ofNat

/-- The version of the configuration, or 1.0.0. -/
def parseUpdateVersion (s : String) : Version := (Version.parse s).toOption.getD ⟨1, 0, 0⟩

def defaultUpdateRootPubkey : ByteArr 32 := beArr 32 0

variable {u : UpdateHost}

/-- The signed message and the signature of the root key in an event. -/
def decodeUpdatePayload (u : UpdateHost) (event : MeshEvent) : Except String (Bytes × ByteArr 64) :=
  match u.base64Decode event.content with
  | .error _ => .error "update payload is not valid base64"
  | .ok data => match tagGet event.tags tagRootSig with
    | none => .error "update payload missing root_sig tag"
    | some sigHex => match hexDecode sigHex with
      | none => .error "root_sig tag is not valid hex"
      | some sig => if hl : sig.length = 64 then .ok (data, ⟨sig, hl⟩) else .error "root_sig must be 64 bytes"

/-- The signature is read from the tag that encodes it. -/
theorem decodeUpdatePayload_signed {event : MeshEvent} {data : Bytes} {sig : ByteArr 64}
    (hcontent : u.base64Decode event.content = .ok data)
    (hsig : tagGet event.tags tagRootSig = some (hexEncode sig.1)) :
    decodeUpdatePayload u event = .ok (data, sig) := by
  have hdecoded : hexDecode (hexEncode sig.1) = some sig.1 := hexDecode_hexEncode sig.1
  rw [decodeUpdatePayload, hcontent]
  dsimp only
  rw [hsig]
  dsimp only
  rw [hdecoded]
  dsimp only
  rw [dif_pos sig.2]

namespace UpdateNode

/-- A node before any update: its configuration names the root key, the version and perhaps the signing key. -/
def new (n : Node u.toHost) (updateRootPubkey : Option (ByteArr 32)) (updateVersion : String)
    (updateRootSeed : Option (ByteArr 32)) : UpdateNode u where
  toNode := n
  updateProtocol := .new (updateRootPubkey.getD defaultUpdateRootPubkey) (parseUpdateVersion updateVersion)
  updateRootSigning := updateRootSeed.map Identity.mk
  pendingAnnouncement := none
  updateOffer := none

/-- Sign an event with the key of the node and put it in the outbox. -/
def publishGossipEvent (env : UpdateEnv) (n : UpdateNode u) (kind : OndeMessageType) (content : String)
    (tags : List (String × String)) : Except String (MeshEvent × UpdateNode u) := do
  let event := MeshEvent.newSigned u.toPrimitives n.identity kind content (buildTags tags) env.fuzzyTimestampSecs
  let (event, node) ← n.toNode.publishSigned env.toEnv event "PoW computation failed"
  pure (event, { n with toNode := node })

/-- Announce an update, signed by the root key, and keep it for the requests to come. -/
def announceUpdate (env : UpdateEnv) (n : UpdateNode u) (version : Version) (apk : Bytes) (timestamp : UInt64) :
    Except String (MeshEvent × UpdateNode u) :=
  match n.updateRootSigning with
  | none => .error "node is not configured as an update distributor (missing update_root_seed)"
  | some root =>
    if maxApkSize < apk.length then .error s!"APK exceeds the {maxApkSize} bytes limit"
    else do
      let announcement := UpdateProtocol.buildAnnouncement u.toPrimitives version apk root timestamp
      let manifest := UpdateProtocol.buildManifest u.toPrimitives apk root (u.publicKey root.seed) timestamp
        defaultChunkSize
      let (event, n) ← n.publishGossipEvent env .updateAnnounce (u.base64Encode announcement.2.2)
        [(tagRootSig, hexEncode announcement.2.1.1), (tagVersion, version.text), (tagPeer, n.pubkeyHex)]
      pure (event, { n with
        updateOffer := some ⟨version, apk, manifest.2.2, manifest.2.1, defaultChunkSize⟩ })

/-! ## Handlers -/

/-- Publish an answer; the outcome says what was answered. -/
def answer (env : UpdateEnv) (n : UpdateNode u) (kind : OndeMessageType) (content : String)
    (tags : List (String × String)) (outcome : UpdateHandlingOutcome) :
    Except String UpdateHandlingOutcome × UpdateNode u :=
  match n.publishGossipEvent env kind content tags with
  | .error err => (.error err, n)
  | .ok r => (.ok outcome, r.2)

/-- An announcement that is accepted is remembered, and its manifest requested. -/
def onUpdateAnnounce (env : UpdateEnv) (n : UpdateNode u) (event : MeshEvent) :
    Except String UpdateHandlingOutcome × UpdateNode u :=
  match decodeUpdatePayload u event with
  | .error err => (.error err, n)
  | .ok (data, sig) => match n.updateProtocol.handleAnnouncement u.toPrimitives data sig with
    | .error err => (.ok (.rejected err.text), n)
    | .ok announcement =>
      let n := { n with pendingAnnouncement := some announcement }
      n.answer env .updateRequest "" [(tagReqType, "manifest"), (tagTo, event.pubkey)] .announcementRequested

/-- A manifest is held against the remembered announcement, and the first chunk requested. -/
def onUpdateManifest (env : UpdateEnv) (n : UpdateNode u) (event : MeshEvent) :
    Except String UpdateHandlingOutcome × UpdateNode u :=
  match n.pendingAnnouncement with
  | none => (.error "update manifest received without a prior accepted announcement", n)
  | some announcement => match decodeUpdatePayload u event with
    | .error err => (.error err, n)
    | .ok (data, sig) =>
      match n.updateProtocol.handleManifest u.toPrimitives announcement data sig event.pubkey with
      | .error err => (.ok (.rejected err.text), n)
      | .ok p =>
        let n := { n with updateProtocol := p }
        n.answer env .updateRequest ""
          [(tagReqType, "chunk"), (tagTo, event.pubkey), (tagIndex, "0"), (tagVersion, announcement.version.text)]
          .manifestRequested

/-- Where the APK is installed. -/
def updateInstallPath (n : UpdateNode u) : String :=
  u.tempPath s!"onde-installed-{String.ofList (n.pubkeyHex.toList.take 8)}.apk"

/-- The last chunk: assemble, check and install. -/
def finishTransfer (env : UpdateEnv) (n : UpdateNode u) : Except String UpdateHandlingOutcome × UpdateNode u :=
  let r := n.updateProtocol.assembleAndVerify u.toPrimitives
  let n := { n with updateProtocol := r.2 }
  match r.1 with
  | .error err => (.ok (.rejected err.text), { n with pendingAnnouncement := none })
  | .ok apk =>
    match n.updateProtocol.installVerified u.toPrimitives apk n.updateInstallPath (UInt64.ofNat env.clock)
      env.write with
    | .error err => (.error err.text, n)
    | .ok (installed, p) =>
      (.ok (.installed installed.version), { n with updateProtocol := p, pendingAnnouncement := none })

/-- A chunk is stored, and the next one requested until all are there. -/
def onUpdateChunk (env : UpdateEnv) (n : UpdateNode u) (event : MeshEvent) :
    Except String UpdateHandlingOutcome × UpdateNode u :=
  match tagGet event.tags tagIndex with
  | none => (.error "update chunk missing index tag", n)
  | some text => match parseIndex text with
    | none => (.error "invalid update chunk index tag", n)
    | some index => match u.base64Decode event.content with
      | .error _ => (.error "update chunk is not valid base64", n)
      | .ok data => match n.updateProtocol.handleChunk index data with
        | .error err => (.ok (.rejected err.text), n)
        | .ok (_, p) =>
          let n := { n with updateProtocol := p }
          if p.chunksReceived < p.totalChunks then
            let next := index + 1
            n.answer env .updateRequest ""
              [(tagReqType, "chunk"), (tagTo, event.pubkey), (tagIndex, toString next)] (.chunkRequested next)
          else n.finishTransfer env

/-- A request is answered from the offer, by the node it is for. -/
def onUpdateRequest (env : UpdateEnv) (n : UpdateNode u) (event : MeshEvent) :
    Except String UpdateHandlingOutcome × UpdateNode u :=
  let target := (tagGet event.tags tagTo).getD ""
  if target ≠ "" ∧ target ≠ n.pubkeyHex then (.ok .ignored, n)
  else match n.updateOffer with
    | none => (.error "update request received but no update offer is held", n)
    | some offer =>
      let reqType := (tagGet event.tags tagReqType).getD ""
      if reqType = "manifest" then
        n.answer env .updateManifest (u.base64Encode offer.manifestWire)
          [(tagRootSig, hexEncode offer.manifestSignature.1), (tagVersion, offer.version.text),
            (tagPeer, n.pubkeyHex)] .manifestServed
      else if reqType = "chunk" then
        match tagGet event.tags tagIndex with
        | none => (.error "chunk request missing index tag", n)
        | some text => match parseIndex text with
          | none => (.error "invalid chunk request index", n)
          | some index => match UpdateProtocol.chunk offer.apk index offer.chunkSize.toNat with
            | none => (.error s!"chunk index {index} out of bounds", n)
            | some data =>
              let total := UpdateProtocol.chunkCount offer.apk.length offer.chunkSize.toNat
              n.answer env .updateChunk (u.base64Encode data)
                [(tagIndex, toString index), (tagTotal, toString total), (tagPeer, n.pubkeyHex)]
                (.chunkServed index)
      else (.error s!"unknown update request type: {reqType}", n)

def handleIncomingUpdate (env : UpdateEnv) (n : UpdateNode u) (event : MeshEvent) :
    Except String UpdateHandlingOutcome × UpdateNode u :=
  match event.kind with
  | .updateAnnounce => n.onUpdateAnnounce env event
  | .updateManifest => n.onUpdateManifest env event
  | .updateChunk => n.onUpdateChunk env event
  | .updateRequest => n.onUpdateRequest env event
  | _ => (.ok .ignored, n)

/-! ## What the handlers do -/

variable {n n' : UpdateNode u} {env : UpdateEnv} {event : MeshEvent}

/-- What an event does to the protocol and the remembered announcement. -/
inductive Effect (n : UpdateNode u) (r : Except String UpdateHandlingOutcome) (n' : UpdateNode u) : Prop
  | none (hp : n'.updateProtocol = n.updateProtocol) (ha : n'.pendingAnnouncement = n.pendingAnnouncement)
    (hr : ∀ v, r ≠ .ok (.installed v))
  | announced {a : UpdateAnnouncement} {data : Bytes} {sig : ByteArr 64}
    (h : n.updateProtocol.handleAnnouncement u.toPrimitives data sig = .ok a)
    (hp : n'.updateProtocol = n.updateProtocol) (ha : n'.pendingAnnouncement = some a)
    (hr : ∀ v, r ≠ .ok (.installed v))
  | started {a : UpdateAnnouncement} {data : Bytes} {sig : ByteArr 64} {peer : String}
    (hold : n.pendingAnnouncement = some a)
    (h : n.updateProtocol.handleManifest u.toPrimitives a data sig peer = .ok n'.updateProtocol)
    (ha : n'.pendingAnnouncement = n.pendingAnnouncement) (hr : ∀ v, r ≠ .ok (.installed v))
  | stored {index : UInt32} {data : Bytes} {status : ChunkStatus}
    (h : n.updateProtocol.handleChunk index data = .ok (status, n'.updateProtocol))
    (ha : n'.pendingAnnouncement = n.pendingAnnouncement) (hr : ∀ v, r ≠ .ok (.installed v))
  | assembled {index : UInt32} {data : Bytes} {status : ChunkStatus} {p : UpdateProtocol}
    (h : n.updateProtocol.handleChunk index data = .ok (status, p))
    (hp : n'.updateProtocol = (p.assembleAndVerify u.toPrimitives).2)
    (ha : n'.pendingAnnouncement = n.pendingAnnouncement ∨ n'.pendingAnnouncement = .none)
    (hr : ∀ v, r ≠ .ok (.installed v))
  | installed {index : UInt32} {data : Bytes} {status : ChunkStatus} {p : UpdateProtocol} {apk : Bytes}
    {destPath : String} {installedAt : UInt64} {write : String → Bytes → Except String Unit} {i : InstalledUpdate}
    (h : n.updateProtocol.handleChunk index data = .ok (status, p))
    (hi : (p.assembleAndVerify u.toPrimitives).2.installVerified u.toPrimitives apk destPath installedAt write =
      .ok (i, n'.updateProtocol))
    (ha : n'.pendingAnnouncement = .none) (hr : r = .ok (.installed i.version))

theorem Effect.error (n : UpdateNode u) (err : String) : Effect n (.error err) n := .none rfl rfl fun v => by simp

theorem Effect.rejected (n : UpdateNode u) (reason : String) : Effect n (.ok (.rejected reason)) n :=
  .none rfl rfl fun v => by simp

/-- An answer touches neither. -/
theorem answer_frame (n : UpdateNode u) (env : UpdateEnv) (kind : OndeMessageType) (content : String)
    (tags : List (String × String)) (outcome : UpdateHandlingOutcome) (hout : ∀ v, outcome ≠ .installed v) :
    (n.answer env kind content tags outcome).2.updateProtocol = n.updateProtocol ∧
      (n.answer env kind content tags outcome).2.pendingAnnouncement = n.pendingAnnouncement ∧
      ∀ v, (n.answer env kind content tags outcome).1 ≠ .ok (.installed v) := by
  unfold answer
  cases h : n.publishGossipEvent env kind content tags with
  | error err => exact ⟨rfl, rfl, fun v => by simp⟩
  | ok r =>
    obtain ⟨added, -, heq⟩ := bind_eq_ok.mp h
    cases heq
    exact ⟨rfl, rfl, fun v => by simpa using hout v⟩

theorem onUpdateAnnounce_effect (n : UpdateNode u) (env : UpdateEnv) (event : MeshEvent) :
    Effect n (n.onUpdateAnnounce env event).1 (n.onUpdateAnnounce env event).2 := by
  unfold onUpdateAnnounce
  split
  · exact .error _ _
  split
  · exact .rejected _ _
  next announcement h =>
  obtain ⟨hp, ha, hr⟩ := answer_frame { n with pendingAnnouncement := some announcement } env .updateRequest ""
    [(tagReqType, "manifest"), (tagTo, event.pubkey)] .announcementRequested fun v => by simp
  exact .announced h hp ha hr

theorem onUpdateManifest_effect (n : UpdateNode u) (env : UpdateEnv) (event : MeshEvent) :
    Effect n (n.onUpdateManifest env event).1 (n.onUpdateManifest env event).2 := by
  unfold onUpdateManifest
  split
  · exact .error _ _
  next announcement hold =>
  split
  · exact .error _ _
  split
  · exact .rejected _ _
  next p h =>
  obtain ⟨hp, ha, hr⟩ := answer_frame { n with updateProtocol := p } env .updateRequest ""
    [(tagReqType, "chunk"), (tagTo, event.pubkey), (tagIndex, "0"), (tagVersion, announcement.version.text)]
    .manifestRequested fun v => by simp
  exact .started hold (h.trans (congrArg _ hp.symm)) ha hr

theorem finishTransfer_effect (n : UpdateNode u) (env : UpdateEnv) {index : UInt32} {data : Bytes}
    {status : ChunkStatus} {p : UpdateProtocol} (h : n.updateProtocol.handleChunk index data = .ok (status, p)) :
    Effect n (({ n with updateProtocol := p } : UpdateNode u).finishTransfer env).1
      (({ n with updateProtocol := p } : UpdateNode u).finishTransfer env).2 := by
  unfold finishTransfer
  dsimp only
  split
  · exact .assembled h rfl (.inr rfl) fun v => by simp
  split
  · exact .assembled h rfl (.inl rfl) fun v => by simp
  next hi => exact .installed h hi rfl rfl

theorem onUpdateChunk_effect (n : UpdateNode u) (env : UpdateEnv) (event : MeshEvent) :
    Effect n (n.onUpdateChunk env event).1 (n.onUpdateChunk env event).2 := by
  unfold onUpdateChunk
  split
  · exact .error _ _
  split
  · exact .error _ _
  next index _ =>
  split
  · exact .error _ _
  split
  · exact .rejected _ _
  next status p h =>
  dsimp only
  split
  · obtain ⟨hp, ha, hr⟩ := answer_frame { n with updateProtocol := p } env .updateRequest ""
      [(tagReqType, "chunk"), (tagTo, event.pubkey), (tagIndex, toString (index + 1))]
      (.chunkRequested (index + 1)) fun v => by simp
    exact .stored (h.trans (by rw [hp])) ha hr
  · exact finishTransfer_effect n env h

/-- Serving touches neither. -/
theorem onUpdateRequest_effect (n : UpdateNode u) (env : UpdateEnv) (event : MeshEvent) :
    Effect n (n.onUpdateRequest env event).1 (n.onUpdateRequest env event).2 := by
  unfold onUpdateRequest
  dsimp only
  split
  · exact .none rfl rfl fun v => by simp
  split
  · exact .error _ _
  next offer _ =>
  split
  · obtain ⟨hp, ha, hr⟩ := answer_frame n env .updateManifest (u.base64Encode offer.manifestWire)
      [(tagRootSig, hexEncode offer.manifestSignature.1), (tagVersion, offer.version.text), (tagPeer, n.pubkeyHex)]
      .manifestServed fun v => by simp
    exact .none hp ha hr
  split
  · split
    · exact .error _ _
    split
    · exact .error _ _
    next index _ =>
    split
    · exact .error _ _
    next data _ =>
    obtain ⟨hp, ha, hr⟩ := answer_frame n env .updateChunk (u.base64Encode data) [(tagIndex, toString index),
      (tagTotal, toString (UpdateProtocol.chunkCount offer.apk.length offer.chunkSize.toNat)),
      (tagPeer, n.pubkeyHex)] (.chunkServed index) fun v => by simp
    exact .none hp ha hr
  · exact .error _ _

/-- **What any event does.** -/
theorem handleIncomingUpdate_effect (n : UpdateNode u) (env : UpdateEnv) (event : MeshEvent) :
    Effect n (n.handleIncomingUpdate env event).1 (n.handleIncomingUpdate env event).2 := by
  unfold handleIncomingUpdate
  split
  · exact n.onUpdateAnnounce_effect env event
  · exact n.onUpdateManifest_effect env event
  · exact n.onUpdateChunk_effect env event
  · exact n.onUpdateRequest_effect env event
  · exact .none rfl rfl fun v => by simp

/-! ## Versions only grow -/

/-- What is in progress, waits or is announced is of a later version than the current one. -/
structure OnlyNewer (n : UpdateNode u) : Prop where
  protocol : Newer n.updateProtocol
  announced : ∀ a, n.pendingAnnouncement = some a → n.updateProtocol.currentVersion < a.version

/-- **One event keeps this**; the current version stays, or the event installs a newer one. -/
theorem Effect.onlyNewer {r : Except String UpdateHandlingOutcome} (he : Effect n r n') (hn : OnlyNewer n) :
    OnlyNewer n' ∧ ((∀ v, r ≠ .ok (.installed v)) ∧
        n'.updateProtocol.currentVersion = n.updateProtocol.currentVersion ∨
      ∃ v, r = .ok (.installed v) ∧ n.updateProtocol.currentVersion < v ∧ n'.updateProtocol.currentVersion = v) := by
  obtain ⟨hproto, hann⟩ := hn
  cases he with
  | none hp ha hr =>
    refine ⟨⟨by rwa [hp], fun a h => ?_⟩, .inl ⟨hr, by rw [hp]⟩⟩
    rw [hp]
    exact hann a (ha ▸ h)
  | announced h hp ha hr =>
    refine ⟨⟨by rwa [hp], fun a h' => ?_⟩, .inl ⟨hr, by rw [hp]⟩⟩
    rw [ha] at h'
    cases h'
    rw [hp]
    exact (UpdateProtocol.handleAnnouncement_ok.mp h).2
  | started hold h ha hr =>
    obtain ⟨hp, hcur⟩ := hproto.handleManifest (hann _ hold) h
    refine ⟨⟨hp, fun a h' => ?_⟩, .inl ⟨hr, hcur⟩⟩
    rw [hcur]
    exact hann a (ha ▸ h')
  | stored h ha hr =>
    obtain ⟨hp, hcur⟩ := hproto.handleChunk h
    refine ⟨⟨hp, fun a h' => ?_⟩, .inl ⟨hr, hcur⟩⟩
    rw [hcur]
    exact hann a (ha ▸ h')
  | assembled h hp ha hr =>
    obtain ⟨hchunk, hcur⟩ := hproto.handleChunk h
    obtain ⟨hend, hcur'⟩ := hchunk.assembleAndVerify u.toPrimitives
    have hsame : n'.updateProtocol.currentVersion = n.updateProtocol.currentVersion := by rw [hp, hcur', hcur]
    refine ⟨⟨by rwa [hp], fun a h' => ?_⟩, .inl ⟨hr, hsame⟩⟩
    rcases ha with ha | ha <;> rw [ha] at h'
    · rw [hsame]
      exact hann a h'
    · cases h'
  | @installed _ _ _ _ _ _ _ _ i h hi ha hr =>
    obtain ⟨hchunk, hcur⟩ := hproto.handleChunk h
    obtain ⟨hend, hcur'⟩ := hchunk.assembleAndVerify u.toPrimitives
    obtain ⟨hp, hlt, heq⟩ := hend.installVerified hi
    rw [hcur', hcur] at hlt
    refine ⟨⟨hp, fun a h' => ?_⟩, .inr ⟨i.version, hr, hlt, heq⟩⟩
    rw [ha] at h'
    cases h'

/-- A step of the node: an event of an update comes in, or the rest of the node changes, its offer included. -/
inductive Step (u : UpdateHost) where
  | incoming (env : UpdateEnv) (event : MeshEvent)
  | elsewhere (node : Node u.toHost) (updateOffer : Option UpdateOffer)

def step (n : UpdateNode u) : Step u → UpdateNode u
  | .incoming env event => (n.handleIncomingUpdate env event).2
  | .elsewhere node updateOffer => { n with toNode := node, updateOffer := updateOffer }

/-- The node after a run. -/
def run (n : UpdateNode u) (steps : List (Step u)) : UpdateNode u := steps.foldl step n

/-- What an outcome says was installed. -/
def installedBy : Except String UpdateHandlingOutcome → List Version
  | .ok (.installed v) => [v]
  | _ => []

/-- The versions that a run installs, in order. -/
def installs (n : UpdateNode u) : List (Step u) → List Version
  | [] => []
  | .incoming env event :: steps =>
    installedBy (n.handleIncomingUpdate env event).1 ++ (n.handleIncomingUpdate env event).2.installs steps
  | .elsewhere node updateOffer :: steps =>
    ({ n with toNode := node, updateOffer := updateOffer } : UpdateNode u).installs steps

theorem installedBy_eq_nil : ∀ {r : Except String UpdateHandlingOutcome}, (∀ v, r ≠ .ok (.installed v)) →
    installedBy r = []
  | .ok (.installed v), hr => absurd rfl (hr v)
  | .error _, _ | .ok .ignored, _ | .ok .announcementRequested, _ | .ok .manifestRequested, _
  | .ok (.chunkRequested _), _ | .ok .manifestServed, _ | .ok (.chunkServed _), _ | .ok (.rejected _), _ => rfl

/-- Announcing an update is a step elsewhere. -/
theorem announceUpdate_step {version : Version} {apk : Bytes} {timestamp : UInt64} {r : MeshEvent × UpdateNode u}
    (h : n.announceUpdate env version apk timestamp = .ok r) :
    r.2 = n.step (.elsewhere r.2.toNode r.2.updateOffer) := by
  unfold announceUpdate at h
  split at h
  · cases h
  split at h
  · cases h
  obtain ⟨published, hpub, heq⟩ := bind_eq_ok.mp h
  obtain ⟨added, -, heq'⟩ := bind_eq_ok.mp hpub
  cases heq'
  cases heq
  rfl

theorem run_invariant {I : UpdateNode u → Prop} (hin : ∀ n r n', I n → Effect n r n' → I n')
    (helse : ∀ n node offer, I n → I { n with toNode := node, updateOffer := offer }) :
    ∀ (steps : List (Step u)) (n : UpdateNode u), I n → I (n.run steps)
  | [], _, hn => hn
  | .incoming env event :: steps, n, hn =>
    run_invariant hin helse steps _ (hin n _ _ hn (n.handleIncomingUpdate_effect env event))
  | .elsewhere node offer :: steps, n, hn => run_invariant hin helse steps _ (helse n node offer hn)

theorem onlyNewer_run (n : UpdateNode u) (steps : List (Step u)) (hn : OnlyNewer n) : OnlyNewer (n.run steps) :=
  run_invariant (fun _ _ _ hn he => (he.onlyNewer hn).1) (fun _ _ _ hn => ⟨hn.protocol, hn.announced⟩) steps n hn

/-- **What a run installs gets later and later**, from the current version on. -/
theorem installs_increasing : ∀ (steps : List (Step u)) (n : UpdateNode u), OnlyNewer n →
    (n.updateProtocol.currentVersion :: n.installs steps).Pairwise (· < ·)
  | [], _, _ => List.pairwise_singleton _ _
  | .elsewhere node updateOffer :: steps, n, hn =>
    installs_increasing steps { n with toNode := node, updateOffer := updateOffer } ⟨hn.protocol, hn.announced⟩
  | .incoming env event :: steps, n, hn => by
    obtain ⟨hn', hcur⟩ := (n.handleIncomingUpdate_effect env event).onlyNewer hn
    have ih := installs_increasing steps _ hn'
    unfold installs
    rcases hcur with ⟨hr, hsame⟩ | ⟨v, hr, hlt, hv⟩
    · rw [installedBy_eq_nil hr, List.nil_append]
      rwa [hsame] at ih
    · -- the installed version comes between the old version and everything later
      rw [hr]
      rw [hv] at ih
      refine List.pairwise_cons.mpr ⟨fun w hw => ?_, ih⟩
      rcases List.mem_cons.mp hw with rfl | hw
      · exact hlt
      · exact hlt.trans ((List.pairwise_cons.mp ih).1 w hw)

theorem onlyNewer_new (node : Node u.toHost) (rootPubkey : Option (ByteArr 32)) (version : String)
    (rootSeed : Option (ByteArr 32)) : OnlyNewer (.new node rootPubkey version rootSeed) :=
  ⟨newer_new _ _, fun _ ha => (nomatch ha)⟩

/-! ## Only what the root key signed -/

/-- What is in progress, waits or is announced was signed by the root key. -/
structure OnlySigned (signed : Bytes → Prop) (n : UpdateNode u) : Prop where
  protocol : Sound u.toPrimitives signed n.updateProtocol
  announced : ∀ a, n.pendingAnnouncement = some a → signed a.toSignedBytes

variable {signed : Bytes → Prop}

/-- **The node hands over only announcements it has accepted**: one event keeps this, and what it installs was
signed. -/
theorem Effect.onlySigned {r : Except String UpdateHandlingOutcome} (he : Effect n r n') (hn : OnlySigned signed n) :
    OnlySigned signed n' ∧ ∀ v, r = .ok (.installed v) →
      ∃ hash, Backed signed v hash ∧ ∃ i ∈ n'.updateProtocol.installed, i.version = v ∧ i.apkSha256 = hash := by
  obtain ⟨hproto, hann⟩ := hn
  have hchunk : ∀ {index data status p}, n.updateProtocol.handleChunk index data = .ok (status, p) →
      Sound u.toPrimitives signed p := by
    intro index data status p h
    have hs := hproto.apply (.handleChunk index data) (by rintro _ _ _ _ ⟨⟩)
    simp only [UpdateCall.apply, h] at hs
    exact hs
  have hend : ∀ {p}, Sound u.toPrimitives signed p →
      Sound u.toPrimitives signed (p.assembleAndVerify u.toPrimitives).2 :=
    fun hs => hs.apply .assembleAndVerify (by rintro _ _ _ _ ⟨⟩)
  cases he with
  | none hp ha hr => exact ⟨⟨by rwa [hp], fun a h => hann a (ha ▸ h)⟩, fun v hv => absurd hv (hr v)⟩
  | announced h hp ha hr =>
    refine ⟨⟨by rwa [hp], fun a h' => ?_⟩, fun v hv => absurd hv (hr v)⟩
    rw [ha] at h'
    cases h'
    obtain ⟨⟨rfl, hsig⟩, -⟩ := UpdateProtocol.handleAnnouncement_ok.mp h
    exact hproto.unforgeable _ _ hsig
  | @started a data sig peer hold h ha hr =>
    refine ⟨⟨?_, fun a h' => hann a (ha ▸ h')⟩, fun v hv => absurd hv (hr v)⟩
    have hs := hproto.apply (.handleManifest a data sig peer) fun announcement data sig peer heq => by
      cases heq
      exact hann _ hold
    simp only [UpdateCall.apply, h] at hs
    exact hs
  | stored h ha hr => exact ⟨⟨hchunk h, fun a h' => hann a (ha ▸ h')⟩, fun v hv => absurd hv (hr v)⟩
  | assembled h hp ha hr =>
    refine ⟨⟨by rw [hp]; exact hend (hchunk h), fun a h' => ?_⟩, fun v hv => absurd hv (hr v)⟩
    rcases ha with ha | ha <;> rw [ha] at h'
    · exact hann a h'
    · cases h'
  | @installed index data status p apk destPath installedAt write i h hi ha hr =>
    have hs := hend (hchunk h)
    have hs' := hs.apply (.installVerified apk destPath installedAt write) (by rintro _ _ _ _ ⟨⟩)
    simp only [UpdateCall.apply, hi] at hs'
    obtain ⟨hbacked, hhash⟩ := hs.installVerified hi
    refine ⟨⟨hs', fun a h' => by rw [ha] at h'; cases h'⟩, fun v hv => ?_⟩
    rw [hr] at hv
    cases hv
    obtain ⟨last, -, -, -, -, hp⟩ := UpdateProtocol.installVerified_ok.mp hi
    exact ⟨_, hbacked, i, by rw [hp]; exact (List.mem_insertionSort _).mpr (by simp), rfl, hhash⟩

end UpdateNode

/-- **A node installs only what its root key signed**, in every run. -/
theorem update_backed (u : UpdateHost) (node : Node u.toHost) (rootPubkey : Option (ByteArr 32)) (version : String)
    (rootSeed : Option (ByteArr 32)) (signed : Bytes → Prop)
    (hsigned : Unforgeable u.toPrimitives (rootPubkey.getD defaultUpdateRootPubkey) signed)
    (steps : List (UpdateNode.Step u)) (env : UpdateEnv) (event : MeshEvent) (v : Version) (n' : UpdateNode u)
    (h : ((UpdateNode.new node rootPubkey version rootSeed).run steps).handleIncomingUpdate env event =
      (.ok (.installed v), n')) :
    ∃ hash, Backed signed v hash ∧ ∃ i ∈ n'.updateProtocol.installed, i.version = v ∧ i.apkSha256 = hash := by
  have hnew : (UpdateNode.new node rootPubkey version rootSeed).OnlySigned signed :=
    ⟨sound_new hsigned, fun _ ha => (nomatch ha)⟩
  have hn := UpdateNode.run_invariant (fun _ _ _ hn he => (he.onlySigned hn).1)
    (fun _ _ _ hn => ⟨hn.protocol, hn.announced⟩) steps _ hnew
  have he := ((UpdateNode.new node rootPubkey version rootSeed).run steps).handleIncomingUpdate_effect env event
  rw [h] at he
  exact (he.onlySigned hn).2 v rfl

/-- **No downgrade.** In every run of a node, with any events of updates in any order, whatever the files do: the
transfer in progress and the remembered announcement are of later versions than the current one, and so is every
version that an event installs, which becomes the current one. What the run installs strictly increases. -/
theorem update_no_downgrade (u : UpdateHost) (node : Node u.toHost) (rootPubkey : Option (ByteArr 32))
    (version : String) (rootSeed : Option (ByteArr 32)) (steps : List (UpdateNode.Step u)) :
    let n₀ := UpdateNode.new node rootPubkey version rootSeed
    let n := n₀.run steps
    (∀ t, n.updateProtocol.pending = some t → n.updateProtocol.currentVersion < t.version) ∧
    (∀ a, n.pendingAnnouncement = some a → n.updateProtocol.currentVersion < a.version) ∧
    (∀ env event v n', n.handleIncomingUpdate env event = (.ok (.installed v), n') →
      n.updateProtocol.currentVersion < v ∧ n'.updateProtocol.currentVersion = v) ∧
    (n₀.updateProtocol.currentVersion :: n₀.installs steps).Pairwise (· < ·) := by
  intro n₀ n
  have hnew : n₀.OnlyNewer := UpdateNode.onlyNewer_new node rootPubkey version rootSeed
  have hn : n.OnlyNewer := UpdateNode.onlyNewer_run n₀ steps hnew
  refine ⟨hn.protocol.pending, hn.announced, fun env event v n' h => ?_, UpdateNode.installs_increasing steps n₀ hnew⟩
  have he := n.handleIncomingUpdate_effect env event
  rw [h] at he
  rcases (he.onlyNewer hn).2 with ⟨hr, -⟩ | ⟨w, hw, hlt, hcur⟩
  · exact absurd rfl (hr v)
  · cases hw
    exact ⟨hlt, hcur⟩

end Onde

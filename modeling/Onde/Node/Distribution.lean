import Onde.Node.Replies
import Onde.Update.Release

/-!
# The two sides of an update

An announcer gives out a release, a receiver asks for it part by part.

* `Offers`, `Requests`: what an event of either side carries;
* `announceUpdate_ok`: what a node that has announced a release offers; `Serves.request`: what it does with a request;
* `Receives.offer`: what the receiver does with a part, in whichever state it is; `announcement_answered`,
  `manifest_answered`, `chunk_answered` and `chunk_finished` say what it does when the part is the one it waits for.
-/

namespace Onde

open Lib Crypto Reputation Protocol Update

variable {u : UpdateHost}

/-- What the announcer keeps for the requests to come. -/
def Update.Release.offer (c : Primitives) (d : Release) : UpdateOffer :=
  ⟨d.version, d.apk, (d.manifest c).2.2, (d.manifest c).2.1, defaultChunkSize⟩

/-- A protocol stays well formed with a chunk it accepted. -/
theorem Update.UpdateProtocol.Wf.stored {c : Primitives} {p q : UpdateProtocol} {index : UInt32} {data : Bytes}
    {status : ChunkStatus} (hw : p.Wf c) (h : p.handleChunk index data = .ok (status, q)) : q.Wf c := by
  have hstep := hw.apply (.handleChunk index data)
  simp only [UpdateCall.apply, h] at hstep
  exact hstep

/-! ## The events of a distribution -/

/-- What an announcer has to give. -/
inductive Part where
  | announcement
  | manifest
  | chunk (index : UInt32)

/-- An event of the announcer that carries a part of the release. -/
structure Offers (u : UpdateHost) (d : Release) (part : Part) (e : MeshEvent) : Prop where
  pubkey : e.pubkey = d.announcer
  announcement : part = .announcement → e.kind = .updateAnnounce ∧ decodeUpdatePayload u e =
    .ok ((d.announcement u.toPrimitives).2.2, (d.announcement u.toPrimitives).2.1)
  manifest : part = .manifest → e.kind = .updateManifest ∧ decodeUpdatePayload u e =
    .ok ((d.manifest u.toPrimitives).2.2, (d.manifest u.toPrimitives).2.1)
  chunk : ∀ index, part = .chunk index → UpdateNode.Answers u d.apk defaultChunkSize index e

/-- An event that asks the announcer for the manifest or a chunk. -/
structure Requests (d : Release) (part : Part) (e : MeshEvent) : Prop where
  kind : e.kind = .updateRequest
  target : tagGet e.tags tagTo = some d.announcer
  manifest : part = .manifest → tagGet e.tags tagReqType = some "manifest"
  chunk : ∀ index, part = .chunk index →
    tagGet e.tags tagReqType = some "chunk" ∧ tagGet e.tags tagIndex = some (toString index)
  asked : part ≠ .announcement

theorem tagGet_to (value announcer : String) (rest : List (String × String)) :
    tagGet (buildTags ((tagReqType, value) :: (tagTo, announcer) :: rest)) tagTo = some announcer := by
  rw [tagGet_skip (c := 't') (d := 'r') rfl rfl (by decide), tagGet_head]

theorem tagGet_index (value announcer index : String) (rest : List (String × String)) :
    tagGet (buildTags ((tagReqType, value) :: (tagTo, announcer) :: (tagIndex, index) :: rest)) tagIndex =
      some index := by
  rw [tagGet_skip (c := 'i') (d := 'r') rfl rfl (by decide), tagGet_skip (c := 'i') (d := 't') rfl rfl (by decide),
    tagGet_head]

namespace UpdateNode

variable {n : UpdateNode u} {env : UpdateEnv} {event e : MeshEvent} {d : Release}

/-- A request for the manifest carries its tags, -/
theorem requests_manifest (hc : n.Carries e (.updateRequest, "", [(tagReqType, "manifest"), (tagTo, d.announcer)])) :
    Requests d .manifest e := by
  refine ⟨hc.kind, ?_, fun _ => ?_, nofun, nofun⟩
  · rw [hc.tags]
    exact tagGet_to _ _ _
  · rw [hc.tags]
    exact tagGet_head _ _ _

/-- and so does one for a chunk. -/
theorem requests_chunk {index : UInt32} {rest : List (String × String)}
    (hc : n.Carries e (.updateRequest, "",
      (tagReqType, "chunk") :: (tagTo, d.announcer) :: (tagIndex, toString index) :: rest)) :
    Requests d (.chunk index) e := by
  refine ⟨hc.kind, ?_, nofun, ?_, nofun⟩
  · rw [hc.tags]
    exact tagGet_to _ _ _
  · rintro _ ⟨⟩
    rw [hc.tags]
    exact ⟨tagGet_head _ _ _, tagGet_index _ _ _ _⟩

/-! ## The announcer -/

/-- A node that offers a release. -/
structure Serves (d : Release) (n : UpdateNode u) : Prop where
  pubkey : n.pubkeyHex = d.announcer
  offer : n.updateOffer = some (d.offer u.toPrimitives)
  floor : n.reputation.requiredPowDifficulty n.pubkeyHex = 0

theorem Answered.serves {m : UpdateNode u} {outcome : UpdateHandlingOutcome}
    {r : OndeMessageType × String × List (String × String)} (ha : Answered env n event m outcome r)
    (hm : Serves d m) : Serves d (n.handleIncomingUpdate env event).2 := by
  have hkey : (n.handleIncomingUpdate env event).2.pubkeyHex = m.pubkeyHex := by
    rw [Node.pubkeyHex, Node.pubkeyHex, ha.same.identity]
  refine ⟨hkey.trans hm.pubkey, ha.offer.trans hm.offer, ?_⟩
  rw [hkey, ha.same.reputation, hm.floor]

/-- **A node that has announced a release serves it**, and its event carries the announcement. -/
theorem announceUpdate_ok (hbase : ∀ data, u.base64Decode (u.base64Encode data) = .ok data) {root : Identity}
    (hroot : n.updateRootSigning = some root) (hfloor : n.reputation.requiredPowDifficulty n.pubkeyHex = 0)
    {version : Version} {apk : Bytes} {timestamp : UInt64} {n' : UpdateNode u}
    (ha : n.announceUpdate env version apk timestamp = .ok (e, n')) : apk.length ≤ maxApkSize ∧
      Serves ⟨root, version, apk, timestamp, n.pubkeyHex⟩ n' ∧
      Offers u ⟨root, version, apk, timestamp, n.pubkeyHex⟩ .announcement e := by
  unfold announceUpdate at ha
  rw [hroot] at ha
  dsimp only at ha
  obtain ⟨hsize, ha⟩ := check_eq_ok.mp ha
  obtain ⟨⟨e', m⟩, hp, heq⟩ := bind_eq_ok.mp ha
  cases heq
  obtain ⟨hc, -, -, hrep, hid⟩ := publishGossipEvent_ok hp
  refine ⟨not_lt.mp hsize, ⟨?_, rfl, ?_⟩, hc.pubkey, fun _ => ⟨hc.kind, decodeUpdatePayload_signed ?_ ?_⟩, nofun,
    nofun⟩
  · show m.pubkeyHex = n.pubkeyHex
    rw [Node.pubkeyHex, Node.pubkeyHex, hid]
  · show m.reputation.requiredPowDifficulty (m.identity.pubkeyHex u.toPrimitives) = 0
    rw [hrep, hid]
    exact hfloor
  · rw [hc.content]
    exact hbase _
  · rw [hc.tags]
    exact tagGet_head _ _ _

/-- Such a node can announce any APK within the bound. -/
theorem announceUpdate_trusting (hl : u.toPrimitives.Lawful) {root : Identity} (hroot : n.updateRootSigning = some root)
    (hfloor : n.reputation.requiredPowDifficulty n.pubkeyHex = 0) {apk : Bytes} (hsize : apk.length ≤ maxApkSize)
    (env : UpdateEnv) (version : Version) (timestamp : UInt64) :
    ∃ e n', n.announceUpdate env version apk timestamp = .ok (e, n') := by
  have hk : OndeMessageType.updateAnnounce ≠ .alert := nofun
  obtain ⟨e, n', hp⟩ := publishGossipEvent_trusting hl hfloor hk env
    (u.base64Encode (UpdateProtocol.buildAnnouncement u.toPrimitives version apk root timestamp).2.2)
    [(tagRootSig, hexEncode (UpdateProtocol.buildAnnouncement u.toPrimitives version apk root timestamp).2.1.1),
      (tagVersion, version.text), (tagPeer, n.pubkeyHex)]
  unfold announceUpdate
  rw [hroot]
  exact ⟨e, _, check_eq_ok.mpr ⟨not_lt.mpr hsize, bind_eq_ok.mpr ⟨(e, n'), hp, rfl⟩⟩⟩

/-- The offer is read by the request handler once the request is for the node. -/
theorem request_answered (hs : Serves d n) {part : Part} (hr : Requests d part event) (env : UpdateEnv) :
    n.handleIncomingUpdate env event = n.onUpdateRequest env event ∧
      ¬((tagGet event.tags tagTo).getD "" ≠ "" ∧ (tagGet event.tags tagTo).getD "" ≠ n.pubkeyHex) := by
  refine ⟨by rw [handleIncomingUpdate, hr.kind], fun hother => hother.2 ?_⟩
  rw [hr.target, hs.pubkey, Option.getD_some]

/-- **A request for the manifest is answered with it**, -/
theorem Serves.manifest_requested (hl : u.toPrimitives.Lawful) (hs : Serves d n) (hr : Requests d .manifest event)
    (env : UpdateEnv) :
    Answered env n event n .manifestServed (.updateManifest, u.base64Encode (d.manifest u.toPrimitives).2.2,
      [(tagRootSig, hexEncode (d.manifest u.toPrimitives).2.1.1), (tagVersion, d.version.text),
        (tagPeer, n.pubkeyHex)]) := by
  obtain ⟨hhandle, htarget⟩ := request_answered hs hr env
  have hk : OndeMessageType.updateManifest ≠ .alert := nofun
  refine answered hl hs.floor rfl hk ?_ ?_
  · rw [hhandle, onUpdateRequest]
    dsimp only
    rw [if_neg htarget, hs.offer]
    dsimp only
    rw [hr.manifest rfl, Option.getD_some, if_pos rfl]
    rfl
  · rw [reply, hs.offer]
    rfl

/-- a request for a chunk there is with that chunk, -/
theorem Serves.chunk_requested (hl : u.toPrimitives.Lawful) (hs : Serves d n) {index : UInt32}
    (hr : Requests d (.chunk index) event) {data : Bytes}
    (hdata : UpdateProtocol.chunk d.apk index defaultChunkSize.toNat = some data) (env : UpdateEnv) :
    Answered env n event n (.chunkServed index) (.updateChunk, u.base64Encode data,
      [(tagIndex, toString index), (tagTotal, toString d.chunkCount), (tagPeer, n.pubkeyHex)]) := by
  obtain ⟨hhandle, htarget⟩ := request_answered hs hr env
  obtain ⟨htype, hindex⟩ := hr.chunk index rfl
  have hserved : UpdateProtocol.chunk (d.offer u.toPrimitives).apk index
      (d.offer u.toPrimitives).chunkSize.toNat = some data := hdata
  have hne : ("chunk" : String) ≠ "manifest" := by decide
  have hk : OndeMessageType.updateChunk ≠ .alert := nofun
  refine answered hl hs.floor rfl hk ?_ ?_
  · rw [hhandle, onUpdateRequest]
    dsimp only
    rw [if_neg htarget, hs.offer]
    dsimp only
    rw [htype, Option.getD_some, if_neg hne, if_pos rfl, hindex]
    dsimp only
    rw [parseIndex_text]
    dsimp only
    rw [hserved]
    rfl
  · rw [reply, hs.offer, Option.bind_some, hserved]
    rfl

/-- and any other one with nothing. -/
theorem Serves.chunk_absent (hs : Serves d n) {index : UInt32} (hr : Requests d (.chunk index) event)
    (hnone : UpdateProtocol.chunk d.apk index defaultChunkSize.toNat = none) (env : UpdateEnv) :
    ∃ err, n.handleIncomingUpdate env event = (.error err, n) := by
  obtain ⟨hhandle, htarget⟩ := request_answered hs hr env
  obtain ⟨htype, hindex⟩ := hr.chunk index rfl
  have habsent : UpdateProtocol.chunk (d.offer u.toPrimitives).apk index
      (d.offer u.toPrimitives).chunkSize.toNat = none := hnone
  have hne : ("chunk" : String) ≠ "manifest" := by decide
  refine ⟨s!"chunk index {index} out of bounds", ?_⟩
  rw [hhandle, onUpdateRequest]
  dsimp only
  rw [if_neg htarget, hs.offer]
  dsimp only
  rw [htype, Option.getD_some, if_neg hne, if_pos rfl, hindex]
  dsimp only
  rw [parseIndex_text]
  dsimp only
  rw [habsent]

/-- What is served is a part of the release. -/
theorem offers_manifest (hbase : ∀ data, u.base64Decode (u.base64Encode data) = .ok data)
    (hkey : n.pubkeyHex = d.announcer) {rest : List (String × String)}
    (hc : n.Carries e (.updateManifest, u.base64Encode (d.manifest u.toPrimitives).2.2,
      (tagRootSig, hexEncode (d.manifest u.toPrimitives).2.1.1) :: rest)) : Offers u d .manifest e := by
  refine ⟨hc.pubkey.trans hkey, nofun, fun _ => ⟨hc.kind, decodeUpdatePayload_signed ?_ ?_⟩, nofun⟩
  · rw [hc.content]
    exact hbase _
  · rw [hc.tags]
    exact tagGet_head _ _ _

theorem offers_chunk (hbase : ∀ data, u.base64Decode (u.base64Encode data) = .ok data)
    (hkey : n.pubkeyHex = d.announcer) {index : UInt32} {data : Bytes} {rest : List (String × String)}
    (hdata : UpdateProtocol.chunk d.apk index defaultChunkSize.toNat = some data)
    (hc : n.Carries e (.updateChunk, u.base64Encode data, (tagIndex, toString index) :: rest)) :
    Offers u d (.chunk index) e := by
  refine ⟨hc.pubkey.trans hkey, nofun, nofun, ?_⟩
  rintro _ ⟨⟩
  refine ⟨hc.kind, ?_, data, ?_, hdata⟩
  · rw [MeshEvent.chunkIndex, hc.tags]
    have hhead : tagGet (buildTags ((tagIndex, toString index) :: rest)) tagIndex = some (toString index) :=
      tagGet_head _ _ _
    rw [hhead]
    exact parseIndex_text index
  · rw [hc.content]
    exact hbase data

/-- What the announcer does with a request: it goes on serving, and publishes the part, if there is one. -/
structure Served (env : UpdateEnv) (n : UpdateNode u) (d : Release) (part : Part) (event : MeshEvent) : Prop where
  serves : Serves d (n.handleIncomingUpdate env event).2
  offers : ∀ e, n.published env event = some e → ∃ part, Offers u d part e
  manifest : part = .manifest → ∃ e, n.published env event = some e ∧ Offers u d .manifest e
  chunk : ∀ index, part = .chunk index → index.toNat < d.chunkCount →
    ∃ e, n.published env event = some e ∧ Offers u d (.chunk index) e

/-- **What the announcer does with a request.** -/
theorem Serves.request (hl : u.toPrimitives.Lawful)
    (hbase : ∀ data, u.base64Decode (u.base64Encode data) = .ok data) (hs : Serves d n) {part : Part}
    (hr : Requests d part event) (env : UpdateEnv) : Served env n d part event := by
  cases part with
  | announcement => exact absurd rfl hr.asked
  | manifest =>
    have ha := hs.manifest_requested hl hr env
    obtain ⟨e, hpub, hc⟩ := ha.published
    have hoffers := offers_manifest hbase hs.pubkey hc
    refine ⟨ha.serves hs, fun e' he' => ?_, fun _ => ⟨e, hpub, hoffers⟩, nofun⟩
    rw [hpub] at he'
    cases he'
    exact ⟨_, hoffers⟩
  | chunk index =>
    cases hdata : UpdateProtocol.chunk d.apk index defaultChunkSize.toNat with
    | none =>
      obtain ⟨err, hh⟩ := hs.chunk_absent hr hdata env
      have hpub : n.published env event = none := published_none fun outcome hout => by
        rw [hh] at hout
        cases hout
      refine ⟨by rwa [hh], fun e he => ?_, nofun, ?_⟩
      · rw [hpub] at he
        cases he
      · rintro _ ⟨⟩ hi
        rw [UpdateProtocol.chunk_eq, if_pos (Release.lt_chunkCount.mp hi)] at hdata
        cases hdata
    | some data =>
      have ha := hs.chunk_requested hl hr hdata env
      obtain ⟨e, hpub, hc⟩ := ha.published
      have hoffers := offers_chunk hbase hs.pubkey hdata hc
      refine ⟨ha.serves hs, fun e' he' => ?_, nofun, ?_⟩
      · rw [hpub] at he'
        cases he'
        exact ⟨_, hoffers⟩
      · rintro _ ⟨⟩ -
        exact ⟨e, hpub, hoffers⟩

/-! ## The receiver -/

/-- A node that pins the root key of a release and has nothing to do with another one. -/
structure Receives (d : Release) (old : Version) (n : UpdateNode u) : Prop where
  newer : n.OnlyNewer
  wf : n.updateProtocol.Wf u.toPrimitives
  root : n.updateProtocol.rootPubkey = u.publicKey d.root.seed
  announced : n.pendingAnnouncement = none ∨ n.pendingAnnouncement = some (d.announcement u.toPrimitives).1
  pending : n.updateProtocol.pending = none ∨
    ∃ seen, UpdateProtocol.Holds d.apk (d.transfer u.toPrimitives) seen n.updateProtocol
  current : n.updateProtocol.currentVersion = old ∨ n.updateProtocol.currentVersion = d.version
  floor : n.reputation.requiredPowDifficulty n.pubkeyHex = 0

/-- What a receiver does with a part of a release. -/
structure Received (env : UpdateEnv) (n : UpdateNode u) (d : Release) (event : MeshEvent) : Prop where
  announced : (n.handleIncomingUpdate env event).2.pendingAnnouncement = none ∨
    (n.handleIncomingUpdate env event).2.pendingAnnouncement = some (d.announcement u.toPrimitives).1
  pending : (n.handleIncomingUpdate env event).2.updateProtocol.pending = none ∨ ∃ seen,
    UpdateProtocol.Holds d.apk (d.transfer u.toPrimitives) seen (n.handleIncomingUpdate env event).2.updateProtocol
  floor : (n.handleIncomingUpdate env event).2.reputation.requiredPowDifficulty
    (n.handleIncomingUpdate env event).2.pubkeyHex = 0
  requests : ∀ e, n.published env event = some e → ∃ part, Requests d part e
  installs : ∀ v, (n.handleIncomingUpdate env event).1 = .ok (.installed v) →
    v = d.version ∧ env.write n.updateInstallPath d.apk = .ok () ∧ d.apk ≠ []

variable {old : Version}

/-- An event that is refused leaves the receiver as it was. -/
theorem Receives.refused (hn : Receives d old n) (hsame : (n.handleIncomingUpdate env event).2 = n)
    (hout : ∀ outcome, (n.handleIncomingUpdate env event).1 = .ok outcome → ∃ reason, outcome = .rejected reason) :
    Received env n d event := by
  refine ⟨?_, ?_, ?_, fun e he => ?_, fun v hv => ?_⟩
  · rw [hsame]
    exact hn.announced
  · rw [hsame]
    exact hn.pending
  · rw [hsame]
    exact hn.floor
  · rw [published_none fun outcome ho => by obtain ⟨_, rfl⟩ := hout outcome ho; rfl] at he
    cases he
  · obtain ⟨reason, hr⟩ := hout _ hv
    cases hr

/-- One that is answered by a request goes on with the release. -/
theorem Answered.received {m : UpdateNode u} {outcome : UpdateHandlingOutcome}
    {r : OndeMessageType × String × List (String × String)} (ha : Answered env n event m outcome r)
    (hm : m.toNode = n.toNode) (hfloor : n.reputation.requiredPowDifficulty n.pubkeyHex = 0)
    (hann : m.pendingAnnouncement = none ∨ m.pendingAnnouncement = some (d.announcement u.toPrimitives).1)
    (hpending : m.updateProtocol.pending = none ∨
      ∃ seen, UpdateProtocol.Holds d.apk (d.transfer u.toPrimitives) seen m.updateProtocol)
    (hreq : ∀ e, n.Carries e r → ∃ part, Requests d part e) (hout : ∀ v, outcome ≠ .installed v) :
    Received env n d event := by
  have hrep : (n.handleIncomingUpdate env event).2.reputation = n.reputation := by rw [ha.same.reputation, hm]
  have hid : (n.handleIncomingUpdate env event).2.identity = n.identity := by rw [ha.same.identity, hm]
  refine ⟨ha.same.announced ▸ hann, ha.same.protocol ▸ hpending, ?_, fun e he => ?_, fun v hv => ?_⟩
  · rw [hrep, Node.pubkeyHex, hid]
    exact hfloor
  · obtain ⟨e', hpub, hc⟩ := ha.published
    rw [hpub] at he
    cases he
    exact hreq e hc
  · rw [ha.outcome] at hv
    cases hv
    exact absurd rfl (hout v)

/-- The announcement makes a receiver of an older version ask for the manifest, -/
theorem announcement_answered (hl : u.toPrimitives.Lawful) (hn : Receives d old n)
    (ho : Offers u d .announcement event) (hnew : n.updateProtocol.currentVersion < d.version) (env : UpdateEnv) :
    Answered env n event { n with pendingAnnouncement := some (d.announcement u.toPrimitives).1 }
      .announcementRequested (.updateRequest, "", [(tagReqType, "manifest"), (tagTo, d.announcer)]) := by
  obtain ⟨hk, hd⟩ := ho.announcement rfl
  have haccepted := announce_accepted hk hd (Release.accepted hl hn.root hnew) env
  have hrequest : OndeMessageType.updateRequest ≠ .alert := nofun
  rw [ho.pubkey] at haccepted
  refine answered hl hn.floor ?_ hrequest haccepted ?_
  · rfl
  · rw [reply, ho.pubkey]

/-- the manifest one that waits for it ask for the first chunk. -/
theorem manifest_answered (hl : u.toPrimitives.Lawful) (hsize : d.apk.length ≤ maxApkSize) (hn : Receives d old n)
    (ho : Offers u d .manifest event) (hann : n.pendingAnnouncement = some (d.announcement u.toPrimitives).1)
    (env : UpdateEnv) :
    Answered env n event
      { n with updateProtocol := { n.updateProtocol with
        pending := some (d.transfer u.toPrimitives), lastVerified := none } }
      .manifestRequested (.updateRequest, "", [(tagReqType, "chunk"), (tagTo, d.announcer),
        (tagIndex, toString (0 : UInt32)), (tagVersion, (d.announcement u.toPrimitives).1.version.text)]) := by
  obtain ⟨hk, hd⟩ := ho.manifest rfl
  have hstarted := Release.started hl hsize hn.root (d := d)
  rw [← ho.pubkey] at hstarted
  have haccepted := manifest_accepted hk hann hd hstarted env
  have hrequest : OndeMessageType.updateRequest ≠ .alert := nofun
  rw [ho.pubkey] at haccepted
  refine answered hl hn.floor ?_ hrequest haccepted ?_
  · rfl
  · rw [reply, hann, ho.pubkey, Option.map_some]
    rfl

/-- **What the receiver does with the announcement**, -/
theorem Receives.announcement (hl : u.toPrimitives.Lawful) (hn : Receives d old n)
    (ho : Offers u d .announcement event) (env : UpdateEnv) : Received env n d event := by
  obtain ⟨hk, hd⟩ := ho.announcement rfl
  cases ha : n.updateProtocol.handleAnnouncement u.toPrimitives (d.announcement u.toPrimitives).2.2
      (d.announcement u.toPrimitives).2.1 with
  | error err =>
    have hh : n.handleIncomingUpdate env event = (.ok (.rejected err.text), n) := by
      rw [handleIncomingUpdate, hk]
      dsimp only
      rw [onUpdateAnnounce, hd]
      dsimp only
      rw [ha]
    exact hn.refused (by rw [hh]) fun outcome ho => by rw [hh] at ho; cases ho; exact ⟨_, rfl⟩
  | ok a =>
    obtain ⟨-, hnew⟩ := Release.accepted_only hl hn.root ha
    exact (announcement_answered hl hn ho hnew env).received rfl hn.floor (.inr rfl) hn.pending
      (fun e hc => ⟨_, requests_manifest hc⟩) fun _ => by simp

/-- with the manifest, -/
theorem Receives.manifest (hl : u.toPrimitives.Lawful) (hsize : d.apk.length ≤ maxApkSize) (hn : Receives d old n)
    (ho : Offers u d .manifest event) (env : UpdateEnv) : Received env n d event := by
  obtain ⟨hk, hd⟩ := ho.manifest rfl
  rcases hn.announced with hann | hann
  · have hh : n.handleIncomingUpdate env event =
        (.error "update manifest received without a prior accepted announcement", n) := by
      rw [handleIncomingUpdate, hk]
      dsimp only
      rw [onUpdateManifest, hann]
    exact hn.refused (by rw [hh]) fun outcome ho => by rw [hh] at ho; cases ho
  · refine (manifest_answered hl hsize hn ho hann env).received rfl hn.floor hn.announced
      (.inr ⟨∅, Release.holds_nothing _⟩) (fun e hc => ⟨_, requests_chunk hc⟩) fun _ => by simp

/-- A chunk of the release is taken by its transfer. -/
theorem chunk_taken (hl : u.toPrimitives.Lawful) (hsize : d.apk.length ≤ maxApkSize) {p : UpdateProtocol}
    {seen : Finset UInt32} (hh : UpdateProtocol.Holds d.apk (d.transfer u.toPrimitives) seen p) {index : UInt32}
    {data : Bytes} (hdata : UpdateProtocol.chunk d.apk index defaultChunkSize.toNat = some data) :
    ∃ status q, p.handleChunk index data = .ok (status, q) ∧
      UpdateProtocol.Holds d.apk (d.transfer u.toPrimitives) (insert index seen) q := by
  obtain ⟨q, hq, hholds⟩ := hh.deliver (Release.transfer_wf hl hsize) (Release.apkSize hsize) index
  obtain ⟨status, hstored⟩ := UpdateProtocol.handleChunk_of_deliver hq hdata
  exact ⟨status, q, hstored, hholds⟩

/-- What is left to do once every chunk is there: the APK is written, or the write fails. -/
theorem finishTransfer_eq {apk : Bytes} {p : UpdateProtocol}
    (ha : n.updateProtocol.assembleAndVerify u.toPrimitives = (.ok apk, p)) (env : UpdateEnv) :
    n.finishTransfer env =
      match p.installVerified u.toPrimitives apk n.updateInstallPath (UInt64.ofNat env.clock) env.write with
      | .error err => (.error err.text, { n with updateProtocol := p })
      | .ok (installed, q) =>
        (.ok (.installed installed.version), { n with updateProtocol := q, pendingAnnouncement := none }) := by
  unfold finishTransfer
  dsimp only
  rw [ha]
  rfl

/-- The end of a transfer. -/
structure Finished (env : UpdateEnv) (n : UpdateNode u) (d : Release)
    (r : Except String UpdateHandlingOutcome × UpdateNode u) : Prop where
  node : r.2.toNode = n.toNode
  announced : r.2.pendingAnnouncement = none ∨ r.2.pendingAnnouncement = n.pendingAnnouncement
  pending : r.2.updateProtocol.pending = none
  outcome : (∃ err, r.1 = .error err) ∨ r.1 = .ok (.installed d.version) ∧ env.write n.updateInstallPath d.apk = .ok ()
  written : env.write n.updateInstallPath d.apk = .ok () → r.1 = .ok (.installed d.version)

/-- **A transfer with nothing missing ends with the APK written**, if it can be. -/
theorem finishTransfer_finished (hl : u.toPrimitives.Lawful) (hsize : d.apk.length ≤ maxApkSize)
    (hw : n.updateProtocol.Wf u.toPrimitives) {seen : Finset UInt32}
    (hh : UpdateProtocol.Holds d.apk (d.transfer u.toPrimitives) seen n.updateProtocol)
    (hall : ∀ i < d.chunkCount, UInt32.ofNat i ∈ seen) (env : UpdateEnv) :
    Finished env n d (n.finishTransfer env) := by
  have ha := Release.assembled hl hsize hw hh hall
  rw [finishTransfer_eq ha]
  cases hi : UpdateProtocol.installVerified u.toPrimitives
      { n.updateProtocol with pending := none, lastVerified := some ⟨d.version, u.sha256 d.apk⟩ } d.apk
      n.updateInstallPath (UInt64.ofNat env.clock) env.write with
  | error err =>
    refine ⟨rfl, .inr rfl, rfl, .inl ⟨_, rfl⟩, fun hwrite => ?_⟩
    have hok : ∃ r, UpdateProtocol.installVerified u.toPrimitives
        { n.updateProtocol with pending := none, lastVerified := some ⟨d.version, u.sha256 d.apk⟩ } d.apk
        n.updateInstallPath (UInt64.ofNat env.clock) env.write = .ok r :=
      ⟨_, UpdateProtocol.installVerified_ok.mpr
        ⟨⟨d.version, u.sha256 d.apk⟩, rfl, rfl, ⟨(), hwrite⟩, rfl, rfl⟩⟩
    rw [hi] at hok
    cases hok.choose_spec
  | ok r =>
    obtain ⟨installed, q⟩ := r
    obtain ⟨last, hlast, -, ⟨⟨⟩, hwrite⟩, rfl, rfl⟩ := UpdateProtocol.installVerified_ok.mp hi
    cases hlast
    exact ⟨rfl, .inl rfl, rfl, .inr ⟨rfl, hwrite⟩, fun _ => rfl⟩

/-- A chunk makes the receiver ask for the next one while one is missing, -/
theorem chunk_answered (hl : u.toPrimitives.Lawful) (hn : Receives d old n) {index : UInt32} {data : Bytes}
    {status : ChunkStatus} {q : UpdateProtocol} (ho : Offers u d (.chunk index) event)
    (hd : u.base64Decode event.content = .ok data) (hstored : n.updateProtocol.handleChunk index data = .ok (status, q))
    (hless : q.chunksReceived < q.totalChunks) (env : UpdateEnv) :
    Answered env n event { n with updateProtocol := q } (.chunkRequested (index + 1))
      (.updateRequest, "", [(tagReqType, "chunk"), (tagTo, d.announcer), (tagIndex, toString (index + 1))]) := by
  have hanswer := ho.chunk index rfl
  have haccepted := chunk_accepted hanswer.kind hanswer.carries hd hstored env
  have hrequest : OndeMessageType.updateRequest ≠ .alert := nofun
  rw [if_pos hless, ho.pubkey] at haccepted
  refine answered hl hn.floor ?_ hrequest haccepted ?_
  · rfl
  · rw [reply, ho.pubkey]

/-- and the last one ends the transfer. -/
theorem chunk_finished (hl : u.toPrimitives.Lawful) (hsize : d.apk.length ≤ maxApkSize) (hn : Receives d old n)
    {index : UInt32} {data : Bytes} {status : ChunkStatus} {q : UpdateProtocol} {seen : Finset UInt32}
    (ho : Offers u d (.chunk index) event) (hd : u.base64Decode event.content = .ok data)
    (hstored : n.updateProtocol.handleChunk index data = .ok (status, q))
    (hh : UpdateProtocol.Holds d.apk (d.transfer u.toPrimitives) seen q)
    (hless : ¬q.chunksReceived < q.totalChunks) (env : UpdateEnv) :
    Finished env n d (n.handleIncomingUpdate env event) := by
  have hanswer := ho.chunk index rfl
  have hw : q.Wf u.toPrimitives := hn.wf.stored hstored
  have hall : ∀ i < d.chunkCount, UInt32.ofNat i ∈ seen := by
    intro i hi
    by_contra hnot
    obtain ⟨chunks, hp, hlookup⟩ := hh
    rw [UpdateProtocol.received_lt_iff hw] at hless
    refine hless ⟨UInt32.ofNat i, (UpdateProtocol.missing_iff hp _).mpr ⟨?_, fun hmem => ?_⟩⟩
    · rw [← Release.expectedChunks hsize (c := u.toPrimitives)] at hi
      have ht := Release.transfer_wf hl hsize (d := d)
      exact (ht.toNat_ofNat hi).symm ▸ hi
    · have hsome := AList.lookup_isSome.mpr hmem
      rw [hlookup, if_neg hnot] at hsome
      cases hsome
  rw [chunk_accepted hanswer.kind hanswer.carries hd hstored env, if_neg hless]
  have hf := finishTransfer_finished (n := { n with updateProtocol := q }) hl hsize hw hh hall env
  exact ⟨hf.node, hf.announced, hf.pending, hf.outcome, hf.written⟩

/-- **and with a chunk.** -/
theorem Receives.chunk (hl : u.toPrimitives.Lawful) (hsize : d.apk.length ≤ maxApkSize) (hn : Receives d old n)
    {index : UInt32} (ho : Offers u d (.chunk index) event) (env : UpdateEnv) : Received env n d event := by
  have hanswer := ho.chunk index rfl
  obtain ⟨data, hd, hdata⟩ := hanswer.content
  rcases hn.pending with hnone | ⟨seen, hh⟩
  · have hh : ∃ reason, n.handleIncomingUpdate env event = (.ok (.rejected reason), n) := by
      obtain ⟨text, htag, hindex⟩ := Option.bind_eq_some_iff.mp hanswer.carries
      have hrefused : n.updateProtocol.handleChunk index data = .error .noPendingTransfer := by
        rw [UpdateProtocol.handleChunk, hnone]
      refine ⟨UpdateError.noPendingTransfer.text, ?_⟩
      rw [handleIncomingUpdate, hanswer.kind]
      dsimp only
      rw [onUpdateChunk, htag]
      dsimp only
      rw [hindex]
      dsimp only
      rw [hd]
      dsimp only
      rw [hrefused]
    obtain ⟨reason, hh⟩ := hh
    exact hn.refused (by rw [hh]) fun outcome ho => by rw [hh] at ho; cases ho; exact ⟨_, rfl⟩
  obtain ⟨status, q, hstored, hholds⟩ := chunk_taken hl hsize hh hdata
  by_cases hless : q.chunksReceived < q.totalChunks
  · exact (chunk_answered hl hn ho hd hstored hless env).received rfl hn.floor hn.announced (.inr ⟨_, hholds⟩)
      (fun e hc => ⟨_, requests_chunk hc⟩) fun _ => by simp
  · have hf := chunk_finished hl hsize hn ho hd hstored hholds hless env
    refine ⟨?_, .inl hf.pending, ?_, fun e he => ?_, fun v hv => ?_⟩
    · rcases hf.announced with h | h <;> rw [h]
      · exact .inl rfl
      · exact hn.announced
    · rw [hf.node]
      exact hn.floor
    · rw [published_none fun outcome hout => ?_] at he
      · cases he
      · rcases hf.outcome with ⟨err, herr⟩ | ⟨hinst, -⟩
        · rw [herr] at hout
          cases hout
        · rw [hinst] at hout
          cases hout
          rfl
    · rcases hf.outcome with ⟨err, herr⟩ | ⟨hinst, hwrite⟩
      · rw [herr] at hv
        cases hv
      · rw [hinst] at hv
        cases hv
        refine ⟨rfl, hwrite, fun hnil => ?_⟩
        rw [UpdateProtocol.chunk_eq, hnil, List.length_nil, if_neg (Nat.not_lt_zero _)] at hdata
        cases hdata

/-- What an event does keeps the root key. -/
theorem handleIncomingUpdate_rootPubkey (n : UpdateNode u) (env : UpdateEnv) (event : MeshEvent) :
    (n.handleIncomingUpdate env event).2.updateProtocol.rootPubkey = n.updateProtocol.rootPubkey := by
  obtain ⟨calls, hcalls⟩ := (n.handleIncomingUpdate_effect env event).calls
  rw [hcalls]
  clear hcalls
  induction calls using List.reverseRecOn with
  | nil => rfl
  | append_singleton calls call ih => rw [after_snoc, (UpdateProtocol.outcome_apply _ _ call).rootPubkey, ih]

/-- The receiver goes on with the release; the current version stays, or it is the installed one. -/
theorem Receives.received (hn : Receives d old n) (hr : Received env n d event) :
    Receives d old (n.handleIncomingUpdate env event).2 ∧
      ((∀ v, (n.handleIncomingUpdate env event).1 ≠ .ok (.installed v)) ∧
        (n.handleIncomingUpdate env event).2.updateProtocol.currentVersion = n.updateProtocol.currentVersion ∨
      (n.handleIncomingUpdate env event).1 = .ok (.installed d.version) ∧
        n.updateProtocol.currentVersion < d.version ∧
        (n.handleIncomingUpdate env event).2.updateProtocol.currentVersion = d.version) := by
  have he := n.handleIncomingUpdate_effect env event
  obtain ⟨hnewer, hcases⟩ := he.onlyNewer hn.newer
  have hroot := (n.handleIncomingUpdate_rootPubkey env event).trans hn.root
  have hmoved : (∀ v, (n.handleIncomingUpdate env event).1 ≠ .ok (.installed v)) ∧
        (n.handleIncomingUpdate env event).2.updateProtocol.currentVersion = n.updateProtocol.currentVersion ∨
      (n.handleIncomingUpdate env event).1 = .ok (.installed d.version) ∧
        n.updateProtocol.currentVersion < d.version ∧
        (n.handleIncomingUpdate env event).2.updateProtocol.currentVersion = d.version := by
    refine hcases.imp_right ?_
    rintro ⟨v, hv, hlt, hcur⟩
    obtain ⟨rfl, -⟩ := hr.installs v hv
    exact ⟨hv, hlt, hcur⟩
  refine ⟨⟨hnewer, he.wf hn.wf, hroot, hr.announced, hr.pending, ?_, hr.floor⟩, hmoved⟩
  rcases hmoved with ⟨-, hcur⟩ | ⟨-, -, hcur⟩
  · rw [hcur]
    exact hn.current
  · exact .inr hcur

/-- **What the receiver does with any part of the release.** -/
theorem Receives.offer (hl : u.toPrimitives.Lawful) (hsize : d.apk.length ≤ maxApkSize) (hn : Receives d old n)
    {part : Part} (ho : Offers u d part event) (env : UpdateEnv) : Received env n d event := by
  cases part with
  | announcement => exact hn.announcement hl ho env
  | manifest => exact hn.manifest hl hsize ho env
  | chunk index => exact hn.chunk hl hsize ho env

end UpdateNode

end Onde

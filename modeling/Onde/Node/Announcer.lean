import Onde.Crypto.Rotation
import Onde.Node.Publish
import Onde.Node.Rotation
import Onde.Reputation.Trust

/-!
# Do peers follow a rotation?

A node rotates, announces its key and restarts with the same identity and a fresh rotator; a peer that trusts it handles
what it announces.

* `RotatingNode.announceIdentityRotation`: the event carries the current key and the counter (`announce_payload`);
* `Peering.step`: the node and the peer take a step; `PeeringRun`: their runs;
* `announce_agrees_iff`: the peer has the key announced if the counter is new to it, or if it had that key before;
* `peers_follow`: in every run whose announcements outgrow those before the last restart (`Outgrows`), the peer has the
  current key after each of them;
* `restarted_refused`: a node that announces its key before and after a restart is refused.
-/

namespace Onde

open Lib Crypto Reputation Protocol Social Storage

/-- What announcing takes from outside besides: base64 and the key agreement, by the seed. -/
structure RotationHost extends Host where
  base64Encode : Bytes → String
  x25519PublicKey : ByteArr 32 → ByteArr 32

variable {u : RotationHost}

/-- The public key of the key agreement in hexadecimal. -/
def RotationHost.x25519PublicKeyHex (u : RotationHost) (i : Identity) : String := hexEncode (u.x25519PublicKey i.seed).1

/-- It is a key of 64 digits. -/
theorem x25519PublicKeyHex_hex (u : RotationHost) (i : Identity) : isHex64 (u.x25519PublicKeyHex i) = true :=
  isHex64_of_lowerHex (lowerHex_encode (u.x25519PublicKey i.seed))

/-- What a call reads from its surroundings, and the identity it may generate. -/
structure RotationEnv extends Env where
  generated : Identity

/-- The clock of the rotator. -/
def RotationEnv.now (env : RotationEnv) : UInt64 := UInt64.ofNat env.clock

def identityRotationSecs : UInt64 := 6 * 3600

/-- The node with its rotator. -/
structure RotatingNode (u : RotationHost) extends Node u.toHost where
  identityRotator : RotatingIdentity

namespace RotatingNode

/-- A node with a fresh rotator. -/
def new (n : Node u.toHost) (now : UInt64) (current next : Identity) : RotatingNode u where
  toNode := n
  identityRotator := .newWithStart identityRotationSecs now current next

/-- A restart: the files and the identity in them stay, the rest is fresh. -/
def restart (a : RotatingNode u) (now : UInt64) (current next : Identity) : RotatingNode u :=
  new (Node.new a.config a.identity a.persistence a.socialStore) now current next

/-- Rotate if it is time. -/
def maybeRotateIdentity (env : RotationEnv) (a : RotatingNode u) : Bool × RotatingNode u :=
  let r := a.identityRotator.maybeRotate env.now env.generated
  (r.1, { a with identityRotator := r.2 })

/-- The current key of the rotator. -/
def currentKey (a : RotatingNode u) : String := u.x25519PublicKeyHex a.identityRotator.current

/-- The signed announcement of the current key. -/
def buildRotationAnnouncement (u : RotationHost) (env : Env) (identity : Identity) (rotator : RotatingIdentity)
    (prevX25519 : String) : MeshEvent :=
  let newX25519 := u.x25519PublicKeyHex rotator.current
  let rotationCount := rotator.rotations
  let payload := rotationJson newX25519 prevX25519 rotationCount
  let content := u.base64Encode (utf8Bytes payload.render)
  let tags := buildTags [("identity_rotation", newX25519), ("rotation_count", toString rotationCount)]
  MeshEvent.newSigned u.toPrimitives identity .identityRotation content tags env.fuzzyTimestampSecs

/-- Rotate if it is time and announce the current key; a failure leaves the rotation done. -/
def announceIdentityRotation (env : RotationEnv) (a : RotatingNode u) : Except String MeshEvent × RotatingNode u :=
  let a := (a.maybeRotateIdentity env).2
  let prevX25519 := a.peerX25519.getD a.pubkeyHex ""
  let event := buildRotationAnnouncement u env.toEnv a.identity a.identityRotator prevX25519
  match a.toNode.publishSigned env.toEnv event "PoW computation failed" with
  | .error err => (.error err, a)
  | .ok r => (.ok r.1, { a with toNode := r.2 })

/-- The payload announced now. -/
def payload (env : RotationEnv) (a : RotatingNode u) : Json :=
  let a := (a.maybeRotateIdentity env).2
  rotationJson a.currentKey (a.peerX25519.getD a.pubkeyHex "") a.identityRotator.rotations

end RotatingNode

/-- Base64 and JSON give a value back. -/
structure RotationHost.ReadsBack (u : RotationHost) (payload : Json) : Prop where
  base64 : u.base64Decode (u.base64Encode (utf8Bytes payload.render)) = .ok (utf8Bytes payload.render)
  json : u.valueFromSlice (utf8Bytes payload.render) = .ok payload

namespace RotatingNode

variable {env : RotationEnv} {a : RotatingNode u} {event : MeshEvent}

/-- Announcing rotates as `maybeRotateIdentity` does and keeps the identity. -/
theorem announce_rotator (env : RotationEnv) (a : RotatingNode u) :
    (a.announceIdentityRotation env).2.identityRotator = (a.maybeRotateIdentity env).2.identityRotator ∧
      (a.announceIdentityRotation env).2.identity = a.identity := by
  unfold announceIdentityRotation
  dsimp only
  split
  · exact ⟨rfl, rfl⟩
  · next r hp => exact ⟨rfl, (Node.publishSigned_ok hp).2.2⟩

/-- **The event is signed by the node and carries the current key and the counter.** -/
theorem announce_payload (hl : u.toPrimitives.Lawful) (hread : u.ReadsBack (a.payload env))
    (he : (a.announceIdentityRotation env).1 = .ok event) :
    event.kind = .identityRotation ∧ event.pubkey = a.pubkeyHex ∧ event.signatureValid u.toPrimitives = true ∧
      rotationPayload u.toHost event = .ok ((a.announceIdentityRotation env).2.currentKey,
        (a.announceIdentityRotation env).2.identityRotator.rotations) := by
  have hrotator := (announce_rotator env a).1
  rw [currentKey, hrotator]
  unfold announceIdentityRotation at he
  dsimp only at he
  split at he
  · cases he
  · next r hp =>
    cases he
    obtain ⟨⟨nonce, hr⟩, _, _⟩ := Node.publishSigned_ok hp
    rw [hr]
    refine ⟨rfl, rfl, newSigned_signatureValid hl _ _ _ _ _, ?_⟩
    exact rotationPayload_of_read hread.base64 hread.json (x25519PublicKeyHex_hex u _)

/-- A node that asks nothing of itself can always announce. -/
theorem announce_trusting (hl : u.toPrimitives.Lawful) (env : RotationEnv) (a : RotatingNode u)
    (hfloor : a.reputation.requiredPowDifficulty a.pubkeyHex = 0) :
    ∃ event, (a.announceIdentityRotation env).1 = .ok event := by
  have hrotated : (a.maybeRotateIdentity env).2.toNode = a.toNode := rfl
  unfold announceIdentityRotation
  dsimp only
  generalize hevent : buildRotationAnnouncement u env.toEnv (a.maybeRotateIdentity env).2.identity _ _ = event
  have hsigned : event.checkSigned u.toPrimitives env.clock = .ok () := by
    rw [← hevent]
    refine newSigned_checkSigned hl _ _ nofun (env.fuzzyTimestampSecs_le.trans ?_)
    exact Nat.add_le_add_left (by decide) _
  have hvalid : (event.withPowDifficulty 0).validateWithReputation u.toPrimitives env.clock a.reputation = .ok () := by
    rw [MeshEvent.validateWithReputation, show (event.withPowDifficulty 0).pubkey = a.pubkeyHex by rw [← hevent]; rfl,
      hfloor]
    exact validateWithPowMin_ok.mpr ⟨hsigned, checkPow_ok.mpr ⟨UInt8.le_refl 0, verifyPow_zero _ _ _⟩⟩
  have hp : a.toNode.publishSigned env.toEnv event "PoW computation failed" = _ :=
    Node.publishSigned_trusted _ hfloor hvalid
  rw [hrotated, hp]
  exact ⟨_, rfl⟩

/-- What a fresh node announces: a key of its session and the counter of the session. -/
theorem announce_new (hl : u.toPrimitives.Lawful) {env : RotationEnv} {a : RotatingNode u} {config : NodeConfig}
    {identity : Identity} {persistence : Option u.MessageDb} {socialStore : Option u.SocialDb} {now : UInt64}
    {current next : Identity} (ha : a = new (Node.new config identity persistence socialStore) now current next)
    {r : RotatingIdentity} (hr : (a.identityRotator.maybeRotate env.now env.generated).2 = r) {key : String}
    (hkey : u.x25519PublicKeyHex r.current = key) :
    (∃ event, (a.announceIdentityRotation env).1 = .ok event) ∧
      (a.announceIdentityRotation env).2.currentKey = key ∧
      (a.announceIdentityRotation env).2.identityRotator.rotations = r.rotations ∧
      a.payload env = rotationJson key "" r.rotations := by
  have hrotated : (a.maybeRotateIdentity env).2.identityRotator = r := hr
  obtain ⟨hrotator, _⟩ := announce_rotator env a
  rw [currentKey, hrotator, hrotated, payload, currentKey, hrotated, hkey]
  refine ⟨?_, rfl, rfl, ?_⟩
  · rw [ha]
    exact announce_trusting hl env _ (Node.new_floor config identity persistence socialStore)
  · rw [ha]
    rfl

end RotatingNode

/-! ## The two nodes -/

/-- The node that announces and the peer. -/
structure Peering (u : RotationHost) where
  announcer : RotatingNode u
  peer : Node u.toHost

/-- What the announcer does; the peer handles each announcement as it comes. -/
inductive RotationStep where
  | rotate (env : RotationEnv)
  | announce (env : RotationEnv) (peerEnv : Env)
  | restart (now : UInt64) (current next : Identity)

def RotationStep.isRestart : RotationStep → Bool
  | restart _ _ _ => true
  | _ => false

namespace Peering

/-- One step. -/
def step (p : Peering u) : RotationStep → Peering u
  | .rotate env => { p with announcer := (p.announcer.maybeRotateIdentity env).2 }
  | .announce env peerEnv =>
    match p.announcer.announceIdentityRotation env with
    | (.error _, a) => { p with announcer := a }
    | (.ok event, a) => ⟨a, (p.peer.handleIncomingRotation peerEnv event).2⟩
  | .restart now current next => { p with announcer := p.announcer.restart now current next }

/-- Whatever else the two do: the announcer keeps its identity and its rotator, the peer its keys and its trust. -/
inductive Quietly (p : Peering u) : Peering u → Prop
  | announcer {n : Node u.toHost} (hid : n.identity = p.announcer.identity) :
    Quietly p { p with announcer := { p.announcer with toNode := n } }
  | peer {n : Node u.toHost} (hs : Node.SameKeys p.peer n)
    (htrust : n.reputation.isTrusted p.announcer.pubkeyHex = true) : Quietly p { p with peer := n }

/-- The peer has the current key of the announcer. -/
def Agrees (p : Peering u) : Prop := p.peer.peerX25519Key p.announcer.pubkeyHex = some p.announcer.currentKey

end Peering

/-- A step as a relation. -/
def Steps (l : RotationStep) (p p' : Peering u) : Prop := p' = p.step l

/-- The runs of the two nodes. -/
abbrev PeeringRun (p₀ : Peering u) (vs : List (Visit (Peering u) RotationStep)) (p : Peering u) : Prop :=
  Run Steps Peering.Quietly p₀ vs p

/-- The counter of the announcement a step emits, if it emits one. -/
def announcedCount (v : Visit (Peering u) RotationStep) : Option UInt64 :=
  match v.label with
  | .announce env _ =>
    if (v.state.announcer.announceIdentityRotation env).1.isOk then
      some (v.state.announcer.maybeRotateIdentity env).2.identityRotator.rotations
    else none
  | _ => none

/-- The counters announced. -/
def announcedCounts (vs : List (Visit (Peering u) RotationStep)) : List UInt64 := vs.filterMap announcedCount

/-- The steps up to the last restart. -/
def beforeRestart (vs : List (Visit (Peering u) RotationStep)) : List (Visit (Peering u) RotationStep) :=
  vs.rdropWhile fun v => !v.label.isRestart

/-- Every announcement has a larger counter than those before the last restart. -/
def Outgrows (vs : List (Visit (Peering u) RotationStep)) : Prop :=
  ∀ past v rest, vs = past ++ v :: rest → ∀ count, announcedCount v = some count →
    ∀ c ∈ announcedCounts (beforeRestart past), c < count

theorem outgrows_nil : Outgrows ([] : List (Visit (Peering u) RotationStep)) := by
  intro past v rest hsplit
  cases past <;> cases hsplit

/-- What an announcing step announces can be read back. -/
def ReadsBackAt (v : Visit (Peering u) RotationStep) : Prop :=
  ∀ env peerEnv, v.label = .announce env peerEnv → u.ReadsBack (v.state.announcer.payload env)

section

variable {vs : List (Visit (Peering u) RotationStep)} {v : Visit (Peering u) RotationStep}

theorem announcedCount_ok {p : Peering u} {env : RotationEnv} {peerEnv : Env} {event : MeshEvent}
    (he : (p.announcer.announceIdentityRotation env).1 = .ok event) :
    announcedCount ⟨p, .announce env peerEnv⟩ =
      some (p.announcer.maybeRotateIdentity env).2.identityRotator.rotations := by
  rw [announcedCount]
  dsimp only
  rw [he]
  rfl

theorem announcedCount_error {p : Peering u} {env : RotationEnv} {peerEnv : Env} {err : String}
    (he : (p.announcer.announceIdentityRotation env).1 = .error err) :
    announcedCount ⟨p, .announce env peerEnv⟩ = none := by
  rw [announcedCount]
  dsimp only
  rw [he]
  rfl

theorem announcedCounts_snoc (vs : List (Visit (Peering u) RotationStep)) (v : Visit (Peering u) RotationStep) :
    announcedCounts (vs ++ [v]) = announcedCounts vs ++ (announcedCount v).toList := by
  rw [announcedCounts, List.filterMap_append, announcedCounts, List.filterMap_cons]
  cases announcedCount v <;> rfl

theorem beforeRestart_restart (hv : v.label.isRestart = true) : beforeRestart (vs ++ [v]) = vs ++ [v] :=
  List.rdropWhile_concat_neg _ _ _ (by simp [hv])

theorem beforeRestart_other (hv : v.label.isRestart = false) : beforeRestart (vs ++ [v]) = beforeRestart vs :=
  List.rdropWhile_concat_pos _ _ _ (by simp [hv])

theorem Outgrows.init (ho : Outgrows (vs ++ [v])) : Outgrows vs := by
  rintro past w rest rfl
  exact ho past w (rest ++ [v]) (by simp)

theorem Outgrows.last (ho : Outgrows (vs ++ [v])) {count : UInt64} (hcount : announcedCount v = some count) :
    ∀ c ∈ announcedCounts (beforeRestart vs), c < count :=
  ho vs v [] rfl count hcount

theorem Outgrows.snoc (ho : Outgrows vs) (hv : ∀ count, announcedCount v = some count →
    ∀ c ∈ announcedCounts (beforeRestart vs), c < count) : Outgrows (vs ++ [v]) := by
  intro past w rest hsplit
  rcases List.eq_nil_or_concat rest with rfl | ⟨rest', w', rfl⟩
  · obtain ⟨rfl, hlast⟩ := List.append_inj' hsplit rfl
    cases hlast
    exact hv
  · rw [List.concat_eq_append, ← List.cons_append, ← List.append_assoc] at hsplit
    exact ho past w rest' (List.append_inj' hsplit rfl).1

end

namespace Peering

variable {p p' : Peering u} {env : RotationEnv} {peerEnv : Env} {event : MeshEvent}

theorem step_announce_error {err : String} (he : (p.announcer.announceIdentityRotation env).1 = .error err) :
    p.step (.announce env peerEnv) = { p with announcer := (p.announcer.announceIdentityRotation env).2 } := by
  unfold step
  dsimp only
  generalize p.announcer.announceIdentityRotation env = r at he ⊢
  obtain ⟨res, a⟩ := r
  obtain rfl : res = .error err := he
  rfl

theorem step_announce_ok (he : (p.announcer.announceIdentityRotation env).1 = .ok event) :
    p.step (.announce env peerEnv) = ⟨(p.announcer.announceIdentityRotation env).2,
      (p.peer.handleIncomingRotation peerEnv event).2⟩ := by
  unfold step
  dsimp only
  generalize p.announcer.announceIdentityRotation env = r at he ⊢
  obtain ⟨res, a⟩ := r
  obtain rfl : res = .ok event := he
  rfl

theorem step_announced (hp : Steps (.announce env peerEnv) p p')
    (he : (p.announcer.announceIdentityRotation env).1 = .ok event) :
    (p.announcer.announceIdentityRotation env).2 = p'.announcer ∧
      (p.peer.handleIncomingRotation peerEnv event).2 = p'.peer := by
  rw [hp, step_announce_ok he]
  exact ⟨rfl, rfl⟩

/-- A counter is new to the peer. -/
def NewToPeer (p : Peering u) (count : UInt64) : Prop :=
  ∀ last, p.peer.peerRotationCount.lookup p.announcer.pubkeyHex = some last → last < count

/-- An announcement with a new counter leaves the peer with the announced key and counter; the peer stays as it was
otherwise, or if it had that key. -/
theorem announce_cases (hl : u.toPrimitives.Lawful) (htrust : p.peer.reputation.isTrusted p.announcer.pubkeyHex = true)
    (hread : u.ReadsBack (p.announcer.payload env)) (he : (p.announcer.announceIdentityRotation env).1 = .ok event)
    (peerEnv : Env) :
    let a := (p.announcer.announceIdentityRotation env).2
    let n := (p.peer.handleIncomingRotation peerEnv event).2
    (p.NewToPeer a.identityRotator.rotations ∧ n.peerX25519Key p.announcer.pubkeyHex = some a.currentKey ∧
      n.peerRotationCount.lookup p.announcer.pubkeyHex = some a.identityRotator.rotations) ∨
    (n = p.peer ∧ (p.NewToPeer a.identityRotator.rotations →
      p.peer.peerX25519Key p.announcer.pubkeyHex = some a.currentKey)) := by
  intro a n
  obtain ⟨hk, hpubkey, hsig, hpayload⟩ := RotatingNode.announce_payload hl hread he
  rcases p.peer.handleIncomingRotation_cases peerEnv event with ⟨hrefused, hstays⟩ | ⟨key, count, _, hacc, hsame⟩
  · right
    refine ⟨hstays, fun hnew => ?_⟩
    by_contra hother
    rw [NewToPeer, ← hpubkey] at hnew
    rw [← hpubkey] at hother htrust
    exact hrefused (Node.handleIncomingRotation_applied.mpr ⟨hk, _, _, hpayload, hsig, htrust, hnew, hother⟩)
  · left
    have hp := hacc.payload
    rw [hpayload] at hp
    cases hp
    rw [NewToPeer, Node.peerX25519Key, hsame.current, hsame.counts, ← hpubkey]
    exact ⟨hacc.newer, AList.lookup_insert _, AList.lookup_insert _⟩

/-- **The peer has the key announced if the counter is new to it, or if it had that key before, and only then.** -/
theorem announce_agrees_iff (hl : u.toPrimitives.Lawful)
    (htrust : p.peer.reputation.isTrusted p.announcer.pubkeyHex = true)
    (hread : u.ReadsBack (p.announcer.payload env)) (he : (p.announcer.announceIdentityRotation env).1 = .ok event)
    (peerEnv : Env) :
    (p.step (.announce env peerEnv)).Agrees ↔
      p.NewToPeer (p.announcer.announceIdentityRotation env).2.identityRotator.rotations ∨
        p.peer.peerX25519Key p.announcer.pubkeyHex =
          some (p.announcer.announceIdentityRotation env).2.currentKey := by
  have hid : (p.announcer.announceIdentityRotation env).2.pubkeyHex = p.announcer.pubkeyHex := by
    rw [Node.pubkeyHex, (RotatingNode.announce_rotator env p.announcer).2, Node.pubkeyHex]
  rw [step_announce_ok he, Agrees, hid]
  rcases announce_cases hl htrust hread he peerEnv with ⟨hnew, hkey, _⟩ | ⟨hstays, hold⟩
  · exact ⟨fun _ => Or.inl hnew, fun _ => hkey⟩
  · rw [hstays]
    exact ⟨Or.inr, fun hor => hor.elim hold id⟩

/-- No step changes who the announcer is. -/
theorem step_pubkeyHex (p : Peering u) (l : RotationStep) :
    (p.step l).announcer.pubkeyHex = p.announcer.pubkeyHex := by
  cases l with
  | rotate env => rfl
  | announce env peerEnv =>
    have hid := (RotatingNode.announce_rotator env p.announcer).2
    cases he : (p.announcer.announceIdentityRotation env).1 with
    | error err =>
      rw [step_announce_error he, Node.pubkeyHex, hid]
      rfl
    | ok event =>
      rw [step_announce_ok he, Node.pubkeyHex, hid]
      rfl
  | restart now current next => rfl

/-! ## Runs -/

/-- What a step rotates to: the rotator is at its old count with the old key, or at a larger one. -/
theorem rotated_bound {r : RotatingIdentity} (hr : r.Paced) (now : UInt64) (generated : Identity) {last : UInt64}
    {known : Option String}
    (hb : last ≤ r.rotations ∧ (last = r.rotations → known = some (u.x25519PublicKeyHex r.current))) :
    last ≤ (r.maybeRotate now generated).2.rotations ∧ (last = (r.maybeRotate now generated).2.rotations →
      known = some (u.x25519PublicKeyHex (r.maybeRotate now generated).2.current)) := by
  rcases RotatingIdentity.maybeRotate_count hr now generated with hsame | ⟨hlt, _⟩
  · rw [hsame]
    exact hb
  · have hlt' := UInt64.lt_of_le_of_lt hb.1 hlt
    exact ⟨UInt64.le_of_lt hlt', fun heq => absurd heq (UInt64.ne_of_lt hlt')⟩

/-- What a run keeps: the counter the peer recorded was announced, before the last restart or since; since then it is
at most the counter of the rotator, and at that counter the peer has the current key. -/
structure Follows (vs : List (Visit (Peering u) RotationStep)) (p : Peering u) : Prop where
  paced : p.announcer.identityRotator.Paced
  trusted : p.peer.reputation.isTrusted p.announcer.pubkeyHex = true
  recorded : ∀ last, p.peer.peerRotationCount.lookup p.announcer.pubkeyHex = some last → last ∈ announcedCounts vs
  bounded : ∀ last, p.peer.peerRotationCount.lookup p.announcer.pubkeyHex = some last →
    last ∈ announcedCounts (beforeRestart vs) ∨ (last ≤ p.announcer.identityRotator.rotations ∧
      (last = p.announcer.identityRotator.rotations → p.Agrees))

variable {vs : List (Visit (Peering u) RotationStep)}

/-- A step that announces nothing but may rotate keeps it. -/
theorem Follows.rotated {a : RotatingNode u} {v : Visit (Peering u) RotationStep} (hf : Follows vs p)
    (hid : a.identity = p.announcer.identity)
    (ha : a.identityRotator = (p.announcer.maybeRotateIdentity env).2.identityRotator)
    (hcount : announcedCount v = none) (hrestart : v.label.isRestart = false) :
    Follows (vs ++ [v]) { p with announcer := a } := by
  have hpubkey : a.pubkeyHex = p.announcer.pubkeyHex := by rw [Node.pubkeyHex, hid, Node.pubkeyHex]
  obtain ⟨hpaced, htrust, hrec, hbound⟩ := hf
  constructor
  · rw [ha]
    exact RotatingIdentity.maybeRotate_paced hpaced _ _
  · rw [hpubkey]
    exact htrust
  · rw [hpubkey, announcedCounts_snoc, hcount, Option.toList_none, List.append_nil]
    exact hrec
  · rw [Agrees, RotatingNode.currentKey, ha, hpubkey, beforeRestart_other hrestart]
    exact fun last hlast => (hbound last hlast).imp_right (rotated_bound hpaced env.now env.generated)

/-- The peer has the current key after an announcement that outgrows the ones before the last restart. -/
theorem Follows.announce (hl : u.toPrimitives.Lawful) (hf : Follows vs p)
    (hread : u.ReadsBack (p.announcer.payload env)) (he : (p.announcer.announceIdentityRotation env).1 = .ok event)
    (hout : ∀ c ∈ announcedCounts (beforeRestart vs),
      c < (p.announcer.maybeRotateIdentity env).2.identityRotator.rotations) :
    (p.step (.announce env peerEnv)).Agrees := by
  rw [announce_agrees_iff hl hf.trusted hread he peerEnv]
  obtain ⟨hrotator, _⟩ := RotatingNode.announce_rotator env p.announcer
  rw [RotatingNode.currentKey, hrotator]
  cases hlast : p.peer.peerRotationCount.lookup p.announcer.pubkeyHex with
  | none =>
    left
    intro last hsome
    rw [hlast] at hsome
    cases hsome
  | some last =>
    by_cases hlt : last < (p.announcer.maybeRotateIdentity env).2.identityRotator.rotations
    · left
      intro last' hsome
      rw [hlast] at hsome
      cases hsome
      exact hlt
    · right
      rcases hf.bounded last hlast with hold | hsince
      · exact absurd (hout last hold) hlt
      · obtain ⟨hle, hkey⟩ := rotated_bound (u := u) hf.paced env.now env.generated hsince
        exact hkey (UInt64.le_antisymm hle (UInt64.not_lt.mp hlt))

/-- An announcement keeps it, -/
theorem Follows.announced (hl : u.toPrimitives.Lawful) (hf : Follows vs p)
    (hread : u.ReadsBack (p.announcer.payload env)) (he : (p.announcer.announceIdentityRotation env).1 = .ok event)
    (hagrees : (p.step (.announce env peerEnv)).Agrees) :
    Follows (vs ++ [⟨p, .announce env peerEnv⟩]) (p.step (.announce env peerEnv)) := by
  have hpubkey := step_pubkeyHex p (.announce env peerEnv)
  obtain ⟨hrotator, _⟩ := RotatingNode.announce_rotator env p.announcer
  have hcases := announce_cases hl hf.trusted hread he peerEnv
  dsimp only at hcases
  rw [hrotator] at hcases
  have hsnoc : announcedCounts (vs ++ [⟨p, .announce env peerEnv⟩]) =
      announcedCounts vs ++ [(p.announcer.maybeRotateIdentity env).2.identityRotator.rotations] := by
    rw [announcedCounts_snoc, announcedCount_ok he]
    rfl
  have hpeer : (p.step (.announce env peerEnv)).peer = (p.peer.handleIncomingRotation peerEnv event).2 := by
    rw [step_announce_ok he]
  have hafter : (p.step (.announce env peerEnv)).announcer.identityRotator =
      (p.announcer.maybeRotateIdentity env).2.identityRotator := by
    rw [step_announce_ok he]
    exact hrotator
  constructor
  · rw [hafter]
    exact RotatingIdentity.maybeRotate_paced hf.paced _ _
  · rw [hpubkey, hpeer, Node.handleIncomingRotation_reputation]
    exact hf.trusted
  · rw [hpubkey, hpeer, hsnoc]
    intro last hlast
    rcases hcases with ⟨_, _, hnew⟩ | ⟨hstays, _⟩
    · rw [hnew] at hlast
      cases hlast
      exact List.mem_append_right _ (List.mem_singleton_self _)
    · rw [hstays] at hlast
      exact List.mem_append_left _ (hf.recorded last hlast)
  · rw [hpubkey, hpeer, hafter, beforeRestart_other rfl]
    intro last hlast
    rcases hcases with ⟨_, _, hnew⟩ | ⟨hstays, _⟩
    · rw [hnew] at hlast
      cases hlast
      exact Or.inr ⟨UInt64.le_refl _, fun _ => hagrees⟩
    · rw [hstays] at hlast
      refine (hf.bounded last hlast).imp_right fun hb => ⟨?_, fun _ => hagrees⟩
      exact (rotated_bound (u := u) hf.paced env.now env.generated hb).1

/-- and so does every step that outgrows. -/
theorem Follows.step (hl : u.toPrimitives.Lawful) (hf : Follows vs p) (l : RotationStep)
    (hread : ReadsBackAt ⟨p, l⟩) (hout : Outgrows (vs ++ [⟨p, l⟩])) :
    Follows (vs ++ [⟨p, l⟩]) (p.step l) ∧ ((announcedCount ⟨p, l⟩).isSome → (p.step l).Agrees) := by
  cases l with
  | rotate env => exact ⟨hf.rotated rfl rfl rfl rfl, nofun⟩
  | restart now current next =>
    have hrestart : beforeRestart (vs ++ [⟨p, .restart now current next⟩]) = vs ++ [⟨p, .restart now current next⟩] :=
      beforeRestart_restart rfl
    have hsnoc : announcedCounts (vs ++ [⟨p, .restart now current next⟩]) = announcedCounts vs := by
      rw [announcedCounts_snoc]
      exact List.append_nil _
    refine ⟨⟨RotatingIdentity.newWithStart_paced _ _ _ _, hf.trusted, ?_, fun last hlast => Or.inl ?_⟩, nofun⟩
    · rw [hsnoc]
      exact hf.recorded
    · rw [hrestart, hsnoc]
      exact hf.recorded last hlast
  | announce env peerEnv =>
    obtain ⟨hrotator, hid⟩ := RotatingNode.announce_rotator env p.announcer
    cases he : (p.announcer.announceIdentityRotation env).1 with
    | error err =>
      rw [announcedCount_error he, step_announce_error he]
      exact ⟨hf.rotated hid hrotator (announcedCount_error he) rfl, nofun⟩
    | ok event =>
      have hread' := hread env peerEnv rfl
      have hagrees : (p.step (.announce env peerEnv)).Agrees :=
        hf.announce hl hread' he (hout.last (announcedCount_ok he))
      exact ⟨hf.announced hl hread' he hagrees, fun _ => hagrees⟩

/-- What the two do otherwise keeps it, too. -/
theorem Follows.quietly (hf : Follows vs p) (hq : Quietly p p') : Follows vs p' := by
  cases hq with
  | @announcer n hid =>
    have hpubkey : n.pubkeyHex = p.announcer.pubkeyHex := by rw [Node.pubkeyHex, hid, Node.pubkeyHex]
    constructor
    · exact hf.paced
    · exact hpubkey ▸ hf.trusted
    · exact hpubkey ▸ hf.recorded
    · have hbound := hf.bounded
      rw [Agrees, ← hpubkey] at hbound
      exact hbound
  | peer hs htrust =>
    obtain ⟨hcur, _, hcounts⟩ := hs
    constructor
    · exact hf.paced
    · exact htrust
    · rw [hcounts]
      exact hf.recorded
    · rw [Agrees, Node.peerX25519Key, hcounts, hcur]
      exact hf.bounded

end Peering

open Peering

theorem follows_run (hl : u.toPrimitives.Lawful) {p₀ p : Peering u} {vs : List (Visit (Peering u) RotationStep)}
    (h₀ : Follows [] p₀) (hr : PeeringRun p₀ vs p) (hread : ∀ v ∈ vs, ReadsBackAt v) (hout : Outgrows vs) :
    Follows vs p ∧ ∀ v ∈ vs, (announcedCount v).isSome → (v.state.step v.label).Agrees := by
  induction hr with
  | start => exact ⟨h₀, fun v hv => absurd hv List.not_mem_nil⟩
  | @visit vs s s' l _ hstep ih =>
    obtain ⟨hf, hall⟩ := ih (fun v hv => hread v (List.mem_append_left _ hv)) hout.init
    obtain ⟨hnext, hlast⟩ := hf.step hl l (hread ⟨s, l⟩ (List.mem_append_right _ (List.mem_singleton_self _))) hout
    rw [hstep]
    refine ⟨hnext, fun v hv => ?_⟩
    rcases List.mem_append.mp hv with hold | hnew
    · exact hall v hold
    · rw [List.mem_singleton.mp hnew]
      exact hlast
  | silent _ hq ih =>
    obtain ⟨hf, hall⟩ := ih hread hout
    exact ⟨hf.quietly hq, hall⟩

/-- **A peer follows the announcer through every restart after which the counter outgrows what was announced before**:
it has the current key after each announcement. -/
theorem peers_follow (hl : u.toPrimitives.Lawful) {n peer : Node u.toHost} {now : UInt64} {current next : Identity}
    {p : Peering u} {vs : List (Visit (Peering u) RotationStep)}
    (htrust : peer.reputation.isTrusted n.pubkeyHex = true) (hnone : peer.peerRotationCount.lookup n.pubkeyHex = none)
    (hr : PeeringRun ⟨.new n now current next, peer⟩ vs p) (hread : ∀ v ∈ vs, ReadsBackAt v) (hout : Outgrows vs) :
    ∀ v ∈ vs, (announcedCount v).isSome → (v.state.step v.label).Agrees := by
  have hnone' : ∀ last, peer.peerRotationCount.lookup n.pubkeyHex ≠ some last := fun last hlast => by
    rw [hnone] at hlast
    cases hlast
  have h₀ : Follows [] (⟨.new n now current next, peer⟩ : Peering u) :=
    ⟨RotatingIdentity.newWithStart_paced _ _ _ _, htrust, fun last hlast => absurd hlast (hnone' last),
      fun last hlast => absurd hlast (hnone' last)⟩
  exact (follows_run hl h₀ hr hread hout).2

/-! ## A restart -/

/-- The text of a payload. -/
def encodeKnown (data : Bytes) : String :=
  if data = utf8Bytes (announcedJson firstKey 0).render then firstText
  else if data = utf8Bytes (announcedJson laterKey 1).render then laterText
  else if data = utf8Bytes (announcedJson restartedKey 0).render then restartedText
  else ""

/-- The keys of three generated identities. -/
def knownAgreementKeys : List (String × String) :=
  [("0303030303030303030303030303030303030303030303030303030303030303", firstKey),
   ("0404040404040404040404040404040404040404040404040404040404040404", laterKey),
   ("0505050505050505050505050505050505050505050505050505050505050505", restartedKey)]

def rotationHost : RotationHost := { keyHost with
  base64Encode := encodeKnown
  x25519PublicKey seed :=
    bytesOfHex 32 (((knownAgreementKeys.find? fun x => x.1 = hexEncode seed.1).map Prod.snd).getD "") }

theorem rotationHost_lawful : rotationHost.toPrimitives.Lawful := keyHost_lawful

/-- The announcing node, -/
def announcingNode : Node rotationHost.toHost := Node.new .default (.ofByte 1) none none

/-- and a peer that trusts it. -/
def trustingPeer : Node rotationHost.toHost :=
  let n := Node.new (h := rotationHost.toHost) .default (.ofByte 2) none none
  { n with reputation := n.reputation.bootstrap [knownAuthor] }

theorem trustingPeer_trusts : trustingPeer.reputation.isTrusted knownAuthor = true := by decide +kernel

/-- The public key of a seed is the listed one. -/
theorem x25519_of_known {i : Identity} {x : String × String}
    (hx : knownAgreementKeys.find? (fun x => x.1 = hexEncode i.seed.1) = some x) (hlow : LowerHex 32 x.2) :
    rotationHost.x25519PublicKeyHex i = x.2 := by
  have hpub : rotationHost.x25519PublicKeyHex i =
      hexEncode (bytesOfHex 32 (((knownAgreementKeys.find? fun x => x.1 = hexEncode i.seed.1).map Prod.snd).getD
        "")).1 := rfl
  rw [hpub, hx]
  exact hexEncode_bytesOfHex hlow

theorem knownAgreementKeys_lowerHex : ∀ x ∈ knownAgreementKeys, LowerHex 32 x.2 :=
  List.forall_mem_cons.mpr ⟨lowerHex_ofList rfl rfl, List.forall_mem_cons.mpr ⟨lowerHex_ofList rfl rfl,
    List.forall_mem_singleton.mpr (lowerHex_ofList rfl rfl)⟩⟩

theorem first_x25519 : rotationHost.x25519PublicKeyHex (.ofByte 3) = firstKey :=
  x25519_of_known (x := knownAgreementKeys[0]) rfl (knownAgreementKeys_lowerHex _ (List.getElem_mem _))

theorem later_x25519 : rotationHost.x25519PublicKeyHex (.ofByte 4) = laterKey :=
  x25519_of_known (x := knownAgreementKeys[1]) rfl (knownAgreementKeys_lowerHex _ (List.getElem_mem _))

theorem restarted_x25519 : rotationHost.x25519PublicKeyHex (.ofByte 5) = restartedKey :=
  x25519_of_known (x := knownAgreementKeys[2]) rfl (knownAgreementKeys_lowerHex _ (List.getElem_mem _))

theorem readsBack_of {payload : Json} {text : String} (hencode : encodeKnown (utf8Bytes payload.render) = text)
    (hdecode : decodeKnown text = .ok (utf8Bytes payload.render))
    (hjson : readKnown (utf8Bytes payload.render) = .ok payload) : rotationHost.ReadsBack payload :=
  ⟨(congrArg decodeKnown hencode).trans hdecode, hjson⟩

theorem first_readsBack : rotationHost.ReadsBack (rotationJson firstKey "" 0) := by
  have hencode : encodeKnown (utf8Bytes (rotationJson firstKey "" 0).render) = firstText := if_pos rfl
  have hdecode : decodeKnown firstText = .ok (utf8Bytes (rotationJson firstKey "" 0).render) := if_pos rfl
  have hjson : readKnown (utf8Bytes (rotationJson firstKey "" 0).render) = .ok (rotationJson firstKey "" 0) :=
    if_pos rfl
  exact readsBack_of hencode hdecode hjson

theorem later_readsBack : rotationHost.ReadsBack (rotationJson laterKey "" 1) := by
  have hne : utf8Bytes (rotationJson laterKey "" 1).render ≠ utf8Bytes (announcedJson firstKey 0).render :=
    fun h => absurd (rotationJson_inj h).2.2 (by decide)
  have hencode : encodeKnown (utf8Bytes (rotationJson laterKey "" 1).render) = laterText := by
    rw [encodeKnown, if_neg hne]
    exact if_pos rfl
  have hdecode : decodeKnown laterText = .ok (utf8Bytes (rotationJson laterKey "" 1).render) := by
    rw [decodeKnown, if_neg (by decide +kernel)]
    exact if_pos rfl
  have hjson : readKnown (utf8Bytes (rotationJson laterKey "" 1).render) = .ok (rotationJson laterKey "" 1) := by
    rw [readKnown, if_neg hne]
    exact if_pos rfl
  exact readsBack_of hencode hdecode hjson

theorem restarted_readsBack : rotationHost.ReadsBack (rotationJson restartedKey "" 0) := by
  have hne : utf8Bytes (rotationJson restartedKey "" 0).render ≠ utf8Bytes (announcedJson firstKey 0).render :=
    fun h => absurd (rotationJson_inj h).1 (by decide)
  have hne' : utf8Bytes (rotationJson restartedKey "" 0).render ≠ utf8Bytes (announcedJson laterKey 1).render :=
    fun h => absurd (rotationJson_inj h).2.2 (by decide)
  have hencode : encodeKnown (utf8Bytes (rotationJson restartedKey "" 0).render) = restartedText := by
    rw [encodeKnown, if_neg hne, if_neg hne']
    exact if_pos rfl
  have hdecode : decodeKnown restartedText = .ok (utf8Bytes (rotationJson restartedKey "" 0).render) := by
    rw [decodeKnown, if_neg (by decide +kernel), if_neg (by decide +kernel)]
    exact if_pos rfl
  have hjson : readKnown (utf8Bytes (rotationJson restartedKey "" 0).render) =
      .ok (rotationJson restartedKey "" 0) := by
    rw [readKnown, if_neg hne, if_neg hne']
    exact if_pos rfl
  exact readsBack_of hencode hdecode hjson

/-- The node announces its key, -/
def firstEnv : RotationEnv := ⟨.still 1700000000, .ofByte 6⟩

/-- restarts with other identities, and announces its new key. -/
def restartedEnv : RotationEnv := ⟨.still 1700000100, .ofByte 6⟩

def firstPeering : Peering rotationHost := ⟨.new announcingNode 1700000000 (.ofByte 3) (.ofByte 4), trustingPeer⟩

/-- What the peer has after the first announcement. -/
structure HasFirst (p : Peering rotationHost) : Prop where
  identity : p.announcer.identity = .ofByte 1
  trusted : p.peer.reputation.isTrusted knownAuthor = true
  key : p.peer.peerX25519Key knownAuthor = some firstKey
  count : p.peer.peerRotationCount.lookup knownAuthor = some 0

theorem firstPeering_announcer :
    firstPeering.announcer = .new (Node.new .default (.ofByte 1) none none) 1700000000 (.ofByte 3) (.ofByte 4) := rfl

theorem first_rotator : (firstPeering.announcer.identityRotator.maybeRotate firstEnv.now firstEnv.generated).2 =
    .newWithStart identityRotationSecs 1700000000 (.ofByte 3) (.ofByte 4) := by
  rw [RotatingIdentity.maybeRotate, if_pos (by decide)]
  rfl

theorem firstPeering_readsBack (peerEnv : Env) : ReadsBackAt ⟨firstPeering, .announce firstEnv peerEnv⟩ := by
  intro env peerEnv' hl
  cases hl
  have hpayload := (RotatingNode.announce_new rotationHost_lawful firstPeering_announcer first_rotator
    first_x25519).2.2.2
  rw [hpayload]
  exact first_readsBack

theorem firstPeering_pubkey : firstPeering.announcer.pubkeyHex = knownAuthor := keyHost_pubkey

theorem firstPeering_trusts : firstPeering.peer.reputation.isTrusted firstPeering.announcer.pubkeyHex = true := by
  rw [firstPeering_pubkey]
  exact trustingPeer_trusts

theorem firstPeering_step {peerEnv : Env} {p : Peering rotationHost}
    (hp : Steps (.announce firstEnv peerEnv) firstPeering p) : HasFirst p := by
  obtain ⟨⟨event, he⟩, hkey, hcount, _⟩ := RotatingNode.announce_new rotationHost_lawful firstPeering_announcer
    first_rotator first_x25519
  have hread := firstPeering_readsBack peerEnv firstEnv peerEnv rfl
  have hcases := announce_cases rotationHost_lawful firstPeering_trusts hread he peerEnv
  dsimp only at hcases
  rw [hkey, hcount, firstPeering_pubkey] at hcases
  have hid := (RotatingNode.announce_rotator firstEnv firstPeering.announcer).2
  have hrep := Node.handleIncomingRotation_reputation peerEnv firstPeering.peer event
  obtain ⟨hannouncer, hpeer⟩ := step_announced hp he
  rw [hannouncer] at hid
  rw [hpeer] at hcases hrep
  rcases hcases with ⟨_, hnew, hlast⟩ | ⟨_, hold⟩
  · refine ⟨hid, ?_, hnew, hlast⟩
    rw [hrep]
    exact trustingPeer_trusts
  · refine absurd (hold ?_) (by decide)
    intro last hlast
    cases hlast

/-- A restart keeps what the peer has and the identity of the node. -/
theorem HasFirst.restart {p₁ p₂ : Peering rotationHost} (hf : HasFirst p₁) {now : UInt64} {current next : Identity}
    (hp : Steps (.restart now current next) p₁ p₂) : HasFirst p₂ ∧ p₂.announcer.pubkeyHex = knownAuthor ∧
      p₂.announcer = .new (Node.new p₁.announcer.config p₁.announcer.identity p₁.announcer.persistence
        p₁.announcer.socialStore) now current next := by
  have hpubkey : p₁.announcer.pubkeyHex = knownAuthor := by
    rw [Node.pubkeyHex, hf.identity]
    exact keyHost_pubkey
  rw [← hpubkey, hp, step_pubkeyHex]
  exact ⟨⟨hf.identity, hf.trusted, hf.key, hf.count⟩, rfl, rfl⟩

theorem restarted_rotator : ((RotatingIdentity.newWithStart identityRotationSecs 1700000100 (.ofByte 5)
    (.ofByte 6)).maybeRotate restartedEnv.now restartedEnv.generated).2 =
      .newWithStart identityRotationSecs 1700000100 (.ofByte 5) (.ofByte 6) := by
  rw [RotatingIdentity.maybeRotate, if_pos (by decide)]

/-- What the later steps announce can be read back. -/
theorem readsBackAt_announce {p : Peering rotationHost} {env : RotationEnv} {payload : Json}
    (hpayload : p.announcer.payload env = payload) (hread : rotationHost.ReadsBack payload) (peerEnv : Env) :
    ReadsBackAt ⟨p, .announce env peerEnv⟩ := by
  intro env' peerEnv' hl
  cases hl
  rw [hpayload]
  exact hread

/-- **A restarted node is refused**: it announces its key, restarts and announces its new key under the same counter;
the peer keeps the old key. -/
theorem restarted_refused : ∃ (vs : List (Visit (Peering rotationHost) RotationStep)) (p : Peering rotationHost),
    PeeringRun firstPeering vs p ∧ (∀ v ∈ vs, ReadsBackAt v) ∧
      firstPeering.peer.reputation.isTrusted firstPeering.announcer.pubkeyHex = true ∧
      ∃ v ∈ vs, announcedCount v = some 0 ∧ ¬(v.state.step v.label).Agrees := by
  obtain ⟨p₁, h₁⟩ : ∃ p₁, Steps (.announce firstEnv (.still 1700000000)) firstPeering p₁ := ⟨_, rfl⟩
  obtain ⟨p₂, h₂⟩ : ∃ p₂, Steps (.restart 1700000100 (.ofByte 5) (.ofByte 6)) p₁ p₂ := ⟨_, rfl⟩
  obtain ⟨p₃, h₃⟩ : ∃ p₃, Steps (.announce restartedEnv (.still 1700000100)) p₂ p₃ := ⟨_, rfl⟩
  obtain ⟨hfirst, hpubkey, hnew⟩ := (firstPeering_step h₁).restart h₂
  have hrotator : (p₂.announcer.identityRotator.maybeRotate restartedEnv.now restartedEnv.generated).2 =
      .newWithStart identityRotationSecs 1700000100 (.ofByte 5) (.ofByte 6) := by
    rw [hnew]
    exact restarted_rotator
  obtain ⟨⟨event, he⟩, hkey, hcount, hpayload⟩ :=
    RotatingNode.announce_new rotationHost_lawful hnew hrotator restarted_x25519
  have hread := readsBackAt_announce hpayload restarted_readsBack (.still 1700000100)
  have hvisits : ∀ v ∈ [⟨firstPeering, .announce firstEnv (.still 1700000000)⟩,
      ⟨p₁, .restart 1700000100 (.ofByte 5) (.ofByte 6)⟩, ⟨p₂, .announce restartedEnv (.still 1700000100)⟩],
      ReadsBackAt v := by
    rintro v (_ | ⟨_, _ | ⟨_, _ | ⟨_, hv⟩⟩⟩)
    · exact firstPeering_readsBack _
    · nofun
    · exact hread
    · exact absurd hv List.not_mem_nil
  refine ⟨_, p₃, .visit (.visit (.visit .start h₁) h₂) h₃, hvisits, firstPeering_trusts, _, List.mem_append_right _
    (List.mem_singleton_self _), ?_, ?_⟩
  · rw [announcedCount_ok he]
    exact congrArg (fun r => some r.rotations) hrotator
  · have htrust : p₂.peer.reputation.isTrusted p₂.announcer.pubkeyHex = true := by
      rw [hpubkey]
      exact hfirst.trusted
    have hiff := announce_agrees_iff rotationHost_lawful htrust (hread restartedEnv _ rfl) he (.still 1700000100)
    rw [hiff, hkey, hcount, NewToPeer, hpubkey, hfirst.key]
    rintro (hnewer | hsame)
    · exact absurd (hnewer 0 hfirst.count) (by decide)
    · exact absurd hsame (by decide)

/-! ## A restart that is followed -/

/-- Six hours later. -/
def laterEnv : RotationEnv := ⟨.still 1700021600, .ofByte 6⟩

theorem later_rotator : ((RotatingIdentity.newWithStart identityRotationSecs 1700000000 (.ofByte 5)
    (.ofByte 4)).maybeRotate laterEnv.now laterEnv.generated).2 =
      ⟨.ofByte 4, some (.ofByte 5), .ofByte 6, identityRotationSecs, 1700021600, 1⟩ := by
  rw [RotatingIdentity.maybeRotate, if_neg (by decide)]
  rfl

/-- **A node that restarts and rotates before it announces again is followed.** -/
theorem peers_follow_restart : ∃ (vs : List (Visit (Peering rotationHost) RotationStep)) (p : Peering rotationHost),
    PeeringRun firstPeering vs p ∧ ∃ v ∈ vs, announcedCount v = some 1 ∧ (v.state.step v.label).Agrees := by
  obtain ⟨p₁, h₁⟩ : ∃ p₁, Steps (.announce firstEnv (.still 1700000000)) firstPeering p₁ := ⟨_, rfl⟩
  obtain ⟨p₂, h₂⟩ : ∃ p₂, Steps (.restart 1700000000 (.ofByte 5) (.ofByte 4)) p₁ p₂ := ⟨_, rfl⟩
  obtain ⟨p₃, h₃⟩ : ∃ p₃, Steps (.announce laterEnv (.still 1700021600)) p₂ p₃ := ⟨_, rfl⟩
  obtain ⟨hfirst, hpubkey, hnew⟩ := (firstPeering_step h₁).restart h₂
  have hrotator : (p₂.announcer.identityRotator.maybeRotate laterEnv.now laterEnv.generated).2 =
      ⟨.ofByte 4, some (.ofByte 5), .ofByte 6, identityRotationSecs, 1700021600, 1⟩ := by
    rw [hnew]
    exact later_rotator
  obtain ⟨⟨event, he⟩, _, _, hpayload⟩ := RotatingNode.announce_new rotationHost_lawful hnew hrotator later_x25519
  have hcount : announcedCount ⟨p₂, .announce laterEnv (.still 1700021600)⟩ = some 1 := by
    rw [announcedCount_ok he]
    exact congrArg (fun r => some r.rotations) hrotator
  obtain ⟨⟨event₁, he₁⟩, _⟩ := RotatingNode.announce_new rotationHost_lawful firstPeering_announcer first_rotator
    first_x25519
  have hcount₁ : announcedCount ⟨firstPeering, .announce firstEnv (.still 1700000000)⟩ = some 0 := by
    rw [announcedCount_ok he₁]
    exact congrArg (fun r => some r.rotations) first_rotator
  have hr : PeeringRun firstPeering _ p₃ := .visit (.visit (.visit .start h₁) h₂) h₃
  have hread : ∀ v ∈ ([] ++ [⟨firstPeering, .announce firstEnv (.still 1700000000)⟩] ++
      [⟨p₁, .restart 1700000000 (.ofByte 5) (.ofByte 4)⟩]) ++ [⟨p₂, .announce laterEnv (.still 1700021600)⟩],
      ReadsBackAt v := by
    rintro v (_ | ⟨_, _ | ⟨_, _ | ⟨_, hv⟩⟩⟩)
    · exact firstPeering_readsBack _
    · nofun
    · exact readsBackAt_announce hpayload later_readsBack _
    · exact absurd hv List.not_mem_nil
  have hout : Outgrows (([] ++ [⟨firstPeering, .announce firstEnv (.still 1700000000)⟩] ++
      [⟨p₁, .restart 1700000000 (.ofByte 5) (.ofByte 4)⟩]) ++ [⟨p₂, .announce laterEnv (.still 1700021600)⟩]) := by
    refine ((outgrows_nil.snoc ?_).snoc ?_).snoc ?_
    · intro count _ c hc
      exact absurd hc List.not_mem_nil
    · intro count hnone
      cases hnone
    · intro count hc₁ c hc
      rw [hcount] at hc₁
      cases hc₁
      rw [beforeRestart_restart rfl, announcedCounts_snoc, announcedCounts_snoc, hcount₁] at hc
      obtain rfl : c = 0 := by simpa [announcedCounts, announcedCount] using hc
      decide
  have hlast : (⟨p₂, .announce laterEnv (.still 1700021600)⟩ : Visit (Peering rotationHost) RotationStep) ∈
      ([] ++ [⟨firstPeering, .announce firstEnv (.still 1700000000)⟩] ++
      [⟨p₁, .restart 1700000000 (.ofByte 5) (.ofByte 4)⟩]) ++ [⟨p₂, .announce laterEnv (.still 1700021600)⟩] :=
    List.mem_append_right _ (List.mem_singleton_self _)
  refine ⟨_, p₃, hr, _, hlast, hcount, ?_⟩
  exact peers_follow rotationHost_lawful firstPeering_trusts rfl hr hread hout _ hlast (by rw [hcount]; rfl)

end Onde

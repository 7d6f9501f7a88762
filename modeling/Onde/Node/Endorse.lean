import Onde.Lib.Json
import Onde.Node.Publish

/-!
# Endorsing a peer

* `Node.endorse`: the node applies the endorsement to its own reputation system, then signs and publishes it;
* `publishSigned_ok_iff`: exactly when what a node signs can be published;
* `endorse_atomic_iff`: a failed call leaves the reputation as it was exactly when the policy refuses the endorsement
  or nothing stands in the way of its publication.
-/

namespace Onde

open Lib Crypto Reputation Protocol

variable {h : Host}

/-! ## Paying for an event -/

/-- One of the first `iterations` nonces pays for the event. -/
def Protocol.Payable (c : Primitives) (iterations : Nat) (id : String) (difficulty : UInt8) : Prop :=
  ∃ k < iterations, verifyPow c id (UInt64.ofNat k) difficulty = true

/-- **The search finds a nonce exactly if one of those it tries pays.** -/
theorem findNonce_iff (c : Primitives) (id : String) (difficulty : UInt8) : ∀ fuel start : Nat,
    (∃ nonce, findNonce c id difficulty fuel (UInt64.ofNat start) = some nonce) ↔
      ∃ k < fuel, verifyPow c id (UInt64.ofNat (start + k)) difficulty = true
  | 0, _ => by simp [findNonce]
  | fuel + 1, start => by
    have hsucc : UInt64.ofNat start + 1 = UInt64.ofNat (start + 1) := by rw [UInt64.ofNat_add]; rfl
    rw [findNonce]
    by_cases hv : verifyPow c id (UInt64.ofNat start) difficulty = true
    · rw [if_pos hv]
      exact ⟨fun _ => ⟨0, Nat.succ_pos _, hv⟩, fun _ => ⟨_, rfl⟩⟩
    · rw [if_neg hv, hsucc, findNonce_iff c id difficulty fuel (start + 1)]
      constructor
      · rintro ⟨k, hk, hpays⟩
        exact ⟨k + 1, by omega, by rwa [← Nat.add_assoc, Nat.add_right_comm]⟩
      · rintro ⟨k, hk, hpays⟩
        cases k with
        | zero => exact absurd hpays hv
        | succ k => exact ⟨k, by omega, by rwa [Nat.add_right_comm, Nat.add_assoc]⟩

theorem computePow_iff {c : Primitives} {iterations : Nat} {event : MeshEvent} :
    (∃ e, event.computePow c iterations = some e) ↔ Payable c iterations event.id event.powDifficulty := by
  have hfind := findNonce_iff c event.id event.powDifficulty iterations 0
  simp only [Nat.zero_add] at hfind
  rw [Payable, ← hfind, MeshEvent.computePow]
  simp

/-- The JSON value of an endorsement. -/
def Reputation.Endorsement.toJson (e : Endorsement) : Json :=
  .obj [("endorser", .str e.endorser), ("endorsed", .str e.endorsed),
    ("timestamp", .num (.posInt (UInt64.ofNat e.timestamp)))]

namespace Node

/-! ## The call -/

/-- The endorsement of a peer as a signed event. -/
def signedEndorsement (base64Encode : Bytes → String) (signing : Env) (n : Node h) (peer : String) : MeshEvent :=
  let endorsement : Endorsement := ⟨n.pubkeyHex, peer, signing.clock⟩
  let content := base64Encode (utf8Bytes endorsement.toJson.render)
  MeshEvent.newSigned h.toPrimitives n.identity .endorsement content [] signing.fuzzyTimestampSecs

/-- Sign the endorsement and publish it. -/
def publishEndorsement (base64Encode : Bytes → String) (signing env : Env) (n : Node h) (peer : String) :
    Except String MeshEvent × Node h :=
  match n.publishSigned env (n.signedEndorsement base64Encode signing peer) "PoW computation failed" with
  | .error err => (.error err, n)
  | .ok (event, n) => (.ok event, n)

/-- Endorse a peer: apply the endorsement, then publish it. The clock is read for the signature (`signing`) and again
for the publication (`env`). -/
def endorse (base64Encode : Bytes → String) (signing env : Env) (n : Node h) (peer : String) :
    Except String MeshEvent × Node h :=
  match n.reputation.endorse n.pubkeyHex peer signing.clock with
  | .error err => (.error err, n)
  | .ok (_, reputation) => publishEndorsement base64Encode signing env { n with reputation } peer

/-- Nothing stands in the way of publishing the endorsement: the clock has not gone back too far since it was signed,
and what work the node asks of itself is found in time. -/
def Publishable (base64Encode : Bytes → String) (signing env : Env) (n : Node h) (peer : String) : Prop :=
  signing.fuzzyTimestampSecs.toNat ≤ env.clock + maxClockSkewSecs ∧
    (0 < n.reputation.requiredPowDifficulty n.pubkeyHex →
      Payable h.toPrimitives publishPowIterations (n.signedEndorsement base64Encode signing peer).id
        (n.reputation.requiredPowDifficulty n.pubkeyHex))

variable {env signing : Env} {n : Node h} {peer : String} {base64Encode : Bytes → String}

/-! ## Publication -/

/-- **What a node signs is published exactly when it is not too far in the future and its work is found.** -/
theorem publishSigned_ok_iff (hl : h.toPrimitives.Lawful) {kind : OndeMessageType} {content failed : String}
    (hsize : kind = .alert → content.length ≤ maxAlertSize) {tags : List String} {t : UInt64} :
    (∃ r, n.publishSigned env (MeshEvent.newSigned h.toPrimitives n.identity kind content tags t) failed = .ok r) ↔
      t.toNat ≤ env.clock + maxClockSkewSecs ∧ (0 < n.reputation.requiredPowDifficulty n.pubkeyHex →
        Payable h.toPrimitives publishPowIterations
          (MeshEvent.newSigned h.toPrimitives n.identity kind content tags t).id
          (n.reputation.requiredPowDifficulty n.pubkeyHex)) := by
  let difficulty := n.reputation.requiredPowDifficulty n.pubkeyHex
  let event := (MeshEvent.newSigned h.toPrimitives n.identity kind content tags t).withPowDifficulty difficulty
  constructor
  · rintro ⟨⟨e, n'⟩, hp⟩
    obtain ⟨⟨nonce, rfl⟩, hv, -⟩ := publishSigned_ok hp
    obtain ⟨-, htime, -⟩ := checkSigned_ok.mp (validateWithPowMin_ok.mp hv).1
    refine ⟨?_, fun hpos => ?_⟩
    · by_contra hlate
      exact htime ⟨by dsimp only [MeshEvent.newSigned]; omega, by dsimp only [MeshEvent.newSigned]; omega⟩
    · unfold publishSigned at hp
      obtain ⟨e, hpow, -⟩ := bind_eq_ok.mp hp
      rw [if_pos hpos, MeshEvent.payPow] at hpow
      cases hc : event.computePow h.toPrimitives publishPowIterations with
      | none =>
        rw [hc] at hpow
        cases hpow
      | some paid => exact computePow_iff.mp ⟨paid, hc⟩
  · rintro ⟨htime, hwork⟩
    have hsigned : event.checkSigned h.toPrimitives env.clock = .ok () :=
      newSigned_checkSigned hl n.identity tags hsize htime
    -- whatever nonce was found, the event is valid with it
    have hvalid : ∀ nonce, verifyPow h.toPrimitives event.id nonce difficulty = true →
        ({ event with powNonce := nonce } : MeshEvent).validateWithReputation h.toPrimitives env.clock n.reputation =
          .ok () := fun nonce hnonce =>
      validateWithPowMin_ok.mpr ⟨hsigned, checkPow_ok.mpr ⟨UInt8.le_refl difficulty, hnonce⟩⟩
    unfold publishSigned
    by_cases hpos : 0 < difficulty
    · have hpayable : Payable h.toPrimitives publishPowIterations event.id event.powDifficulty := hwork hpos
      obtain ⟨paid, hpaid⟩ := computePow_iff.mpr hpayable
      have hpay : event.payPow h.toPrimitives publishPowIterations failed = .ok paid := by
        rw [MeshEvent.payPow, show event.computePow h.toPrimitives publishPowIterations = some paid from hpaid]
      have hv : paid.validateWithReputation h.toPrimitives env.clock n.reputation = .ok () := by
        obtain ⟨nonce, hnonce, rfl⟩ := Option.map_eq_some_iff.mp hpaid
        exact hvalid nonce (findNonce_spec h.toPrimitives hnonce)
      exact ⟨_, bind_eq_ok.mpr ⟨paid, (if_pos hpos).trans hpay,
        bind_eq_ok.mpr ⟨(), hv, bind_eq_ok.mpr ⟨_, addEvent_valid hv, rfl⟩⟩⟩⟩
    · have hzero : difficulty = 0 := by
        rw [UInt8.lt_iff_toNat_lt] at hpos
        exact UInt8.toNat_inj.mp (Nat.eq_zero_of_not_pos hpos)
      have hv := hvalid event.powNonce (hzero ▸ verifyPow_zero h.toPrimitives event.id event.powNonce)
      exact ⟨_, bind_eq_ok.mpr ⟨event, if_neg hpos,
        bind_eq_ok.mpr ⟨(), hv, bind_eq_ok.mpr ⟨_, addEvent_valid hv, rfl⟩⟩⟩⟩

/-! ## Atomicity -/

/-- What the policy refuses changes nothing. -/
theorem endorse_refused (hr : ¬n.reputation.Endorsable n.pubkeyHex peer) :
    (n.endorse base64Encode signing env peer).2 = n := by
  unfold endorse
  cases he : n.reputation.endorse n.pubkeyHex peer signing.clock with
  | error err => rfl
  | ok p => exact absurd (ReputationSystem.endorse_ok.mp ⟨p, he⟩) hr

/-- An endorsement of someone else leaves what a node asks of itself as it was. -/
theorem floor_endorsed {q : ℚ} {r : ReputationSystem} {timestamp : Nat}
    (he : n.reputation.endorse n.pubkeyHex peer timestamp = .ok (q, r)) :
    r.requiredPowDifficulty n.pubkeyHex = n.reputation.requiredPowDifficulty n.pubkeyHex := by
  obtain ⟨hne, hscores⟩ := ReputationSystem.endorse_scores he
  refine ReputationSystem.requiredPowDifficulty_congr (hscores _ hne) ?_
  rw [ReputationSystem.endorse_abuse he]

/-- Publishing does not touch the reputation. -/
theorem publishEndorsement_reputation :
    (n.publishEndorsement base64Encode signing env peer).2.reputation = n.reputation := by
  unfold publishEndorsement
  cases hp : n.publishSigned env (n.signedEndorsement base64Encode signing peer) "PoW computation failed" with
  | error err => rfl
  | ok p =>
    obtain ⟨event, n'⟩ := p
    obtain ⟨gossip, rfl⟩ := publishSigned_frame hp
    rfl

/-- Publishing fails exactly when something stands in its way. -/
theorem publishEndorsement_error_iff (hl : h.toPrimitives.Lawful) :
    (∃ err, (n.publishEndorsement base64Encode signing env peer).1 = .error err) ↔
      ¬n.Publishable base64Encode signing env peer := by
  have hok : (∃ r, n.publishSigned env (n.signedEndorsement base64Encode signing peer) "PoW computation failed" =
      .ok r) ↔ n.Publishable base64Encode signing env peer :=
    publishSigned_ok_iff hl fun halert => absurd halert (by decide)
  rw [← hok]
  unfold publishEndorsement
  cases hp : n.publishSigned env (n.signedEndorsement base64Encode signing peer) "PoW computation failed" with
  | error err => simp
  | ok p => simp

/-- An endorsement that the policy takes is applied, and the call fails exactly when it cannot be published. -/
theorem endorse_taken (hl : h.toPrimitives.Lawful) (base64Encode : Bytes → String) (signing env : Env)
    (he : n.reputation.Endorsable n.pubkeyHex peer) :
    (n.endorse base64Encode signing env peer).2.reputation ≠ n.reputation ∧
      ((∃ err, (n.endorse base64Encode signing env peer).1 = .error err) ↔
        ¬n.Publishable base64Encode signing env peer) := by
  obtain ⟨⟨q, r⟩, hr⟩ : ∃ p, n.reputation.endorse n.pubkeyHex peer signing.clock = .ok p :=
    ReputationSystem.endorse_ok.mpr he
  let endorsed : Node h := { n with reputation := r }
  have hcall : n.endorse base64Encode signing env peer =
      endorsed.publishEndorsement base64Encode signing env peer := by
    unfold endorse
    rw [hr]
  have hchanged : r ≠ n.reputation := by
    intro heq
    have hlist := (ReputationSystem.endorse_frame hr).1 peer
    rw [if_pos rfl, heq] at hlist
    exact absurd (congrArg List.length hlist) (by simp)
  have hfloor : endorsed.reputation.requiredPowDifficulty endorsed.pubkeyHex =
      n.reputation.requiredPowDifficulty n.pubkeyHex := floor_endorsed hr
  have hpub : endorsed.Publishable base64Encode signing env peer ↔ n.Publishable base64Encode signing env peer := by
    rw [Publishable, Publishable, hfloor]
    rfl
  rw [hcall, publishEndorsement_reputation, publishEndorsement_error_iff hl, hpub]
  exact ⟨hchanged, Iff.rfl⟩

/-- **A failed endorsement leaves the reputation as it was exactly when the policy refuses it, or it could have been
published.** -/
theorem endorse_atomic_iff (hl : h.toPrimitives.Lawful) (base64Encode : Bytes → String) (signing env : Env)
    (n : Node h) (peer : String) :
    (∀ err, (n.endorse base64Encode signing env peer).1 = .error err →
      (n.endorse base64Encode signing env peer).2.reputation = n.reputation) ↔
      (n.reputation.Endorsable n.pubkeyHex peer → n.Publishable base64Encode signing env peer) := by
  by_cases he : n.reputation.Endorsable n.pubkeyHex peer
  · obtain ⟨hchanged, hfails⟩ := endorse_taken hl base64Encode signing env he
    refine ⟨fun hatomic _ => ?_, fun hpub err herr => ?_⟩
    · by_contra hstop
      obtain ⟨err, herr⟩ := hfails.mpr hstop
      exact hchanged (hatomic err herr)
    · exact absurd (hpub he) (hfails.mp ⟨err, herr⟩)
  · exact ⟨fun _ hable => absurd hable he, fun _ _ _ => congrArg Node.reputation (endorse_refused he)⟩

end Node

/-! ## A clock that is set back -/

def base64Digit (n : Nat) : Char :=
  "ABCDEFGHIJKLMNOPQRSTUVWXYZabcdefghijklmnopqrstuvwxyz0123456789+/".toList.getD n '='

def base64Chars : Bytes → List Char
  | [] => []
  | [a] => [base64Digit (a.toNat / 4), base64Digit (a.toNat % 4 * 16), '=', '=']
  | [a, b] =>
    [base64Digit (a.toNat / 4), base64Digit (a.toNat % 4 * 16 + b.toNat / 16), base64Digit (b.toNat % 16 * 4), '=']
  | a :: b :: c :: rest =>
    base64Digit (a.toNat / 4) :: base64Digit (a.toNat % 4 * 16 + b.toNat / 16) ::
      base64Digit (b.toNat % 16 * 4 + c.toNat / 64) :: base64Digit (c.toNat % 64) :: base64Chars rest

/-- The standard alphabet, with padding. -/
def base64 (bs : Bytes) : String := String.ofList (base64Chars bs)

example : base64 (utf8Bytes "ONDE") = "T05ERQ==" := by decide

def knownEndorser : String := "8139770ea87d175f56a35466c34c7ecccb8d8a91b4ee37a25df60f5b8fc9b394"

/-- The canonical text of the endorsement of the author, made at `t`. -/
def endorsingText (t : Nat) : String :=
  (canonical knownEndorser (UInt64.ofNat t) .endorsement []
    (base64 (utf8Bytes (Endorsement.toJson ⟨knownEndorser, knownAuthor, t⟩).render))).render

/-- The values behind the endorsements of two moments. -/
def endorsingValues : KnownValues where
  keys := knownKeys
  digests :=
    [(endorsingText 1700000000, "7c251b0814fb2e9b3e232bdbdfd5311cc6ce59dd75556f8fcaeae5b6173c8eb1"),
     (endorsingText 1700003600, "0ab891feb9b93ad92a5fb8a1722477772be003c4e5ca1188f23607075be16e6c")]
  signatures :=
    [(knownEndorser, "7c251b0814fb2e9b3e232bdbdfd5311cc6ce59dd75556f8fcaeae5b6173c8eb1",
      "4dbf5b7bd7d42e2f0b1a3984170b236788c21c3783c51289a9633ae980d0f511" ++
      "9d167efdcf46de155fa7ed1f5d50c22f9d6d0c48caed0df9d375b90f2ed9630e"),
     (knownEndorser, "0ab891feb9b93ad92a5fb8a1722477772be003c4e5ca1188f23607075be16e6c",
      "7768bc226a0dcccd1f674c67268c7e755fa85c0d5676b57a0e3ae7d27dfd4dbc" ++
      "6cc717749d162e1e782d812d46bc3c3f0414a109fa8285bb32c94cfe474caf03")]

def endorsingHost : Host := .ofKnown endorsingValues [] []

theorem endorsingHost_lawful : endorsingHost.Lawful := Host.ofKnown_lawful _ _ _

/-- A fresh node, which trusts itself. -/
def endorsingNode : Node endorsingHost := Node.new .default (.ofByte 2) none none

theorem endorsing_endorsable :
    endorsingNode.reputation.Endorsable endorsingNode.pubkeyHex knownAuthor := by
  have hkey : endorsingNode.pubkeyHex = _ := knownKeys_two rfl
  have hne : endorsingNode.pubkeyHex ≠ knownAuthor := by
    rw [hkey]
    decide
  exact ReputationSystem.endorsable_bootstrap List.mem_cons_self hne rfl

theorem endorsing_floor : endorsingNode.reputation.requiredPowDifficulty endorsingNode.pubkeyHex = 0 :=
  Node.new_floor _ _ _ _

/-- Within one clock the endorsement is published. -/
theorem endorse_atomic_still :
    (∀ err, (endorsingNode.endorse base64 (.still 1700000000) (.still 1700000000) knownAuthor).1 = .error err →
      (endorsingNode.endorse base64 (.still 1700000000) (.still 1700000000) knownAuthor).2.reputation =
        endorsingNode.reputation) ∧
    endorsingNode.reputation.Endorsable endorsingNode.pubkeyHex knownAuthor :=
  ⟨(Node.endorse_atomic_iff endorsingHost_lawful.primitives base64 (.still 1700000000) (.still 1700000000)
      endorsingNode knownAuthor).mpr fun _ => ⟨by decide, fun hpos => by
        rw [endorsing_floor] at hpos
        exact absurd hpos (by decide)⟩,
    endorsing_endorsable⟩

/-- **Signed an hour ahead of the clock that validates it, the endorsement is applied and never published.** -/
theorem endorse_not_atomic :
    ¬∀ err, (endorsingNode.endorse base64 (.still 1700003600) (.still 1700000000) knownAuthor).1 = .error err →
      (endorsingNode.endorse base64 (.still 1700003600) (.still 1700000000) knownAuthor).2.reputation =
        endorsingNode.reputation := by
  intro hatomic
  have htaken := Node.endorse_taken endorsingHost_lawful.primitives base64 (.still 1700003600) (.still 1700000000)
    endorsing_endorsable
  obtain ⟨err, herr⟩ := htaken.2.mpr fun hpub => absurd hpub.1 (by decide)
  exact htaken.1 (hatomic err herr)

end Onde

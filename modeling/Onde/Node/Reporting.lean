import Onde.Node.Authenticated
import Onde.Node.Signing
import Onde.Node.Verdict

/-!
# Where a report lands

A node reports an offender; its peers take the report or leave it.

* `received_report`: what a reception of a report does, by the state before (`Lands`);
* `report_lands_iff`: a report that was published is applied exactly by the peers that let it through the gate, trust
  its reporter and have not counted it yet (`Heeds`).
-/

namespace Onde

open Lib Crypto Reputation Protocol

variable {h : Host}

/-- Base64 and JSON give the report back. -/
structure ReadsReport (h : Host) (base64Encode : Bytes → String) (report : AbuseReport) : Prop where
  base64 : h.base64Decode (base64Encode (utf8Bytes report.toJson.render)) = .ok (utf8Bytes report.toJson.render)
  json : h.abuseReportFromSlice (utf8Bytes report.toJson.render) = .ok report

namespace Node

variable {env : Env} {n n' : Node h} {event : MeshEvent} {report : AbuseReport}

/-- A report that can be read is applied and relayed if it is reportable. -/
theorem handleIncomingAbuseReport_of_able (hk : event.kind = .abuseReport)
    (hp : abuseReportPayload h event = .ok report) (hable : n.reputation.Reportable report) :
    n.handleIncomingAbuseReport env event = (.applied (n.reputation.reportedRecord report).score,
      relay env { n with reputation := n.reputation.reportedBy report } event) := by
  unfold handleIncomingAbuseReport
  rw [if_neg (not_not.mpr hk), hp]
  dsimp only
  rw [ReputationSystem.applyRemoteAbuseReport_eq_ok.mpr ⟨rfl, hable, rfl⟩]

/-- What the dispatcher does with a report: if it is applied, its outcome says so, -/
theorem routePeerEvent_of_able {now : Nat} (hk : event.kind = .abuseReport)
    (hp : abuseReportPayload h event = .ok report) (hable : n.reputation.Reportable report) :
    (∃ level, (n.routePeerEvent env now event).outcome = .abuseReportApplied level) ∧
      (n.routePeerEvent env now event).node.reputation = n.reputation.reportedBy report := by
  have hr : n.routePeerEvent env now event = ⟨.abuseReportApplied (n.reputation.reportedRecord report).score,
      relay env { n with reputation := n.reputation.reportedBy report } event, false, none⟩ := by
    simp only [routePeerEvent, hk, handleIncomingAbuseReport_of_able hk hp hable]
  rw [hr]
  exact ⟨⟨_, rfl⟩, rfl⟩

/-- and else the reputation stays as it is. -/
theorem routePeerEvent_of_unable {now : Nat} (hk : event.kind = .abuseReport) (ha : ¬n.AbuseReportAccepted event) :
    (¬∃ level, (n.routePeerEvent env now event).outcome = .abuseReportApplied level) ∧
      (n.routePeerEvent env now event).node.reputation = n.reputation := by
  have hsame : (n.handleIncomingAbuseReport env event).2 = n := handleIncomingAbuseReport_frame ha
  have hno : ¬∃ level, (n.handleIncomingAbuseReport env event).1 = .applied level :=
    mt handleIncomingAbuseReport_applied.mp ha
  cases hh : n.handleIncomingAbuseReport env event with
  | mk outcome m =>
    rw [hh] at hsame hno
    cases outcome with
    | applied level => exact absurd ⟨level, rfl⟩ hno
    | ignored =>
      have hr : n.routePeerEvent env now event = ⟨.other, m, false, none⟩ := by simp only [routePeerEvent, hk, hh]
      rw [hr]
      exact ⟨by simp, congrArg reputation hsame⟩
    | rejected err =>
      have hr : n.routePeerEvent env now event = ⟨.abuseReportRejected err, m, false, none⟩ := by
        simp only [routePeerEvent, hk, hh]
      rw [hr]
      exact ⟨by simp, congrArg reputation hsame⟩

/-- The peer lets the event through the gate, can read its content, and takes the report. -/
def Lands (n : Node h) (now : Nat) (event : MeshEvent) (report : AbuseReport) : Prop :=
  (n.verdict now event).passes = true ∧ event.content.utf8ByteSize ≤ 1024 ∧ n.reputation.Reportable report

instance (n : Node h) (now : Nat) (event : MeshEvent) (report : AbuseReport) :
    Decidable (n.Lands now event report) := inferInstanceAs (Decidable (_ ∧ _ ∧ _))

/-- The event carries the report of its author. -/
structure Carries (h : Host) (event : MeshEvent) (report : AbuseReport) : Prop where
  kind : event.kind = .abuseReport
  read : ∃ data, h.base64Decode event.content = .ok data ∧ h.abuseReportFromSlice data = .ok report
  author : report.reporter = event.pubkey
  signed : event.signatureValid h.toPrimitives = true

/-- It is read, unless its text is too long. -/
theorem Carries.payload (hc : Carries h event report) (hsize : event.content.utf8ByteSize ≤ 1024) :
    abuseReportPayload h event = .ok report := by
  obtain ⟨data, hbase, hjson⟩ := hc.read
  simp only [abuseReportPayload, decodeSigned, if_neg (Nat.not_lt.mpr hsize), hbase, hjson, hc.author, hc.signed,
    ne_eq, not_true_eq_false, if_false, Bool.not_true, Bool.false_eq_true]

theorem abuseReportPayload_long (hsize : 1024 < event.content.utf8ByteSize) (report : AbuseReport) :
    abuseReportPayload h event ≠ .ok report := by
  rw [abuseReportPayload, decodeSigned, if_pos hsize]
  intro heq
  cases heq

/-- **What a reception does with the report of an author.** -/
theorem received_report (hc : Carries h event report) (env : Env) (now : Nat) (n : Node h) :
    let r := n.receivePeerEvent env now event
    ((∃ level, r.outcome = .abuseReportApplied level) ↔ n.Lands now event report) ∧
    r.node.reputation = if n.Lands now event report then n.reputation.reportedBy report
      else if n.verdict now event = .full then n.reputation.recordViolation event.pubkey .excessiveRate now
      else n.reputation := by
  intro r
  have hg := admitPeerEvent_spec env now n event
  rw [show r.outcome = _ from receivePeerEvent_outcome env now n event,
    show r.node.reputation = _ from receivePeerEvent_node_reputation env now n event]
  rcases receivePeerEventInner_cases env now n event with ⟨hp, reason, hr⟩ | ⟨hp, hf, n₁, -, hrep, -, -, -, hr⟩
  · have hno : ¬n.Lands now event report := fun hl => by
      rw [hl.1] at hp
      cases hp
    rw [hr, if_neg hno]
    exact ⟨iff_of_false (by simp) hno, hg.reputation⟩
  rw [hr, if_neg hf]
  by_cases hl : n.Lands now event report
  · have hable : n₁.reputation.Reportable report := by
      rw [hrep]
      exact hl.2.2
    obtain ⟨hout, hreputation⟩ : _ ∧ (n₁.routePeerEvent env now event).node.reputation = _ :=
      routePeerEvent_of_able hc.kind (hc.payload hl.2.1) hable
    rw [if_pos hl, ← hrep]
    exact ⟨iff_of_true hout hl, hreputation⟩
  · have hunable : ¬n₁.AbuseReportAccepted event := by
      rintro ⟨-, report', hread, hable⟩
      have hsize : event.content.utf8ByteSize ≤ 1024 := by
        by_contra hlong
        exact abuseReportPayload_long (Nat.not_le.mp hlong) report' hread
      have hpay := hc.payload hsize
      rw [hread] at hpay
      cases hpay
      rw [hrep] at hable
      exact hl ⟨hp, hsize, hable⟩
    obtain ⟨hout, hreputation⟩ : _ ∧ (n₁.routePeerEvent env now event).node.reputation = _ :=
      routePeerEvent_of_unable hc.kind hunable
    rw [if_neg hl]
    exact ⟨iff_of_false hout hl, hreputation.trans hrep⟩

/-! ## A published report -/

/-- The peer lets the event through the gate, can read its content, trusts its author, and has not counted a report of
this author against the offender for this reason. -/
def Heeds (n : Node h) (now : Nat) (event : MeshEvent) (offender : String) (reason : AbuseReason) : Prop :=
  (n.verdict now event).passes = true ∧ event.content.utf8ByteSize ≤ 1024 ∧
    endorsementThreshold ≤ n.reputation.score event.pubkey ∧
    (event.pubkey, offender, reason.code) ∉ n.reputation.abuseReportKeys

instance (n : Node h) (now : Nat) (event : MeshEvent) (offender : String) (reason : AbuseReason) :
    Decidable (n.Heeds now event offender reason) := inferInstanceAs (Decidable (_ ∧ _ ∧ _ ∧ _))

theorem fromCode_code (reason : AbuseReason) : AbuseReason.fromCode reason.code = some reason := by
  cases reason <;> rfl

theorem lands_iff_heeds {now : Nat} {offender : String} {reason : AbuseReason} {timestamp : Nat}
    (hne : offender ≠ event.pubkey) : n.Lands now event ⟨event.pubkey, offender, reason.code, timestamp⟩ ↔
      n.Heeds now event offender reason := by
  have hcode : AbuseReason.fromCode reason.code ≠ none := by
    rw [fromCode_code]
    nofun
  unfold Lands Heeds ReputationSystem.Reportable
  exact and_congr_right fun _ => and_congr_right fun _ =>
    ⟨fun hable => hable.2.2, fun hable => ⟨hne.symm, hcode, hable⟩⟩

section

variable {base64Encode : Bytes → String} {offender : String} {reason : AbuseReason} {timestamp : Nat}

/-- What a node publishes carries its report; its own standing of the offender stays as it is. -/
theorem reportAbuse_carries (hl : h.toPrimitives.Lawful)
    (hread : ReadsReport h base64Encode ⟨n.pubkeyHex, offender, reason.code, timestamp⟩)
    (hp : n.reportAbuse base64Encode env offender reason timestamp = .ok (event, n')) :
    event.pubkey = n.pubkeyHex ∧ offender ≠ n.pubkeyHex ∧ n'.reputation = n.reputation ∧
      Carries h event ⟨n.pubkeyHex, offender, reason.code, timestamp⟩ := by
  unfold reportAbuse at hp
  split at hp
  · cases hp
  next hother =>
    obtain ⟨gossip, hframe⟩ := publishSigned_frame hp
    obtain ⟨⟨nonce, hevent⟩, -, -⟩ := publishSigned_ok hp
    have hkey : event.pubkey = n.pubkeyHex := by
      rw [hevent]
      rfl
    refine ⟨hkey, hother, ?_, ?_, ⟨_, ?_, hread.json⟩, hkey.symm, ?_⟩
    · rw [hframe]
    · rw [hevent]
      rfl
    · rw [hevent]
      exact hread.base64
    · rw [hevent]
      exact newSigned_signatureValid hl _ _ _ _ _

/-- A node that asks nothing of itself can report any other. -/
theorem reportAbuse_trusting (hl : h.toPrimitives.Lawful) (hfloor : n.reputation.requiredPowDifficulty n.pubkeyHex = 0)
    (hother : offender ≠ n.pubkeyHex) (base64Encode : Bytes → String) (env : Env) (reason : AbuseReason)
    (timestamp : Nat) : n.reportAbuse base64Encode env offender reason timestamp =
      .ok ((n.signedAbuseReport base64Encode env offender reason timestamp).withPowDifficulty 0, { n with
        gossip := (n.gossip.insertNew env.order
          ((n.signedAbuseReport base64Encode env offender reason timestamp).withPowDifficulty 0)).2 }) := by
  have hsigned : (n.signedAbuseReport base64Encode env offender reason timestamp).checkSigned h.toPrimitives env.clock =
      .ok () := by
    refine newSigned_checkSigned hl _ _ nofun (env.fuzzyTimestampSecs_le.trans ?_)
    exact Nat.add_le_add_left (by decide) _
  have hvalid : ((n.signedAbuseReport base64Encode env offender reason timestamp).withPowDifficulty
      0).validateWithReputation h.toPrimitives env.clock n.reputation = .ok () := by
    have hkey : ((n.signedAbuseReport base64Encode env offender reason timestamp).withPowDifficulty 0).pubkey =
        n.pubkeyHex := rfl
    rw [MeshEvent.validateWithReputation, hkey, hfloor]
    exact validateWithPowMin_ok.mpr ⟨hsigned, checkPow_ok.mpr ⟨UInt8.le_refl 0, verifyPow_zero _ _ _⟩⟩
  rw [reportAbuse, if_neg hother]
  exact publishSigned_trusted _ hfloor hvalid

end

end Node

/-- **Where a report lands.** A report that was published, wherever it is received: it is applied exactly by a node that
lets it through, can read it, trusts the reporter and has not counted its report before. Then it is recorded against the
offender; else nothing changes in the reputation, but for a reporter beyond its rate. The reporter itself records
nothing when it publishes. -/
theorem report_lands_iff (h : Host) (hl : h.toPrimitives.Lawful) (base64Encode : Bytes → String) (env : Env)
    (n n' : Node h) (offender : String) (reason : AbuseReason) (timestamp : Nat) (event : MeshEvent)
    (hread : ReadsReport h base64Encode ⟨n.pubkeyHex, offender, reason.code, timestamp⟩)
    (hp : n.reportAbuse base64Encode env offender reason timestamp = .ok (event, n')) :
    n'.reputation = n.reputation ∧ ∀ (env' : Env) (now : Nat) (m : Node h),
      ((∃ level, (m.receivePeerEvent env' now event).outcome = .abuseReportApplied level) ↔
        m.Heeds now event offender reason) ∧
      (m.receivePeerEvent env' now event).node.reputation =
        if m.Heeds now event offender reason then
          m.reputation.reportedBy ⟨n.pubkeyHex, offender, reason.code, timestamp⟩
        else if m.verdict now event = .full then m.reputation.recordViolation n.pubkeyHex .excessiveRate now
        else m.reputation := by
  obtain ⟨hkey, hother, hsame, hc⟩ := Node.reportAbuse_carries hl hread hp
  refine ⟨hsame, fun env' now m => ?_⟩
  rw [← hkey] at hother hc ⊢
  obtain ⟨hout, hreputation⟩ := Node.received_report hc env' now m
  refine ⟨hout.trans (Node.lands_iff_heeds hother), hreputation.trans ?_⟩
  simp only [Node.lands_iff_heeds hother]

/-! ## A report of an invalid event -/

def knownReport : AbuseReport := ⟨knownAuthor, knownBeneficiary, 2, 1700000000⟩

/-- The base64 text of `knownReport`. -/
def reportText : String :=
  "eyJyZXBvcnRlciI6IjhhODhlM2RkNzQwOWYxOTVmZDUyZGIyZDNjYmE1ZDcyY2E2NzA5YmYxZDk0MTIxYmYzNzQ4ODAxYjQwZjZmNWMiLCJv" ++
    ("ZmZlbmRlciI6ImVkNDkyOGM2MjhkMWMyYzZlYWU5MDMzODkwNTk5NTYxMjk1OTI3M2E1YzYzZjkzNjM2YzE0NjE0YWM4NzM3ZDEiLCJyZWFz" ++
      "b24iOjIsInRpbWVzdGFtcCI6MTcwMDAwMDAwMH0=")

def reportValues : KnownValues where
  keys := knownKeys
  digests := [((canonical knownAuthor 1700000000 .abuseReport [] reportText).render,
    "450ef87ae35fd1e9b1900a06a1d1fbbc0b6bfcea75de7ff29318de753d2b3e4c")]
  signatures := [(knownAuthor, "450ef87ae35fd1e9b1900a06a1d1fbbc0b6bfcea75de7ff29318de753d2b3e4c",
    "55f099181731b148e532163e1e588e83cbc01b682f9889adf2b9ae9c5897aaea" ++
    "a5c5c71af0af85005e9c16809f325183db2bc8bf05cd8eafb3413486598e6b02")]

/-- The host that reads the report. -/
def reportHost : Host := { Host.ofKnown reportValues [] [] with
  base64Decode := fun text =>
    if text = reportText then .ok (utf8Bytes knownReport.toJson.render) else .error "Invalid padding"
  abuseReportFromSlice := fun data =>
    if data = utf8Bytes knownReport.toJson.render then .ok knownReport
    else .error "EOF while parsing a value at line 1 column 0" }

theorem reportHost_reads : ReadsReport reportHost (fun _ => reportText) knownReport := by
  constructor <;> simp only [reportHost, if_true]

def reporterNode : Node reportHost := Node.new .default (.ofByte 1) none none

/-- A peer that trusts the reporter. -/
def heedingNode : Node reportHost :=
  let n := Node.new .default (.ofByte 2) none none
  { n with reputation := n.reputation.bootstrap [knownAuthor] }

theorem reporter_pubkey : reporterNode.pubkeyHex = knownAuthor := knownKeys_one (k := reportValues) rfl

theorem reportText_size : reportText.utf8ByteSize ≤ 1024 :=
  (utf8ByteSize_append_le (utf8ByteSize_bounds _).2
    (utf8ByteSize_append_le (utf8ByteSize_bounds _).2 (utf8ByteSize_bounds _).2)).trans (by decide)

/-- The report of an author lands at the peer. -/
theorem report_lands_known : ∃ event n',
    reporterNode.reportAbuse (fun _ => reportText) (.still 1700000000) knownBeneficiary .invalidEvent 1700000000 =
      .ok (event, n') ∧
    n'.reputation = reporterNode.reputation ∧
    (heedingNode.receivePeerEvent (.still 1700000000) 1700000000 event).node.reputation =
      heedingNode.reputation.reportedBy knownReport := by
  have hl : reportHost.toPrimitives.Lawful := Primitives.ofKnown_lawful reportValues
  have hne : knownBeneficiary ≠ knownAuthor := mt String.ofList_inj.mp (by decide)
  have hfloor : reporterNode.reputation.requiredPowDifficulty reporterNode.pubkeyHex = 0 :=
    Node.new_floor .default (.ofByte 1) none none
  have hp := Node.reportAbuse_trusting hl hfloor (reporter_pubkey.symm ▸ hne) (fun _ => reportText) (.still 1700000000)
    .invalidEvent 1700000000
  generalize hevent : (reporterNode.signedAbuseReport (fun _ => reportText) (.still 1700000000) knownBeneficiary
    .invalidEvent 1700000000).withPowDifficulty 0 = event at hp
  have hread : ReadsReport reportHost (fun _ => reportText)
      ⟨reporterNode.pubkeyHex, knownBeneficiary, AbuseReason.invalidEvent.code, 1700000000⟩ := by
    rw [reporter_pubkey]
    exact reportHost_reads
  obtain ⟨hsame, hall⟩ := report_lands_iff reportHost hl (fun _ => reportText) (.still 1700000000) reporterNode _
    knownBeneficiary .invalidEvent 1700000000 event hread hp
  refine ⟨event, _, hp, hsame, ?_⟩
  have hkey : event.pubkey = knownAuthor := by
    rw [← hevent]
    exact reporter_pubkey
  have hother : event.pubkey ≠ heedingNode.pubkeyHex := by
    have hpeer : heedingNode.pubkeyHex = _ := knownKeys_two (k := reportValues) rfl
    rw [hkey, hpeer]
    decide
  have hsigned : event.signatureValid reportHost.toPrimitives = true := by
    rw [← hevent, signatureValid_withPowDifficulty]
    exact newSigned_signatureValid hl _ _ _ _ _
  have hheeds : heedingNode.Heeds 1700000000 event knownBeneficiary .invalidEvent := by
    refine ⟨?_, ?_, ?_, Finset.notMem_empty _⟩
    · rw [Node.verdict_clean hsigned hother (Finset.notMem_empty _) rfl (show 0 < spamBudgetPerWindow by decide)]
      rfl
    · rw [← hevent]
      exact reportText_size
    · rw [hkey]
      exact ReputationSystem.bootstrap_trusted (.inl List.mem_cons_self)
  rw [(hall (.still 1700000000) 1700000000 heedingNode).2, if_pos hheeds, reporter_pubkey]
  rfl

end Onde

import Onde.Lib.Fifo
import Onde.Reputation.Trust

/-!
# Refused calls, and reports that count once

* `endorseInPlace`, `applyRemoteEndorsementInPlace`, `applyRemoteAbuseReportInPlace`: the calls with the state they
  leave behind, also when they are refused;
* `SameStanding`: what a refused call leaves as it was;
* `Recalls`: the reports that are remembered are the last ones applied;
* `calls_atomic_reports_once`: refused calls change nothing, and a report counts again only after as many others as are
  remembered.
-/

namespace Onde.Reputation

open Onde.Lib

/-! ## The calls in place -/

namespace ReputationSystem

/-- `endorse` on the system itself: the list of the endorsed node is created before it is looked through. -/
def endorseInPlace (r : ReputationSystem) (endorser endorsed : String) (timestamp : Nat) :
    Except String ℚ × ReputationSystem :=
  if endorser = endorsed then (.error "A node cannot endorse itself", r)
  else if r.score endorser < endorsementThreshold then
    (.error s!"Endorser {endorser} is not trusted enough (score {scoreText (r.score endorser)})", r)
  else
    let r := { r with endorsements := r.endorsements.insert endorsed (r.endorsements.getD endorsed []) }
    let list := r.endorsements.getD endorsed []
    if list.any fun e => e.endorser = endorser then (.error "Duplicate endorsement", r)
    else
      let endorsement : Endorsement := ⟨endorser, endorsed, timestamp⟩
      let r := { r with endorsements := r.endorsements.insert endorsed (list ++ [endorsement]) }
      let newScore := max (r.score endorsed) (r.score endorser * endorsementDecay)
      let r := { r with scores := r.scores.insert endorsed newScore }
      let qualified := r.endorsementCount endorsed
      let r := if requiredEndorsements ≤ qualified ∧ newScore < trustedThreshold then
        { r with scores := r.scores.insert endorsed trustedThreshold } else r
      (.ok (r.score endorsed), r)

def applyRemoteEndorsementInPlace (r : ReputationSystem) (endorsement : Endorsement) (endorserSigVerified : Bool) :
    Except String Unit × ReputationSystem :=
  if !endorserSigVerified then (.error "Endorsement signature could not be verified", r)
  else
    let called := r.endorseInPlace endorsement.endorser endorsement.endorsed endorsement.timestamp
    (called.1.map fun _ => (), called.2)

def applyRemoteAbuseReportInPlace (r : ReputationSystem) (report : AbuseReport) (reporterSigVerified : Bool) :
    Except String ℚ × ReputationSystem :=
  if !reporterSigVerified then (.error "Abuse report signature could not be verified", r)
  else if report.reporter = report.offender then (.error "A node cannot report itself", r)
  else if AbuseReason.fromCode report.reason = none then (.error s!"Unknown abuse reason code {report.reason}", r)
  else if r.score report.reporter < endorsementThreshold then
    (.error s!"Abuse reporter {report.reporter} is not trusted enough (score {scoreText (r.score report.reporter)})", r)
  else
    let key : ReportKey := (report.reporter, report.offender, report.reason)
    if key ∈ r.abuseReportKeys then (.error "Duplicate abuse report", r)
    else
      let record := (r.abuseRecord report.offender).record penaltyRemoteReport report.timestamp
      let r := { r with abuse := r.abuse.insert report.offender record }
      let trimmed := trimReports (insert key r.abuseReportKeys) (r.abuseReportOrder ++ [key])
      (.ok record.score, { r with abuseReportKeys := trimmed.1, abuseReportOrder := trimmed.2 })

/-- Everything that counts is the same: the scores, the abuse, the reports, and the endorsements of each node. -/
structure SameStanding (r r' : ReputationSystem) : Prop where
  scores : r'.scores = r.scores
  activity : r'.activity = r.activity
  abuse : r'.abuse = r.abuse
  reportKeys : r'.abuseReportKeys = r.abuseReportKeys
  reportOrder : r'.abuseReportOrder = r.abuseReportOrder
  endorsements : ∀ a, r'.endorsements.getD a [] = r.endorsements.getD a []

theorem SameStanding.refl (r : ReputationSystem) : SameStanding r r := ⟨rfl, rfl, rfl, rfl, rfl, fun _ => rfl⟩

variable {r r' : ReputationSystem}

/-! ## Refused calls -/

/-- **In place the call does what `endorse` says, and a refused one leaves the standing as it was.** -/
theorem endorseInPlace_spec (r : ReputationSystem) (endorser endorsed : String) (timestamp : Nat) :
    match r.endorse endorser endorsed timestamp with
    | .ok (q, r') => r.endorseInPlace endorser endorsed timestamp = (.ok q, r')
    | .error err => (r.endorseInPlace endorser endorsed timestamp).1 = .error err ∧
        SameStanding r (r.endorseInPlace endorser endorsed timestamp).2 := by
  unfold endorse endorseInPlace
  by_cases hself : endorser = endorsed
  · rw [if_pos hself, if_pos hself]
    exact ⟨rfl, .refl r⟩
  rw [if_neg hself, if_neg hself]
  by_cases hscore : r.score endorser < endorsementThreshold
  · rw [if_pos hscore, if_pos hscore]
    exact ⟨rfl, .refl r⟩
  rw [if_neg hscore, if_neg hscore]
  simp only [StrMap.getD_insert_self]
  by_cases hdup : ((r.endorsements.getD endorsed []).any fun e => e.endorser = endorser) = true
  · rw [if_pos hdup, if_pos hdup]
    refine ⟨rfl, rfl, rfl, rfl, rfl, rfl, fun a => ?_⟩
    by_cases ha : a = endorsed
    · rw [ha, StrMap.getD_insert_self]
    · rw [StrMap.getD_insert_ne ha]
  · have hentry : (r.endorsements.insert endorsed (r.endorsements.getD endorsed [])).insert endorsed
        (r.endorsements.getD endorsed [] ++ [⟨endorser, endorsed, timestamp⟩]) =
        r.endorsements.insert endorsed (r.endorsements.getD endorsed [] ++ [⟨endorser, endorsed, timestamp⟩]) :=
      AList.insert_insert _
    rw [if_neg hdup, if_neg hdup, hentry]
    rfl

/-- A refused endorsement changes nothing that counts. -/
theorem endorseInPlace_refused {endorser endorsed err : String} {timestamp : Nat}
    (h : (r.endorseInPlace endorser endorsed timestamp).1 = .error err) :
    SameStanding r (r.endorseInPlace endorser endorsed timestamp).2 := by
  have hspec := r.endorseInPlace_spec endorser endorsed timestamp
  cases he : r.endorse endorser endorsed timestamp with
  | error err' =>
    rw [he] at hspec
    exact hspec.2
  | ok p =>
    rw [he] at hspec
    have hplace : r.endorseInPlace endorser endorsed timestamp = (.ok p.1, p.2) := hspec
    rw [hplace] at h
    cases h

theorem applyRemoteEndorsementInPlace_refused {endorsement : Endorsement} {verified : Bool} {err : String}
    (h : (r.applyRemoteEndorsementInPlace endorsement verified).1 = .error err) :
    SameStanding r (r.applyRemoteEndorsementInPlace endorsement verified).2 := by
  unfold applyRemoteEndorsementInPlace at h ⊢
  cases verified with
  | false => exact .refl r
  | true =>
    dsimp only at h ⊢
    cases hcall : (r.endorseInPlace endorsement.endorser endorsement.endorsed endorsement.timestamp).1 with
    | error err' => exact endorseInPlace_refused hcall
    | ok q =>
      rw [if_neg (by decide), hcall] at h
      cases h

/-- **In place a report does what `applyRemoteAbuseReport` says, and a refused one leaves the system as it was.** -/
theorem applyRemoteAbuseReportInPlace_spec (r : ReputationSystem) (report : AbuseReport) (verified : Bool) :
    r.applyRemoteAbuseReportInPlace report verified = match r.applyRemoteAbuseReport report verified with
      | .ok (q, r') => (.ok q, r')
      | .error err => (.error err, r) := by
  unfold applyRemoteAbuseReportInPlace applyRemoteAbuseReport
  dsimp only
  split
  · rfl
  split
  · rfl
  split
  · rfl
  split
  · rfl
  split <;> rfl

theorem applyRemoteAbuseReportInPlace_refused {report : AbuseReport} {verified : Bool} {err : String}
    (h : (r.applyRemoteAbuseReportInPlace report verified).1 = .error err) :
    (r.applyRemoteAbuseReportInPlace report verified).2 = r := by
  rw [applyRemoteAbuseReportInPlace_spec] at h ⊢
  cases hr : r.applyRemoteAbuseReport report verified with
  | error err' => rfl
  | ok p =>
    rw [hr] at h
    cases h

end ReputationSystem

/-! ## Applied reports -/

/-- The key of the report that a call applies, if it applies one. -/
def ReputationOp.appliedKey (r : ReputationSystem) : ReputationOp → Option ReportKey
  | .applyRemoteAbuseReport report verified =>
    match r.applyRemoteAbuseReport report verified with
    | .ok _ => some (report.reporter, report.offender, report.reason)
    | .error _ => none
  | _ => none

/-- The reports that the calls apply from a state on, oldest first. -/
def appliedReports (r : ReputationSystem) : List ReputationOp → List ReportKey
  | [] => []
  | op :: ops => (op.appliedKey r).toList ++ appliedReports (op.apply r) ops

/-- The reports that are remembered are the last ones applied, each once. -/
structure Recalls (r : ReputationSystem) (applied : List ReportKey) : Prop where
  order : r.abuseReportOrder = applied.rtake maxAbuseReportsTracked
  keys : r.abuseReportKeys = r.abuseReportOrder.toFinset
  nodup : r.abuseReportOrder.Nodup

open ReputationSystem (trimReports)

variable {r : ReputationSystem} {applied : List ReportKey} {ops past middle : List ReputationOp} {op : ReputationOp}
  {key : ReportKey}

theorem trimReports_room (keys : Finset ReportKey) {order : List ReportKey}
    (h : order.length ≤ maxAbuseReportsTracked) : trimReports keys order = (keys, order) := by
  cases order with
  | nil => rfl
  | cons old rest => rw [trimReports, if_neg (Nat.not_lt.mpr h)]

/-- **Entering a report drops the oldest one when there is no room.** -/
theorem trimReports_insert {order : List ReportKey} (hle : order.length ≤ maxAbuseReportsTracked)
    (hn : order.Nodup) (hnew : key ∉ order) : trimReports (insert key order.toFinset) (order ++ [key]) =
      ((pushBounded maxAbuseReportsTracked order key).toFinset, pushBounded maxAbuseReportsTracked order key) := by
  have hlen : (order ++ [key]).length = order.length + 1 := List.length_append
  rcases Nat.lt_or_ge order.length maxAbuseReportsTracked with hroom | hfull
  · rw [trimReports_room _ (by omega), pushBounded_room hroom, List.toFinset_append, Finset.union_comm]
    rfl
  · cases order with
    | nil => exact absurd hfull (by decide)
    | cons old rest =>
      rw [List.length_cons] at hle hfull
      have hold : old ≠ key := fun heq => hnew (heq ▸ List.mem_cons_self)
      have hrest : old ∉ rest := (List.nodup_cons.mp hn).1
      have htrim : trimReports (insert key (old :: rest).toFinset) (old :: rest ++ [key]) =
          trimReports ((insert key (old :: rest).toFinset).erase old) (rest ++ [key]) := by
        rw [List.cons_append, trimReports, if_pos]
        rw [List.length_cons, List.length_append, List.length_singleton]
        omega
      rw [htrim, trimReports_room _ (by rw [List.length_append, List.length_singleton]; omega),
        pushBounded_full hfull, List.tail_cons, List.toFinset_append, List.toFinset_cons, Finset.insert_comm,
        Finset.erase_insert, Finset.union_comm]
      · rfl
      · rw [Finset.mem_insert, List.mem_toFinset]
        exact not_or.mpr ⟨hold, hrest⟩

/-- A report is applied exactly if it is verified and reportable. -/
theorem appliedKey_iff : op.appliedKey r = some key ↔ ∃ report, op = .applyRemoteAbuseReport report true ∧
    r.Reportable report ∧ key = (report.reporter, report.offender, report.reason) := by
  constructor
  · intro h
    cases op with
    | applyRemoteAbuseReport report verified =>
      rw [ReputationOp.appliedKey] at h
      cases hr : r.applyRemoteAbuseReport report verified with
      | error err =>
        rw [hr] at h
        cases h
      | ok p =>
        rw [hr] at h
        obtain ⟨rfl, hable, -⟩ := ReputationSystem.applyRemoteAbuseReport_eq_ok.mp hr
        exact ⟨report, rfl, hable, (Option.some.inj h).symm⟩
    | _ => cases h
  · rintro ⟨report, rfl, hable, rfl⟩
    obtain ⟨p, hp⟩ := ReputationSystem.applyRemoteAbuseReport_ok.mpr hable
    rw [ReputationOp.appliedKey, hp]

theorem endorse_reports {endorser endorsed : String} {timestamp : Nat} {p : ℚ × ReputationSystem}
    (h : r.endorse endorser endorsed timestamp = .ok p) :
    p.2.abuseReportKeys = r.abuseReportKeys ∧ p.2.abuseReportOrder = r.abuseReportOrder := by
  obtain ⟨-, rfl⟩ := ReputationSystem.endorse_eq_ok.mp h
  unfold ReputationSystem.endorsedBy
  split <;> exact ⟨rfl, rfl⟩

/-- **An applied report is entered; no other call touches the reports.** -/
theorem reports_apply (r : ReputationSystem) (op : ReputationOp) :
    (op.appliedKey r = none → (op.apply r).abuseReportKeys = r.abuseReportKeys ∧
      (op.apply r).abuseReportOrder = r.abuseReportOrder) ∧
    ∀ key, op.appliedKey r = some key → key ∉ r.abuseReportKeys ∧
      ((op.apply r).abuseReportKeys, (op.apply r).abuseReportOrder) =
        trimReports (insert key r.abuseReportKeys) (r.abuseReportOrder ++ [key]) := by
  constructor
  · intro hnone
    cases op with
    | bootstrap genesisPeers =>
      induction genesisPeers generalizing r with
      | nil => exact ⟨rfl, rfl⟩
      | cons peer peers ih => exact ih (r.setTrusted peer genesisTrust) rfl
    | endorse endorser endorsed timestamp =>
      rw [ReputationOp.apply]
      cases he : r.endorse endorser endorsed timestamp with
      | error err => exact ⟨rfl, rfl⟩
      | ok p => exact endorse_reports he
    | applyRemoteEndorsement endorsement verified =>
      rw [ReputationOp.apply]
      cases verified with
      | false => exact ⟨rfl, rfl⟩
      | true =>
        rw [ReputationSystem.applyRemoteEndorsement_eq]
        cases he : r.endorse endorsement.endorser endorsement.endorsed endorsement.timestamp with
        | error err => exact ⟨rfl, rfl⟩
        | ok p => exact endorse_reports he
    | recordActivity pubkey =>
      unfold ReputationOp.apply ReputationSystem.recordActivity
      dsimp only
      split <;> exact ⟨rfl, rfl⟩
    | foldAbuseDecay author now =>
      unfold ReputationOp.apply ReputationSystem.foldAbuseDecay
      dsimp only
      split <;> exact ⟨rfl, rfl⟩
    | applyRemoteAbuseReport report verified =>
      rw [ReputationOp.appliedKey] at hnone
      rw [ReputationOp.apply]
      cases hr : r.applyRemoteAbuseReport report verified with
      | error err => exact ⟨rfl, rfl⟩
      | ok p =>
        rw [hr] at hnone
        cases hnone
    | _ => exact ⟨rfl, rfl⟩
  · intro key hkey
    obtain ⟨report, rfl, hable, rfl⟩ := appliedKey_iff.mp hkey
    have hcall := ReputationSystem.applyRemoteAbuseReport_eq_ok.mpr ⟨rfl, hable, rfl⟩
    refine ⟨hable.2.2.2, ?_⟩
    rw [ReputationOp.apply, hcall]
    rfl

/-! ## Runs -/

theorem recalls_new : Recalls .new [] := ⟨rfl, rfl, List.nodup_nil⟩

theorem Recalls.length_le (hr : Recalls r applied) : r.abuseReportOrder.length ≤ maxAbuseReportsTracked := by
  rw [hr.order]
  exact length_rtake_le _ _

/-- One call. -/
theorem Recalls.step (hr : Recalls r applied) (op : ReputationOp) :
    Recalls (op.apply r) (applied ++ (op.appliedKey r).toList) := by
  obtain ⟨hnone, hsome⟩ := reports_apply r op
  cases hkey : op.appliedKey r with
  | none =>
    obtain ⟨hkeys, horder⟩ := hnone hkey
    rw [Option.toList_none, List.append_nil]
    exact ⟨horder.trans hr.order, by rw [hkeys, horder, hr.keys], horder ▸ hr.nodup⟩
  | some key =>
    obtain ⟨hnew, htrim⟩ := hsome key hkey
    rw [hr.keys, List.mem_toFinset] at hnew
    rw [hr.keys, trimReports_insert hr.length_le hr.nodup hnew, Prod.mk.injEq] at htrim
    obtain ⟨hkeys, horder⟩ := htrim
    refine ⟨?_, by rw [hkeys, horder], horder ▸ nodup_pushBounded hr.nodup hnew⟩
    rw [horder, pushBounded_eq_rtake (by decide) hr.length_le, hr.order, rtake_append_rtake]
    rfl

/-- Many calls. -/
theorem Recalls.run : ∀ (ops : List ReputationOp) {r : ReputationSystem} {applied : List ReportKey},
    Recalls r applied → Recalls (ops.foldl ReputationOp.apply r) (applied ++ appliedReports r ops)
  | [], _, applied, hr => by rwa [appliedReports, List.append_nil]
  | op :: ops, r, applied, hr => by
    rw [appliedReports, ← List.append_assoc]
    exact (hr.step op).run ops

/-- **In every reachable state the reports remembered are the last ones applied.** -/
theorem recalls_run (ops : List ReputationOp) : Recalls (runOps ops) (appliedReports .new ops) :=
  recalls_new.run ops

theorem appliedReports_append : ∀ (ops : List ReputationOp) (r : ReputationSystem) (rest : List ReputationOp),
    appliedReports r (ops ++ rest) = appliedReports r ops ++ appliedReports (ops.foldl ReputationOp.apply r) rest
  | [], _, _ => rfl
  | op :: ops, r, rest => by
    rw [List.cons_append, appliedReports, appliedReports, appliedReports_append ops, List.append_assoc, List.foldl_cons]

/-- In a reachable state a report counts unless it is among the last ones applied. -/
theorem reportable_iff {report : AbuseReport} : (runOps ops).Reportable report ↔
    report.reporter ≠ report.offender ∧ AbuseReason.fromCode report.reason ≠ none ∧
      endorsementThreshold ≤ (runOps ops).score report.reporter ∧
      (report.reporter, report.offender, report.reason) ∉ (appliedReports .new ops).rtake maxAbuseReportsTracked := by
  have hr := recalls_run ops
  rw [ReputationSystem.Reportable, hr.keys, List.mem_toFinset, hr.order]

/-- **A report is applied a second time only after as many others as are remembered.** -/
theorem applied_again {op' : ReputationOp} (hfirst : op.appliedKey (runOps past) = some key)
    (hsecond : op'.appliedKey (runOps (past ++ op :: middle)) = some key) :
    maxAbuseReportsTracked ≤ ((appliedReports (runOps (past ++ [op])) middle).toFinset.erase key).card := by
  have hr := recalls_run (past ++ op :: middle)
  have happlied : appliedReports .new (past ++ op :: middle) =
      appliedReports .new past ++ key :: appliedReports (runOps (past ++ [op])) middle := by
    rw [appliedReports_append, appliedReports, show past.foldl ReputationOp.apply .new = runOps past from rfl, hfirst,
      runOps_snoc]
    rfl
  have hout := ((reports_apply _ op').2 key hsecond).1
  rw [hr.keys, List.mem_toFinset, hr.order, happlied] at hout
  have hnodup := hr.nodup
  rw [hr.order, happlied] at hnodup
  exact card_of_forgotten hout hnodup

/-- **Refused calls change nothing that counts; the remembered reports are a set and its order, bounded; and a report
counts again only after as many other reports as are remembered.** -/
theorem calls_atomic_reports_once :
    (∀ (r : ReputationSystem) (endorser endorsed : String) (timestamp : Nat) (err : String),
      (r.endorseInPlace endorser endorsed timestamp).1 = .error err →
        r.SameStanding (r.endorseInPlace endorser endorsed timestamp).2) ∧
    (∀ (r : ReputationSystem) (endorsement : Endorsement) (verified : Bool) (err : String),
      (r.applyRemoteEndorsementInPlace endorsement verified).1 = .error err →
        r.SameStanding (r.applyRemoteEndorsementInPlace endorsement verified).2) ∧
    (∀ (r : ReputationSystem) (report : AbuseReport) (verified : Bool) (err : String),
      (r.applyRemoteAbuseReportInPlace report verified).1 = .error err →
        (r.applyRemoteAbuseReportInPlace report verified).2 = r) ∧
    (∀ ops : List ReputationOp, (runOps ops).abuseReportKeys = (runOps ops).abuseReportOrder.toFinset ∧
      (runOps ops).abuseReportOrder.Nodup ∧ (runOps ops).abuseReportOrder.length ≤ maxAbuseReportsTracked) ∧
    ∀ (past middle : List ReputationOp) (op op' : ReputationOp) (key : ReportKey),
      op.appliedKey (runOps past) = some key → op'.appliedKey (runOps (past ++ op :: middle)) = some key →
        maxAbuseReportsTracked ≤ ((appliedReports (runOps (past ++ [op])) middle).toFinset.erase key).card :=
  ⟨fun _ _ _ _ _ => ReputationSystem.endorseInPlace_refused,
    fun _ _ _ _ => ReputationSystem.applyRemoteEndorsementInPlace_refused,
    fun _ _ _ _ => ReputationSystem.applyRemoteAbuseReportInPlace_refused,
    fun ops => ⟨(recalls_run ops).keys, (recalls_run ops).nodup, (recalls_run ops).length_le⟩,
    fun _ _ _ _ _ => applied_again⟩

end Onde.Reputation

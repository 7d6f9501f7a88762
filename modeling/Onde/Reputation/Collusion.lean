import Mathlib.Data.Finset.Prod
import Onde.Reputation.Laundering
import Onde.Reputation.Reports

/-!
# How many it takes to silence an author

* `charged`: what a call adds to the level of an author at most; `Within.apply`: one call, `abuseLevel_run`: a run;
* `accusers`: the nodes whose reports against an author were applied, and trusted when they were (`mem_accusers`);
* `silenced_by_many`: without a violation of its own, an author is throttled only after a report of a trusted node,
  made to wait only after reports of two, and ignored only after reports of three.
-/

namespace Onde.Reputation

open Onde.Lib

variable {r : ReputationSystem} {author : String} {op : ReputationOp} {ops : List ReputationOp} {bound : ℚ}

/-! ## What is added to a level -/

theorem AbuseRecord.levelAt_le {rec : AbuseRecord} (hb : 0 ≤ bound) (hs : rec.score ≤ bound) (now : Nat) :
    rec.levelAt now ≤ bound := by
  have hnn : (0 : ℚ) ≤ fullHours rec.updatedAt now * abuseRecoveryPerHour :=
    mul_nonneg (Nat.cast_nonneg _) recovery_pos.le
  rw [levelAt_eq]
  exact max_le (by linarith) hb

/-- The level of an author is within a bound. -/
def Within (r : ReputationSystem) (author : String) (bound : ℚ) : Prop :=
  0 ≤ bound ∧ (r.abuseRecord author).score ≤ bound

/-- The violations of an author that a call records, by their penalties. -/
def ReputationOp.violation (author : String) : ReputationOp → ℚ
  | .recordViolation a reason _ => if a = author then reason.penalty else 0
  | _ => 0

/-- The reports against an author that a call applies. -/
def ReputationOp.accusation (r : ReputationSystem) (author : String) (op : ReputationOp) : List ReportKey :=
  (op.appliedKey r).toList.filter fun key => key.2.1 = author

/-- What a call adds to the level of an author at most. -/
def ReputationOp.charged (r : ReputationSystem) (author : String) (op : ReputationOp) : ℚ :=
  op.violation author + (op.accusation r author).length * penaltyRemoteReport

theorem ReputationOp.charged_nonneg (r : ReputationSystem) (author : String) (op : ReputationOp) :
    0 ≤ op.charged r author := by
  have hreports : 0 ≤ ((op.accusation r author).length : ℚ) * penaltyRemoteReport :=
    mul_nonneg (Nat.cast_nonneg _) (by decide +kernel)
  have hviolation : 0 ≤ op.violation author := by
    cases op with
    | recordViolation a reason now =>
      show 0 ≤ if a = author then reason.penalty else 0
      by_cases ha : a = author
      · rw [if_pos ha]
        exact reason.penalty_pos.le
      · rw [if_neg ha]
    | _ => exact le_rfl
  exact add_nonneg hviolation hreports

/-- A record that is written over one within a bound. -/
theorem Within.record (hw : Within r author bound) (amount : ℚ) (now : Nat) :
    (((r.abuseRecord author).record amount now).score) ≤ bound + amount :=
  (min_le_left _ _).trans (by have := AbuseRecord.levelAt_le hw.1 hw.2 now; linarith)

theorem abuseRecord_congr {r' : ReputationSystem} (h : r'.abuse = r.abuse) (author : String) :
    r'.abuseRecord author = r.abuseRecord author := by
  rw [ReputationSystem.abuseRecord, ReputationSystem.abuseRecord, h]

theorem abuseRecord_insert {r' : ReputationSystem} {a : String} {rec : AbuseRecord}
    (h : r'.abuse = r.abuse.insert a rec) (author : String) :
    r'.abuseRecord author = if author = a then rec else r.abuseRecord author := by
  rw [ReputationSystem.abuseRecord, h]
  split
  · next ha => rw [ha, StrMap.getD_insert_self]
  · next ha =>
    rw [StrMap.getD_insert_ne ha]
    rfl

/-- **One call adds what it charges at most.** -/
theorem Within.apply (hw : Within r author bound) (op : ReputationOp) :
    Within (op.apply r) author (bound + op.charged r author) := by
  have hcharged := op.charged_nonneg r author
  refine ⟨add_nonneg hw.1 hcharged, ?_⟩
  have hsame : (op.apply r).abuse = r.abuse →
      ((op.apply r).abuseRecord author).score ≤ bound + op.charged r author := by
    intro h
    rw [abuseRecord_congr h]
    exact hw.2.trans (le_add_of_nonneg_right hcharged)
  cases op with
  | bootstrap genesisPeers => exact hsame (ReputationSystem.bootstrap_abuse _ _)
  | setTrusted pubkey score => exact hsame rfl
  | endorse endorser endorsed timestamp =>
    refine hsame ?_
    simp only [ReputationOp.apply]
    cases he : r.endorse endorser endorsed timestamp with
    | error err => rfl
    | ok p => exact ReputationSystem.endorse_abuse (q := p.1) he
  | applyRemoteEndorsement endorsement verified =>
    refine hsame ?_
    simp only [ReputationOp.apply]
    cases verified with
    | false => rfl
    | true =>
      rw [ReputationSystem.applyRemoteEndorsement_eq]
      cases he : r.endorse endorsement.endorser endorsement.endorsed endorsement.timestamp with
      | error err => rfl
      | ok p => exact ReputationSystem.endorse_abuse (q := p.1) he
  | recordActivity pubkey =>
    refine hsame ?_
    simp only [ReputationOp.apply, ReputationSystem.recordActivity]
    split <;> rfl
  | penalize pubkey amount => exact hsame rfl
  | recordViolation a reason now =>
    have hrec : ((ReputationOp.recordViolation a reason now).apply r).abuseRecord author =
        if author = a then (r.abuseRecord a).record reason.penalty now else r.abuseRecord author :=
      abuseRecord_insert rfl author
    have hadded : (ReputationOp.recordViolation a reason now).charged r author =
        if a = author then reason.penalty else 0 := by
      simp [ReputationOp.charged, ReputationOp.violation, ReputationOp.accusation, ReputationOp.appliedKey]
    rw [hrec, hadded]
    by_cases ha : author = a
    · subst ha
      rw [if_pos rfl, if_pos rfl]
      exact hw.record reason.penalty now
    · rw [if_neg ha, if_neg (Ne.symm ha), add_zero]
      exact hw.2
  | foldAbuseDecay a now =>
    have hadded : (ReputationOp.foldAbuseDecay a now).charged r author = 0 := by
      simp [ReputationOp.charged, ReputationOp.violation, ReputationOp.accusation, ReputationOp.appliedKey]
    rw [hadded, add_zero]
    simp only [ReputationOp.apply, ReputationSystem.foldAbuseDecay]
    cases hl : r.abuse.lookup a with
    | none => exact hw.2
    | some rec =>
      rw [abuseRecord_insert (r := r) (a := a) rfl]
      split
      · next ha =>
        refine AbuseRecord.levelAt_le hw.1 ?_ now
        have hscore := hw.2
        rwa [ReputationSystem.abuseRecord, ha, StrMap.getD_of_lookup hl] at hscore
      · exact hw.2
  | applyRemoteAbuseReport report verified =>
    cases hr : r.applyRemoteAbuseReport report verified with
    | error err =>
      refine hsame ?_
      simp only [ReputationOp.apply, hr]
    | ok p =>
      obtain ⟨rfl, -, hp⟩ := ReputationSystem.applyRemoteAbuseReport_eq_ok.mp hr
      have happly : (ReputationOp.applyRemoteAbuseReport report true).apply r = r.reportedBy report := by
        simp only [ReputationOp.apply, hr, ← hp]
      have hrec : (r.reportedBy report).abuseRecord author =
          if author = report.offender then r.reportedRecord report else r.abuseRecord author :=
        abuseRecord_insert rfl author
      have hkey : (ReputationOp.applyRemoteAbuseReport report true).appliedKey r =
          some (report.reporter, report.offender, report.reason) := by
        simp only [ReputationOp.appliedKey, hr]
      rw [happly, hrec, ReputationOp.charged, ReputationOp.accusation, hkey]
      by_cases ha : author = report.offender
      · subst ha
        rw [if_pos rfl, ReputationSystem.reportedRecord]
        simpa [ReputationOp.violation] using hw.record penaltyRemoteReport report.timestamp
      · rw [if_neg ha]
        simpa [ReputationOp.violation, Ne.symm ha] using hw.2

/-! ## Runs -/

/-- The violations of an author in some calls, by their penalties. -/
def violations (author : String) (ops : List ReputationOp) : ℚ := (ops.map (ReputationOp.violation author)).sum

/-- The reports against an author that some calls apply. -/
def accusations (r : ReputationSystem) (author : String) (ops : List ReputationOp) : List ReportKey :=
  (appliedReports r ops).filter fun key => key.2.1 = author

theorem accusations_cons (r : ReputationSystem) (author : String) (op : ReputationOp) (ops : List ReputationOp) :
    accusations r author (op :: ops) = op.accusation r author ++ accusations (op.apply r) author ops :=
  List.filter_append ..

/-- **The run lemma.** -/
theorem Within.run : ∀ (ops : List ReputationOp) {r : ReputationSystem} {bound : ℚ}, Within r author bound →
    Within (ops.foldl ReputationOp.apply r) author
      (bound + (violations author ops + (accusations r author ops).length * penaltyRemoteReport))
  | [], r, bound, hw => by simpa [violations, accusations, appliedReports] using hw
  | op :: ops, r, bound, hw => by
    have hrun := (hw.apply op).run ops
    have hsum : bound + op.charged r author + (violations author ops +
        (accusations (op.apply r) author ops).length * penaltyRemoteReport) =
        bound + (violations author (op :: ops) + (accusations r author (op :: ops)).length * penaltyRemoteReport) := by
      have hviolations : violations author (op :: ops) = op.violation author + violations author ops := List.sum_cons
      rw [accusations_cons, List.length_append, hviolations, ReputationOp.charged]
      push_cast
      ring
    rwa [hsum] at hrun

/-- The level an author is seen at is at most its violations and the reports against it. -/
theorem abuseLevel_run (ops : List ReputationOp) (author : String) (now : Nat) : (runOps ops).abuseLevel author now ≤
    violations author ops + (accusations .new author ops).length * penaltyRemoteReport := by
  have hstart : Within .new author 0 := ⟨le_rfl, le_rfl⟩
  have hrun := hstart.run ops
  rw [zero_add] at hrun
  rw [ReputationSystem.abuseLevel_eq]
  exact AbuseRecord.levelAt_le hrun.1 hrun.2 now

/-! ## The accusers -/

/-- The nodes whose reports against an author were applied. -/
def accusers (author : String) (ops : List ReputationOp) : Finset String :=
  ((accusations .new author ops).map Prod.fst).toFinset

/-- The reasons a report can give. -/
def reasonCodes : Finset UInt8 := {1, 2, 3}

theorem mem_reasonCodes {code : UInt8} (h : AbuseReason.fromCode code ≠ none) : code ∈ reasonCodes := by
  unfold AbuseReason.fromCode at h
  split at h <;> first | decide | exact absurd rfl h

/-- **An applied report came from another node, trusted at the time, for a known reason.** -/
theorem mem_appliedReports {key : ReportKey} : key ∈ appliedReports .new ops →
    ∃ past op rest, ops = past ++ op :: rest ∧ op.appliedKey (runOps past) = some key := by
  induction ops using List.reverseRecOn with
  | nil => exact fun h => nomatch h
  | append_singleton ops op ih =>
    intro h
    rw [appliedReports_append] at h
    rcases List.mem_append.mp h with hold | hnew
    · obtain ⟨past, op', rest, rfl, hkey⟩ := ih hold
      exact ⟨past, op', rest ++ [op], by simp, hkey⟩
    · refine ⟨ops, op, [], rfl, ?_⟩
      rw [appliedReports, appliedReports, List.append_nil] at hnew
      exact Option.mem_toList.mp hnew

theorem mem_accusers {accuser : String} (h : accuser ∈ accusers author ops) : accuser ≠ author ∧
    ∃ past, past <+: ops ∧ (runOps past).isTrusted accuser = true := by
  obtain ⟨key, hkey, rfl⟩ := List.mem_map.mp (List.mem_toFinset.mp h)
  obtain ⟨happlied, hoffender⟩ := List.mem_filter.mp hkey
  obtain ⟨past, op, rest, rfl, hop⟩ := mem_appliedReports happlied
  obtain ⟨report, -, ⟨hother, -, htrusted, -⟩, rfl⟩ := appliedKey_iff.mp hop
  have ho : report.offender = author := of_decide_eq_true hoffender
  exact ⟨ho ▸ hother, past, List.prefix_append _ _, decide_eq_true htrusted⟩

/-- As long as every report is remembered, each accuser counts once for each reason. -/
theorem length_accusations (hroom : (appliedReports .new ops).length ≤ maxAbuseReportsTracked) (author : String) :
    (accusations .new author ops).length ≤ 3 * (accusers author ops).card := by
  have hnodup : (accusations .new author ops).Nodup := by
    have hr := recalls_run ops
    have hall := hr.nodup
    rw [hr.order, List.rtake, Nat.sub_eq_zero_of_le hroom, List.drop_zero] at hall
    exact hall.filter _
  have hsub : (accusations .new author ops).toFinset ⊆ accusers author ops ×ˢ ({author} ×ˢ reasonCodes) := by
    intro key hkey
    have hmem := List.mem_toFinset.mp hkey
    obtain ⟨happlied, hoffender⟩ := List.mem_filter.mp hmem
    obtain ⟨past, op, rest, -, hop⟩ := mem_appliedReports happlied
    obtain ⟨report, -, ⟨-, hreason, -⟩, rfl⟩ := appliedKey_iff.mp hop
    simp only [Finset.mem_product, Finset.mem_singleton]
    exact ⟨List.mem_toFinset.mpr (List.mem_map_of_mem hmem), of_decide_eq_true hoffender, mem_reasonCodes hreason⟩
  have hle := Finset.card_le_card hsub
  have hthree : reasonCodes.card = 3 := by decide
  rw [List.toFinset_card_of_nodup hnodup, Finset.card_product, Finset.card_product, Finset.card_singleton,
    hthree] at hle
  omega

/-- **It takes three to silence an author.** In every run the level of an author is at most the penalties of its own
violations and a tenth for each report against it. So if the node has recorded no violation of it, and no report has
been forgotten, then the author is less than accepted only if a node has accused it that was trusted at the time, has
to wait only if two did, and is ignored only if three did. -/
theorem silenced_by_many (ops : List ReputationOp) (author : String) (now : Nat) :
    (runOps ops).abuseLevel author now ≤
      violations author ops + (accusations .new author ops).length * penaltyRemoteReport ∧
    (∀ accuser ∈ accusers author ops, accuser ≠ author ∧
      ∃ past, past <+: ops ∧ (runOps past).isTrusted accuser = true) ∧
    (violations author ops = 0 → (appliedReports .new ops).length ≤ maxAbuseReportsTracked →
      ((runOps ops).actionFor author now ≠ .accept → 1 ≤ (accusers author ops).card) ∧
      ((runOps ops).actionFor author now = .deprioritize → 2 ≤ (accusers author ops).card) ∧
      ((runOps ops).actionFor author now = .ignore → 3 ≤ (accusers author ops).card)) := by
  refine ⟨abuseLevel_run ops author now, fun accuser h => mem_accusers h, fun hnone hroom => ?_⟩
  have hlevel := abuseLevel_run ops author now
  have hlen := length_accusations hroom author
  have hlevel' : (runOps ops).abuseLevel author now ≤ ((accusations .new author ops).length : ℚ) * (10 / 100) := by
    rwa [hnone, zero_add, penaltyRemoteReport] at hlevel
  have hle : ((accusations .new author ops).length : ℚ) ≤ 3 * (accusers author ops).card := by exact_mod_cast hlen
  unfold ReputationSystem.actionFor actionForAbuse abuseIgnoreThreshold abuseDeprioritizeThreshold
    abuseThrottleThreshold
  have hatLeast : ∀ {k : Nat} {level : ℚ}, level ≤ (runOps ops).abuseLevel author now → 3 * k * (10 / 100) < level →
      k + 1 ≤ (accusers author ops).card := by
    intro k level hge hlt
    have hcast : (k : ℚ) < (accusers author ops).card := by linarith
    exact_mod_cast hcast
  refine ⟨fun haction => ?_, fun haction => ?_, fun haction => ?_⟩
  · by_cases h : 15 / 100 ≤ (runOps ops).abuseLevel author now
    · exact hatLeast (k := 0) h (by norm_num)
    · rw [if_neg (by linarith), if_neg (by linarith), if_neg h] at haction
      exact absurd rfl haction
  · split at haction
    · cases haction
    split at haction
    · next h => exact hatLeast (k := 1) h (by norm_num)
    split at haction <;> cases haction
  · split at haction
    · next h => exact hatLeast (k := 2) h (by norm_num)
    split at haction
    · cases haction
    split at haction <;> cases haction

/-! ## Three founders against one author -/

/-- Each of three founders reports an author for every reason. -/
def accusing : List ReputationOp :=
  .bootstrap ["f", "g", "h"] :: ["f", "g", "h"].flatMap fun accuser =>
    [1, 2, 3].map fun reason => .applyRemoteAbuseReport ⟨accuser, "x", reason, 1700000000⟩ true

/-- The author is ignored, and three have accused it. -/
theorem silenced_by_many_founders :
    (runOps accusing).actionFor "x" 1700000000 = .ignore ∧ 3 ≤ (accusers "x" accusing).card := by
  have hignored : (runOps accusing).actionFor "x" 1700000000 = .ignore := by decide +kernel
  have hnone : violations "x" accusing = 0 := by decide +kernel
  have hroom : (appliedReports .new accusing).length ≤ maxAbuseReportsTracked := by decide +kernel
  exact ⟨hignored, ((silenced_by_many accusing "x" 1700000000).2.2 hnone hroom).2.2 hignored⟩

end Onde.Reputation

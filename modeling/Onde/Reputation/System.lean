import Onde.Lib.Except
import Onde.Reputation.Spam

/-!
# The web of trust

* `endorse`, `applyRemoteEndorsement`: an endorsement counts exactly when `Endorsable`, and then does `endorsedBy`
  (`endorse_eq_ok`);
* `applyRemoteAbuseReport`: a report counts exactly when `Reportable`, and then does `reportedBy`
  (`applyRemoteAbuseReport_eq_ok`);
* `recordViolation`, `abuseLevel`, `actionFor`: penalties, with a frame lemma for the other authors;
* `requiredPowDifficulty`: the difficulty floor of an author, at most `maxPowDifficulty`;
* `bootstrap`: what the genesis peers may (`requiredPowDifficulty_bootstrap`, `endorsable_bootstrap`);
* `ReputationOp`: the calls that change a system.
-/

namespace Onde.Reputation

open Onde.Lib

def trustedThreshold : ℚ := 7 / 10
def endorsementThreshold : ℚ := 7 / 10
def endorsementDecay : ℚ := 1 / 2
def genesisTrust : ℚ := 8 / 10
def unknownTrust : ℚ := 0
def requiredEndorsements : Nat := 3
def maxPowDifficulty : UInt8 := 4
def basePowDifficulty : UInt8 := 2

/-- `endorser` vouches for `endorsed`. -/
structure Endorsement where
  endorser : String
  endorsed : String
  timestamp : Nat
  deriving DecidableEq

/-- Enough endorsers in a list are enough distinct others. -/
theorem many_endorsers_iff {endorsers : List String} {a : String} {P : String → Prop} (hnodup : endorsers.Nodup)
    (hirrefl : a ∉ endorsers) (hmem : ∀ e, e ∈ endorsers ↔ P e) : requiredEndorsements ≤ endorsers.length ↔
    ∃ others : Finset String, requiredEndorsements ≤ others.card ∧ ∀ e ∈ others, e ≠ a ∧ P e := by
  constructor
  · intro hmany
    refine ⟨endorsers.toFinset, ?_, fun e he => ?_⟩
    · rwa [List.toFinset_card_of_nodup hnodup]
    · have he := List.mem_toFinset.mp he
      exact ⟨fun heq => hirrefl (heq ▸ he), (hmem e).mp he⟩
  · rintro ⟨others, hmany, hothers⟩
    have hsub : others ⊆ endorsers.toFinset := by
      intro e he
      exact List.mem_toFinset.mpr ((hmem e).mpr (hothers e he).2)
    exact (hmany.trans (Finset.card_le_card hsub)).trans (List.toFinset_card_le _)

/-- The key a report is counted once under. -/
abbrev ReportKey := String × String × UInt8

/-- Scores, endorsements and abuse, by public key. -/
structure ReputationSystem where
  scores : StrMap ℚ
  endorsements : StrMap (List Endorsement)
  activity : StrMap Nat
  abuse : StrMap AbuseRecord
  abuseReportKeys : Finset ReportKey
  abuseReportOrder : List ReportKey

/-- The decimal text of a score. -/
def scoreText (q : ℚ) : String :=
  let rec digits : Nat → ℚ → List Char
    | 0, _ => []
    | fuel + 1, r => if r = 0 then [] else (⌊10 * r⌋.toNat.repr.toList) ++ digits fuel (10 * r - ⌊10 * r⌋)
  let whole := toString ⌊q⌋
  if q = ⌊q⌋ then whole else whole ++ "." ++ String.ofList (digits 17 (q - ⌊q⌋))

/-- The nearest integer, halves away from zero. -/
def roundHalfAway (q : ℚ) : Int := if 0 ≤ q then ⌊q + 1 / 2⌋ else ⌈q - 1 / 2⌉

namespace ReputationSystem

def new : ReputationSystem := ⟨∅, ∅, ∅, ∅, ∅, []⟩

/-! ## Scores and endorsements -/

/-- Set a score, clamped to `0..1`. -/
def setTrusted (r : ReputationSystem) (pubkey : String) (score : ℚ) : ReputationSystem :=
  { r with scores := r.scores.insert pubkey (max 0 (min score 1)) }

/-- Trust the founders. -/
def bootstrap (r : ReputationSystem) (genesisPeers : List String) : ReputationSystem :=
  genesisPeers.foldl (fun r peer => r.setTrusted peer genesisTrust) r

def score (r : ReputationSystem) (pubkey : String) : ℚ := r.scores.getD pubkey unknownTrust

def isTrusted (r : ReputationSystem) (pubkey : String) : Bool := trustedThreshold ≤ r.score pubkey

/-- The endorsements of a node by endorsers that are trusted now. -/
def endorsementCount (r : ReputationSystem) (pubkey : String) : Nat :=
  ((r.endorsements.getD pubkey []).filter fun e => endorsementThreshold ≤ r.scores.getD e.endorser 0).length

/-- The endorsement is by another, trusted node that has not endorsed this one yet. -/
def Endorsable (r : ReputationSystem) (endorser endorsed : String) : Prop :=
  endorser ≠ endorsed ∧ endorsementThreshold ≤ r.score endorser ∧
    ∀ e ∈ r.endorsements.getD endorsed [], e.endorser ≠ endorser

instance (r : ReputationSystem) (endorser endorsed : String) : Decidable (r.Endorsable endorser endorsed) :=
  inferInstanceAs (Decidable (_ ∧ _ ∧ _))

/-- Record an endorsement; enough of them promote the endorsed node. -/
def endorse (r : ReputationSystem) (endorser endorsed : String) (timestamp : Nat) :
    Except String (ℚ × ReputationSystem) :=
  if endorser = endorsed then .error "A node cannot endorse itself"
  else if r.score endorser < endorsementThreshold then
    .error s!"Endorser {endorser} is not trusted enough (score {scoreText (r.score endorser)})"
  else
    let list := r.endorsements.getD endorsed []
    if list.any fun e => e.endorser = endorser then .error "Duplicate endorsement"
    else
      let endorsements := r.endorsements.insert endorsed (list ++ [⟨endorser, endorsed, timestamp⟩])
      let newScore := max (r.score endorsed) (r.score endorser * endorsementDecay)
      let r₁ := { r with endorsements, scores := r.scores.insert endorsed newScore }
      let r₂ := if requiredEndorsements ≤ r₁.endorsementCount endorsed ∧ newScore < trustedThreshold then
        { r₁ with scores := r₁.scores.insert endorsed trustedThreshold } else r₁
      .ok (r₂.score endorsed, r₂)

/-- Apply an endorsement received from the network. -/
def applyRemoteEndorsement (r : ReputationSystem) (endorsement : Endorsement) (endorserSigVerified : Bool) :
    Except String ReputationSystem :=
  if !endorserSigVerified then .error "Endorsement signature could not be verified"
  else Prod.snd <$> r.endorse endorsement.endorser endorsement.endorsed endorsement.timestamp

/-- A message received: a small bonus from the tenth on, below the threshold of trust. -/
def recordActivity (r : ReputationSystem) (pubkey : String) : ReputationSystem :=
  let n := r.activity.getD pubkey 0 + 1
  let r := { r with activity := r.activity.insert pubkey n }
  if 10 ≤ n ∧ r.score pubkey < trustedThreshold then
    { r with scores := r.scores.insert pubkey (min (r.score pubkey + 2 / 100) trustedThreshold) }
  else r

def penalize (r : ReputationSystem) (pubkey : String) (amount : ℚ) : ReputationSystem :=
  { r with scores := r.scores.insert pubkey (max (r.score pubkey - amount) 0) }

/-! ## Proof of work -/

/-- The stored level, without recovery. -/
def storedAbuseLevel (r : ReputationSystem) (author : String) : ℚ :=
  (r.abuse.lookup author).elim 0 AbuseRecord.score

/-- The difficulty the score asks for. -/
def requiredPowDifficultyInner (r : ReputationSystem) (pubkey : String) : UInt8 :=
  let score := r.score pubkey
  if trustedThreshold ≤ score then 0
  else if score ≤ unknownTrust then maxPowDifficulty
  else
    let t := score / trustedThreshold
    let diff := (maxPowDifficulty.toNat : ℚ) - t * ((maxPowDifficulty - basePowDifficulty).toNat : ℚ)
    let rounded := min (roundHalfAway diff).toNat 255
    UInt8.ofNat (max basePowDifficulty.toNat (min rounded maxPowDifficulty.toNat))

/-- The difficulty floor of an author: the maximum for a throttled one. -/
def requiredPowDifficulty (r : ReputationSystem) (pubkey : String) : UInt8 :=
  if abuseThrottleThreshold ≤ r.storedAbuseLevel pubkey then maxPowDifficulty else r.requiredPowDifficultyInner pubkey

/-! ## Abuse -/

def abuseRecord (r : ReputationSystem) (author : String) : AbuseRecord := r.abuse.getD author AbuseRecord.default

/-- Record a violation the author answers for. -/
def recordViolation (r : ReputationSystem) (author : String) (reason : AbuseReason) (now : Nat) : ReputationSystem :=
  { r with abuse := r.abuse.insert author ((r.abuseRecord author).record reason.penalty now) }

/-- Write the level seen at `now`. -/
def foldAbuseDecay (r : ReputationSystem) (author : String) (now : Nat) : ReputationSystem :=
  match r.abuse.lookup author with
  | none => r
  | some rec => { r with abuse := r.abuse.insert author ⟨rec.levelAt now, now⟩ }

/-- The level seen at `now`. -/
def abuseLevel (r : ReputationSystem) (author : String) (now : Nat) : ℚ :=
  (r.abuse.lookup author).elim 0 fun rec => rec.levelAt now

def actionFor (r : ReputationSystem) (author : String) (now : Nat) : TrustAction :=
  actionForAbuse (r.abuseLevel author now)

/-- Forget the oldest report keys beyond the bound. -/
def trimReports (keys : Finset ReportKey) : List ReportKey → Finset ReportKey × List ReportKey
  | [] => (keys, [])
  | old :: rest =>
    if maxAbuseReportsTracked < (old :: rest).length then trimReports (keys.erase old) rest else (keys, old :: rest)

/-- The report is by another, trusted node, for a known reason, and new. -/
def Reportable (r : ReputationSystem) (report : AbuseReport) : Prop :=
  report.reporter ≠ report.offender ∧ AbuseReason.fromCode report.reason ≠ none ∧
    endorsementThreshold ≤ r.score report.reporter ∧
    (report.reporter, report.offender, report.reason) ∉ r.abuseReportKeys

instance (r : ReputationSystem) (report : AbuseReport) : Decidable (r.Reportable report) :=
  inferInstanceAs (Decidable (_ ∧ _ ∧ _ ∧ _))

/-- Apply an abuse report received from the network. -/
def applyRemoteAbuseReport (r : ReputationSystem) (report : AbuseReport) (reporterSigVerified : Bool) :
    Except String (ℚ × ReputationSystem) :=
  if !reporterSigVerified then .error "Abuse report signature could not be verified"
  else if report.reporter = report.offender then .error "A node cannot report itself"
  else if AbuseReason.fromCode report.reason = none then .error s!"Unknown abuse reason code {report.reason}"
  else if r.score report.reporter < endorsementThreshold then
    .error s!"Abuse reporter {report.reporter} is not trusted enough (score {scoreText (r.score report.reporter)})"
  else
    let key : ReportKey := (report.reporter, report.offender, report.reason)
    if key ∈ r.abuseReportKeys then .error "Duplicate abuse report"
    else
      let record := (r.abuseRecord report.offender).record penaltyRemoteReport report.timestamp
      let trimmed := trimReports (insert key r.abuseReportKeys) (r.abuseReportOrder ++ [key])
      .ok (record.score,
        { r with
          abuse := r.abuse.insert report.offender record
          abuseReportKeys := trimmed.1
          abuseReportOrder := trimmed.2 })

/-! ## What an endorsement or a report does -/

variable {r r' : ReputationSystem}

/-- The endorsement is entered, and its node gets half the score of its endorser. -/
def entered (r : ReputationSystem) (endorser endorsed : String) (timestamp : Nat) : ReputationSystem :=
  { r with
    endorsements := r.endorsements.insert endorsed
      (r.endorsements.getD endorsed [] ++ [⟨endorser, endorsed, timestamp⟩])
    scores := r.scores.insert endorsed (max (r.score endorsed) (r.score endorser * endorsementDecay)) }

/-- The system after an accepted endorsement: the node is trusted once it has enough of them. -/
def endorsedBy (r : ReputationSystem) (endorser endorsed : String) (timestamp : Nat) : ReputationSystem :=
  if requiredEndorsements ≤ (r.entered endorser endorsed timestamp).endorsementCount endorsed ∧
      max (r.score endorsed) (r.score endorser * endorsementDecay) < trustedThreshold then
    { r.entered endorser endorsed timestamp with
      scores := (r.entered endorser endorsed timestamp).scores.insert endorsed trustedThreshold }
  else r.entered endorser endorsed timestamp

theorem not_any_endorser {list : List Endorsement} {endorser : String} :
    ¬(list.any fun e => e.endorser = endorser) = true ↔ ∀ e ∈ list, e.endorser ≠ endorser := by
  rw [List.any_eq_true, not_exists]
  refine forall_congr' fun e => ?_
  rw [not_and, decide_eq_true_iff]

/-- **What `endorse` does**: the checks of `Endorsable`, then `endorsedBy`. -/
theorem endorse_eq_ok {endorser endorsed : String} {timestamp : Nat} {p : ℚ × ReputationSystem} :
    r.endorse endorser endorsed timestamp = .ok p ↔ r.Endorsable endorser endorsed ∧
      ((r.endorsedBy endorser endorsed timestamp).score endorsed, r.endorsedBy endorser endorsed timestamp) = p := by
  unfold endorse Endorsable
  dsimp only
  rw [check_eq_ok, check_eq_ok, check_eq_ok, not_lt, not_any_endorser, and_assoc, and_assoc, Except.ok.injEq]
  rfl

/-- **An endorsement is accepted exactly when it is endorsable**; scores and endorsements change. -/
theorem endorse_ok {endorser endorsed : String} {timestamp : Nat} :
    (∃ p, r.endorse endorser endorsed timestamp = .ok p) ↔ r.Endorsable endorser endorsed :=
  ⟨fun ⟨_, hp⟩ => (endorse_eq_ok.mp hp).1, fun hable => ⟨_, endorse_eq_ok.mpr ⟨hable, rfl⟩⟩⟩

theorem endorse_abuse {endorser endorsed : String} {timestamp : Nat} {q : ℚ}
    (h : r.endorse endorser endorsed timestamp = .ok (q, r')) : r'.abuse = r.abuse := by
  obtain ⟨-, h⟩ := endorse_eq_ok.mp h
  cases h
  unfold endorsedBy
  split <;> rfl

/-- An endorsement changes the score of the endorsed node only. -/
theorem endorse_scores {endorser endorsed : String} {timestamp : Nat} {q : ℚ}
    (h : r.endorse endorser endorsed timestamp = .ok (q, r')) :
    endorser ≠ endorsed ∧ ∀ a, a ≠ endorsed → r'.scores.lookup a = r.scores.lookup a := by
  obtain ⟨hable, h⟩ := endorse_eq_ok.mp h
  cases h
  refine ⟨hable.1, fun a ha => ?_⟩
  unfold endorsedBy
  split
  · exact (AList.lookup_insert_ne ha).trans (AList.lookup_insert_ne ha)
  · exact AList.lookup_insert_ne ha

theorem applyRemoteEndorsement_eq (endorsement : Endorsement) :
    r.applyRemoteEndorsement endorsement true =
      Prod.snd <$> r.endorse endorsement.endorser endorsement.endorsed endorsement.timestamp := rfl

/-- The three refusals of policy, as texts. -/
theorem endorse_error {endorser endorsed err : String} {timestamp : Nat}
    (h : r.endorse endorser endorsed timestamp = .error err) :
    err = "A node cannot endorse itself" ∨
    err = s!"Endorser {endorser} is not trusted enough (score {scoreText (r.score endorser)})" ∨
    err = "Duplicate endorsement" := by
  unfold endorse at h
  split at h
  · cases h; exact Or.inl rfl
  split at h
  · cases h; exact Or.inr (Or.inl rfl)
  dsimp only at h
  split at h
  · cases h; exact Or.inr (Or.inr rfl)
  · cases h

/-- The record of the offender after a report. -/
def reportedRecord (r : ReputationSystem) (report : AbuseReport) : AbuseRecord :=
  (r.abuseRecord report.offender).record penaltyRemoteReport report.timestamp

/-- The system after an accepted report. -/
def reportedBy (r : ReputationSystem) (report : AbuseReport) : ReputationSystem :=
  let key : ReportKey := (report.reporter, report.offender, report.reason)
  let trimmed := trimReports (insert key r.abuseReportKeys) (r.abuseReportOrder ++ [key])
  { r with
    abuse := r.abuse.insert report.offender (r.reportedRecord report)
    abuseReportKeys := trimmed.1
    abuseReportOrder := trimmed.2 }

/-- **What `applyRemoteAbuseReport` does**: the checks of `Reportable`, then `reportedBy`. -/
theorem applyRemoteAbuseReport_eq_ok {report : AbuseReport} {verified : Bool} {p : ℚ × ReputationSystem} :
    r.applyRemoteAbuseReport report verified = .ok p ↔ verified = true ∧ r.Reportable report ∧
      ((r.reportedRecord report).score, r.reportedBy report) = p := by
  unfold applyRemoteAbuseReport Reportable
  dsimp only
  rw [check_eq_ok, check_eq_ok, check_eq_ok, check_eq_ok, check_eq_ok, not_lt, Bool.not_eq_true', Bool.not_eq_false,
    and_assoc, and_assoc, and_assoc, Except.ok.injEq]
  rfl

/-- **A report is accepted exactly when it is reportable.** -/
theorem applyRemoteAbuseReport_ok {report : AbuseReport} :
    (∃ p, r.applyRemoteAbuseReport report true = .ok p) ↔ r.Reportable report :=
  ⟨fun ⟨_, hp⟩ => (applyRemoteAbuseReport_eq_ok.mp hp).2.1,
    fun hable => ⟨_, applyRemoteAbuseReport_eq_ok.mpr ⟨rfl, hable, rfl⟩⟩⟩

/-- A report raises the level of the offender and of nobody else. -/
theorem applyRemoteAbuseReport_abuse {report : AbuseReport} {q : ℚ} {b : Bool}
    (h : r.applyRemoteAbuseReport report b = .ok (q, r')) :
    r'.scores = r.scores ∧ r'.endorsements = r.endorsements ∧
      ∀ a, a ≠ report.offender → r'.abuse.lookup a = r.abuse.lookup a := by
  obtain ⟨-, -, h⟩ := applyRemoteAbuseReport_eq_ok.mp h
  cases h
  exact ⟨rfl, rfl, fun a ha => AList.lookup_insert_ne ha⟩

/-! ## Violations and the difficulty floor -/

/-- The floor depends on the score and the abuse record of the author only. -/
theorem requiredPowDifficulty_congr {a : String} (hs : r'.scores.lookup a = r.scores.lookup a)
    (ha : r'.abuse.lookup a = r.abuse.lookup a) : r'.requiredPowDifficulty a = r.requiredPowDifficulty a := by
  have hscore : r'.score a = r.score a := by rw [score, score, StrMap.getD, StrMap.getD, hs]
  have habuse : r'.storedAbuseLevel a = r.storedAbuseLevel a := by rw [storedAbuseLevel, storedAbuseLevel, ha]
  unfold requiredPowDifficulty requiredPowDifficultyInner
  rw [hscore, habuse]

theorem requiredPowDifficulty_le (a : String) : r.requiredPowDifficulty a ≤ maxPowDifficulty := by
  have hinner : r.requiredPowDifficultyInner a ≤ maxPowDifficulty := by
    unfold requiredPowDifficultyInner
    dsimp only
    split
    · decide
    split
    · exact UInt8.le_refl _
    · have hb : basePowDifficulty.toNat ≤ maxPowDifficulty.toNat := by decide
      rw [UInt8.le_iff_toNat_le, UInt8.toNat_ofNat']
      exact Nat.le_trans (Nat.mod_le _ _) (by omega)
  unfold requiredPowDifficulty
  split
  · exact UInt8.le_refl _
  · exact hinner

/-- A trusted author without an abuse record pays nothing. -/
theorem requiredPowDifficulty_trusted {a : String} (ht : trustedThreshold ≤ r.score a)
    (ha : r.abuse.lookup a = none) : r.requiredPowDifficulty a = 0 := by
  have h0 : ¬abuseThrottleThreshold ≤ r.storedAbuseLevel a := by
    rw [storedAbuseLevel, ha]
    show ¬(15 / 100 : ℚ) ≤ 0
    decide +kernel
  rw [requiredPowDifficulty, if_neg h0, requiredPowDifficultyInner, if_pos ht]

/-- An unknown author without an abuse record pays the maximum. -/
theorem requiredPowDifficulty_unknown {a : String} (hs : r.scores.lookup a = none) :
    r.requiredPowDifficulty a = maxPowDifficulty := by
  have hscore : r.score a = 0 := by rw [score, StrMap.getD_of_none hs, unknownTrust]
  have hinner : r.requiredPowDifficultyInner a = maxPowDifficulty := by
    unfold requiredPowDifficultyInner
    rw [hscore]
    decide +kernel
  rw [requiredPowDifficulty, hinner, ite_self]

/-- An author without a record is accepted at any time. -/
theorem actionFor_none {a : String} (ha : r.abuse.lookup a = none) (now : Nat) : r.actionFor a now = .accept := by
  rw [actionFor, abuseLevel, ha]
  show actionForAbuse 0 = .accept
  decide +kernel

example : (scoreText (2 / 5), scoreText 1) = ("0.4", "1") := by decide +kernel

/-! ## Genesis peers -/

theorem score_insert (r : ReputationSystem) (a b : String) (q : ℚ) :
    ({ r with scores := r.scores.insert a q } : ReputationSystem).score b = if b = a then q else r.score b := by
  unfold score
  by_cases hb : b = a
  · subst hb
    rw [if_pos rfl]
    exact StrMap.getD_insert_self
  · rw [if_neg hb]
    exact StrMap.getD_insert_ne hb

theorem setTrusted_score (r : ReputationSystem) (peer a : String) :
    (r.setTrusted peer genesisTrust).score a = if a = peer then genesisTrust else r.score a := by
  have hclamp : max 0 (min genesisTrust 1) = genesisTrust := by decide +kernel
  have hscore := r.score_insert peer a (max 0 (min genesisTrust 1))
  rw [hclamp] at hscore
  rw [setTrusted, hclamp]
  exact hscore

theorem bootstrap_score : ∀ (genesisPeers : List String) (r : ReputationSystem) (a : String),
    (r.bootstrap genesisPeers).score a = if a ∈ genesisPeers then genesisTrust else r.score a
  | [], _, _ => rfl
  | peer :: peers, r, a => by
    have ih := bootstrap_score peers (r.setTrusted peer genesisTrust) a
    rw [bootstrap, List.foldl_cons]
    rw [bootstrap] at ih
    rw [ih, setTrusted_score]
    by_cases hp : a ∈ peers <;> by_cases ha : a = peer <;> simp [hp, ha]

theorem bootstrap_endorsements : ∀ (genesisPeers : List String) (r : ReputationSystem),
    (r.bootstrap genesisPeers).endorsements = r.endorsements
  | [], _ => rfl
  | peer :: peers, r => bootstrap_endorsements peers (r.setTrusted peer genesisTrust)

theorem bootstrap_abuse : ∀ (genesisPeers : List String) (r : ReputationSystem),
    (r.bootstrap genesisPeers).abuse = r.abuse
  | [], _ => rfl
  | peer :: peers, r => bootstrap_abuse peers (r.setTrusted peer genesisTrust)

/-- A genesis peer is trusted, and so is whoever was before. -/
theorem bootstrap_trusted {peers : List String} {a : String} (h : a ∈ peers ∨ trustedThreshold ≤ r.score a) :
    trustedThreshold ≤ (r.bootstrap peers).score a := by
  have hgenesis : trustedThreshold ≤ genesisTrust := by decide +kernel
  rw [bootstrap_score]
  by_cases hmem : a ∈ peers
  · rwa [if_pos hmem]
  · rw [if_neg hmem]
    exact h.resolve_left hmem

/-- A genesis peer without an abuse record pays nothing. -/
theorem requiredPowDifficulty_bootstrap {peers : List String} {a : String} (hmem : a ∈ peers)
    (ha : r.abuse.lookup a = none) : (r.bootstrap peers).requiredPowDifficulty a = 0 :=
  requiredPowDifficulty_trusted (bootstrap_trusted (.inl hmem)) ((bootstrap_abuse peers r).symm ▸ ha)

/-- A genesis peer may endorse whoever has no endorsement yet. -/
theorem endorsable_bootstrap {peers : List String} {endorser endorsed : String} (hmem : endorser ∈ peers)
    (hne : endorser ≠ endorsed) (hnone : r.endorsements.getD endorsed [] = []) :
    (r.bootstrap peers).Endorsable endorser endorsed := by
  refine ⟨hne, bootstrap_trusted (.inl hmem), ?_⟩
  rw [bootstrap_endorsements, hnone]
  exact fun _ h => nomatch h

end ReputationSystem

/-! ## Calls -/

/-- The calls that change a reputation system. -/
inductive ReputationOp where
  | bootstrap (genesisPeers : List String)
  | setTrusted (pubkey : String) (score : ℚ)
  | endorse (endorser endorsed : String) (timestamp : Nat)
  | applyRemoteEndorsement (endorsement : Endorsement) (verified : Bool)
  | recordActivity (pubkey : String)
  | penalize (pubkey : String) (amount : ℚ)
  | recordViolation (author : String) (reason : AbuseReason) (now : Nat)
  | foldAbuseDecay (author : String) (now : Nat)
  | applyRemoteAbuseReport (report : AbuseReport) (verified : Bool)

namespace ReputationOp

/-- What a call does; a refused one changes nothing. -/
def apply (r : ReputationSystem) : ReputationOp → ReputationSystem
  | .bootstrap genesisPeers => r.bootstrap genesisPeers
  | .setTrusted pubkey score => r.setTrusted pubkey score
  | .endorse endorser endorsed timestamp => match r.endorse endorser endorsed timestamp with
    | .ok p => p.2
    | .error _ => r
  | .applyRemoteEndorsement endorsement verified => match r.applyRemoteEndorsement endorsement verified with
    | .ok r' => r'
    | .error _ => r
  | .recordActivity pubkey => r.recordActivity pubkey
  | .penalize pubkey amount => r.penalize pubkey amount
  | .recordViolation author reason now => r.recordViolation author reason now
  | .foldAbuseDecay author now => r.foldAbuseDecay author now
  | .applyRemoteAbuseReport report verified => match r.applyRemoteAbuseReport report verified with
    | .ok p => p.2
    | .error _ => r

end ReputationOp

end Onde.Reputation

import Onde.Reputation.Scores

/-!
# Trust and activity

Runs of `bootstrap`, `endorse`, `apply_remote_endorsement`, `record_activity` and `penalize` from an empty web.

* `endorse_effect`: what an accepted endorsement does in any state;
* `Ledger`: every score is a number, and the endorsers of a node are those accepted, each once and never itself,
  whatever happens to the scores;
* `modest_iff`: in any arithmetic, the calls after which nobody is trusted without having been bootstrapped or endorsed
  enough;
* `trust_earned_iff`: so in doubles, exactly the runs in which this always holds.
-/

namespace Onde.Reputation

open Onde.Lib IeeeOrder

section

variable {S : Type} [Scoring S]

/-- The call is an endorsement of `a` by `e` that succeeds. -/
def TrustCall.Endorses (r : WebOfTrust S) (e a : String) : TrustCall S → Prop
  | .endorse endorser endorsed timestamp =>
    endorser = e ∧ endorsed = a ∧ ∃ p, r.endorse endorser endorsed timestamp = .ok p
  | .applyRemoteEndorsement endorsement verified =>
    endorsement.endorser = e ∧ endorsement.endorsed = a ∧ ∃ r', r.applyRemoteEndorsement endorsement verified = .ok r'
  | _ => False

/-- The founders a call names. -/
def TrustCall.founders : TrustCall S → List String
  | .bootstrap genesisPeers => genesisPeers
  | _ => []

/-- The web after a run. -/
def runCalls (calls : List (TrustCall S)) : WebOfTrust S := calls.foldl TrustCall.apply .new

/-- The bootstrapped nodes. -/
def bootstrapped (calls : List (TrustCall S)) : List String := calls.flatMap TrustCall.founders

/-- An endorsement was accepted. -/
def Vouched (calls : List (TrustCall S)) (e a : String) : Prop :=
  ∃ past call rest, calls = past ++ call :: rest ∧ call.Endorses (runCalls past) e a

/-- Bootstrapped, or endorsed by enough distinct others. -/
def Backed (calls : List (TrustCall S)) (a : String) : Prop :=
  a ∈ bootstrapped calls ∨ ∃ endorsers : Finset String, requiredEndorsements ≤ endorsers.card ∧
    ∀ e ∈ endorsers, e ≠ a ∧ Vouched calls e a

/-- Who has endorsed a node. -/
def WebOfTrust.endorsers (r : WebOfTrust S) (a : String) : List String :=
  (r.endorsements.getD a []).map Endorsement.endorser

/-- The next call lifts nobody to the threshold who is not backed: an endorsement is the last one required or does not
gain the threshold, and neither the bonus of an activity nor a negative penalty reaches it. -/
structure TrustCall.Modest (calls : List (TrustCall S)) (call : TrustCall S) : Prop where
  endorsement : ∀ e a, call.Endorses (runCalls calls) e a →
    Backed calls a ∨ requiredEndorsements ≤ ((runCalls calls).endorsers a).length + 1 ∨
      ¬WebOfTrust.trustedThreshold ≤ (runCalls calls).score e * WebOfTrust.endorsementDecay
  activity : ∀ a, call = .recordActivity a →
    Backed calls a ∨ (runCalls calls).activity.getD a 0 + 1 < 10 ∨
      (runCalls calls).score a + 0.02 < WebOfTrust.trustedThreshold
  penalty : ∀ a amount, call = .penalize a amount →
    Backed calls a ∨ ¬WebOfTrust.trustedThreshold ≤ (runCalls calls).score a - amount

/-! ## One call -/

theorem trusted_number : isNaN (WebOfTrust.trustedThreshold : S) = false :=
  (IeeeOrder.numbers Scoring.trusted_le_genesis).1

theorem trusted_self : (WebOfTrust.trustedThreshold : S) ≤ WebOfTrust.trustedThreshold :=
  (IeeeOrder.total trusted_number trusted_number).elim id id

namespace WebOfTrust

variable {r r' : WebOfTrust S} {a e : String}

theorem isTrusted_iff : r.isTrusted a = true ↔ trustedThreshold ≤ r.score a := decide_eq_true_iff

/-- **What an accepted endorsement does**: one more endorser, and the score is the larger of the old one and the gain,
or the threshold when there are enough endorsers. -/
theorem endorse_effect {timestamp : Nat} {q : S} (h : r.endorse e a timestamp = .ok (q, r')) :
    (∀ b, r'.endorsers b = if b = a then r.endorsers a ++ [e] else r.endorsers b) ∧
    (∀ b, b ≠ a → r'.score b = r.score b) ∧
    (r'.score a = fmax (r.score a) (r.score e * endorsementDecay) ∨
      r'.score a = trustedThreshold ∧ requiredEndorsements ≤ (r.endorsers a).length + 1) := by
  obtain ⟨-, h⟩ := endorse_eq_ok.mp h
  cases h
  have hentered : ∀ b, (r.entered e a timestamp).endorsers b =
      if b = a then r.endorsers a ++ [e] else r.endorsers b := by
    intro b
    unfold entered endorsers
    dsimp only
    by_cases hb : b = a
    · subst hb
      rw [if_pos rfl, StrMap.getD_insert_self, List.map_append]
      rfl
    · rw [if_neg hb, StrMap.getD_insert_ne hb]
  have hscore : ∀ b, (r.entered e a timestamp).score b =
      if b = a then fmax (r.score a) (r.score e * endorsementDecay) else r.score b := fun b => r.score_insert a b _
  have hothers : ∀ b, b ≠ a → (r.entered e a timestamp).score b = r.score b := fun b hb => by rw [hscore, if_neg hb]
  unfold endorsedBy
  split
  next hlast =>
    refine ⟨hentered, fun b hb => ?_, .inr ⟨StrMap.getD_insert_self, hlast.1.trans ?_⟩⟩
    · exact (StrMap.getD_insert_ne hb).trans (hothers b hb)
    · -- the endorsers that count are some of the endorsers
      refine (List.length_filter_le _ _).trans ?_
      have hlength := congrArg List.length (hentered a)
      rw [if_pos rfl, endorsers, List.length_map, List.length_append, List.length_singleton] at hlength
      exact hlength.le
  next => exact ⟨hentered, hothers, .inl (by rw [hscore, if_pos rfl])⟩

end WebOfTrust

/-- What a call does to the endorsements: it is one that is accepted, or endorses nobody. -/
theorem TrustCall.effect_cases (call : TrustCall S) (r : WebOfTrust S) :
    (∃ e a timestamp q r', r.endorse e a timestamp = .ok (q, r') ∧ call.apply r = r' ∧ call.founders = [] ∧
      (∀ e' a', call.Endorses r e' a' ↔ e' = e ∧ a' = a) ∧ (∀ b, call ≠ .recordActivity b) ∧
      ∀ b amount, call ≠ .penalize b amount) ∨
    ((call.apply r).endorsements = r.endorsements ∧ (∀ e a, ¬call.Endorses r e a) ∧
      ((∃ peers, call = .bootstrap peers) ∨ (∃ a, call = .recordActivity a) ∨ (∃ a amount, call = .penalize a amount) ∨
        call.apply r = r ∧ call.founders = [] ∧ (∀ b, call ≠ .recordActivity b) ∧
        ∀ b amount, call ≠ .penalize b amount)) := by
  cases call with
  | bootstrap peers =>
    exact .inr ⟨WebOfTrust.bootstrap_endorsements peers r, fun _ _ h => h, .inl ⟨peers, rfl⟩⟩
  | recordActivity a =>
    refine .inr ⟨?_, fun _ _ h => h, .inr (.inl ⟨a, rfl⟩)⟩
    simp only [apply, WebOfTrust.recordActivity]
    split <;> rfl
  | penalize a amount => exact .inr ⟨rfl, fun _ _ h => h, .inr (.inr (.inl ⟨a, amount, rfl⟩))⟩
  | endorse e a timestamp =>
    cases h : r.endorse e a timestamp with
    | ok p =>
      exact .inl ⟨e, a, timestamp, p.1, p.2, h, by simp [apply, h], rfl, by simp [Endorses, h, eq_comm], by simp,
        by simp⟩
    | error refusal =>
      have hsame : apply r (.endorse e a timestamp) = r := by simp [apply, h]
      exact .inr ⟨by rw [hsame], by simp [Endorses, h], .inr (.inr (.inr ⟨hsame, rfl, by simp, by simp⟩))⟩
  | applyRemoteEndorsement endorsement verified =>
    cases verified with
    | false =>
      have hno : r.applyRemoteEndorsement endorsement false = .error .unverified := rfl
      have hsame : apply r (.applyRemoteEndorsement endorsement false) = r := rfl
      exact .inr ⟨by rw [hsame], by simp [Endorses, hno], .inr (.inr (.inr ⟨hsame, rfl, by simp, by simp⟩))⟩
    | true =>
      cases h : r.endorse endorsement.endorser endorsement.endorsed endorsement.timestamp with
      | ok p =>
        have hyes : r.applyRemoteEndorsement endorsement true = .ok p.2 := congrArg (Prod.snd <$> ·) h
        exact .inl ⟨_, _, _, p.1, p.2, h, by simp [apply, hyes], rfl, by simp [Endorses, hyes, eq_comm], by simp,
          by simp⟩
      | error refusal =>
        have hno : r.applyRemoteEndorsement endorsement true = .error refusal := congrArg (Prod.snd <$> ·) h
        have hsame : apply r (.applyRemoteEndorsement endorsement true) = r := by simp [apply, hno]
        exact .inr ⟨by rw [hsame], by simp [Endorses, hno], .inr (.inr (.inr ⟨hsame, rfl, by simp, by simp⟩))⟩

/-! ## The endorsers -/

variable {calls : List (TrustCall S)} {call : TrustCall S} {a e : String}

theorem runCalls_snoc : runCalls (calls ++ [call]) = call.apply (runCalls calls) := by simp [runCalls]

omit [Scoring S] in
theorem bootstrapped_snoc : bootstrapped (calls ++ [call]) = bootstrapped calls ++ call.founders := by
  simp [bootstrapped]

theorem vouched_snoc : Vouched (calls ++ [call]) e a ↔ Vouched calls e a ∨ call.Endorses (runCalls calls) e a := by
  constructor
  · rintro ⟨past, last, rest, heq, hend⟩
    rcases List.eq_nil_or_concat rest with rfl | ⟨rest, tail, rfl⟩
    · obtain ⟨rfl, hlast⟩ := List.append_inj' heq rfl
      cases hlast
      exact .inr hend
    · rw [List.concat_eq_append, ← List.cons_append, ← List.append_assoc] at heq
      obtain ⟨rfl, -⟩ := List.append_inj' heq rfl
      exact .inl ⟨past, last, rest, rfl, hend⟩
  · rintro (⟨past, last, rest, rfl, hend⟩ | hend)
    · exact ⟨past, last, rest ++ [call], by simp, hend⟩
    · exact ⟨calls, call, [], rfl, hend⟩

theorem Backed.snoc (h : Backed calls a) : Backed (calls ++ [call]) a := by
  rcases h with hgen | ⟨endorsers, hmany, hacc⟩
  · exact .inl (by rw [bootstrapped_snoc]; exact List.mem_append_left _ hgen)
  · exact .inr ⟨endorsers, hmany, fun e he => ⟨(hacc e he).1, vouched_snoc.mpr (.inl (hacc e he).2)⟩⟩

/-- The scores and the endorsers after a run. -/
structure Ledger (calls : List (TrustCall S)) : Prop where
  number : ∀ a, isNaN ((runCalls calls).score a) = false
  nodup : ∀ a, ((runCalls calls).endorsers a).Nodup
  irrefl : ∀ a, a ∉ (runCalls calls).endorsers a
  vouched : ∀ a e, e ∈ (runCalls calls).endorsers a ↔ Vouched calls e a

theorem zero_number : isNaN (0.0 : S) = false := (IeeeOrder.numbers (IeeeOrder.le_of_lt Scoring.zero_lt_trusted)).1

theorem ledger_nil : Ledger ([] : List (TrustCall S)) where
  number _ := zero_number
  nodup _ := List.nodup_nil
  irrefl _ := List.not_mem_nil
  vouched _ _ := by
    refine iff_of_false List.not_mem_nil ?_
    rintro ⟨past, call, rest, heq, -⟩
    simp at heq

/-- Whatever a call makes of a score is a number. -/
theorem Ledger.number_step (hl : Ledger calls) (call : TrustCall S) (b : String) :
    isNaN ((call.apply (runCalls calls)).score b) = false := by
  rcases call.effect_cases (runCalls calls) with ⟨e, a, timestamp, q, r', h, happly, -⟩ | ⟨-, -, hrest⟩
  · obtain ⟨-, hothers, hscore⟩ := WebOfTrust.endorse_effect h
    rw [happly]
    by_cases hb : b = a
    · subst hb
      rcases hscore with hmax | ⟨hthr, -⟩
      · rw [hmax, isNaN_fmax, hl.number, Bool.false_and]
      · rw [hthr, trusted_number]
    · rw [hothers b hb, hl.number]
  rcases hrest with ⟨peers, rfl⟩ | ⟨a, rfl⟩ | ⟨a, amount, rfl⟩ | ⟨hsame, -⟩
  · simp only [TrustCall.apply, WebOfTrust.bootstrap_score]
    split
    · exact (IeeeOrder.numbers Scoring.trusted_le_genesis).2
    · exact hl.number b
  · simp only [TrustCall.apply, WebOfTrust.recordActivity_score]
    split
    · rw [isNaN_fmin, trusted_number, Bool.and_false]
    · exact hl.number b
  · simp only [TrustCall.apply, WebOfTrust.penalize_score]
    split
    · rw [isNaN_fmax, zero_number, Bool.and_false]
    · exact hl.number b
  · rw [hsame, hl.number]

/-- An accepted endorsement is entered once. -/
theorem Ledger.endorsement (hl : Ledger calls) {timestamp : Nat} {q : S} {r' : WebOfTrust S}
    (h : (runCalls calls).endorse e a timestamp = .ok (q, r')) (hnext : call.apply (runCalls calls) = r')
    (hend : ∀ e' a', call.Endorses (runCalls calls) e' a' ↔ e' = e ∧ a' = a) : Ledger (calls ++ [call]) := by
  obtain ⟨⟨hea, -, hnew⟩, -⟩ := WebOfTrust.endorse_eq_ok.mp h
  obtain ⟨hendorsers, -, -⟩ := WebOfTrust.endorse_effect h
  rw [← hnext, ← runCalls_snoc] at hendorsers
  have hfresh : e ∉ (runCalls calls).endorsers a := by
    intro hmem
    obtain ⟨x, hx, heq⟩ := List.mem_map.mp hmem
    exact hnew x hx heq
  refine ⟨fun b => by rw [runCalls_snoc]; exact hl.number_step call b, fun b => ?_, fun b => ?_, fun b x => ?_⟩
  · rw [hendorsers]
    split
    · refine List.nodup_append.mpr ⟨hl.nodup a, List.nodup_singleton e, fun x hx y hy hxy => ?_⟩
      rw [List.mem_singleton.mp hy] at hxy
      exact hfresh (hxy ▸ hx)
    · exact hl.nodup b
  · rw [hendorsers]
    split
    next hb =>
      subst hb
      rw [List.mem_append, List.mem_singleton]
      rintro (hold | hlast)
      · exact hl.irrefl b hold
      · exact hea hlast.symm
    next => exact hl.irrefl b
  · rw [hendorsers, vouched_snoc, hend]
    by_cases hb : b = a
    · subst hb
      simp only [if_true, List.mem_append, List.mem_singleton, hl.vouched, and_true]
    · simp [hb, hl.vouched]

/-- **One call keeps the ledger.** -/
theorem Ledger.step (hl : Ledger calls) (call : TrustCall S) : Ledger (calls ++ [call]) := by
  rcases call.effect_cases (runCalls calls) with ⟨e, a, timestamp, q, r', h, happly, -, hend, -⟩ | ⟨hsame, hnone, -⟩
  · exact hl.endorsement h happly hend
  · have hendorsers : ∀ b, (runCalls (calls ++ [call])).endorsers b = (runCalls calls).endorsers b := by
      intro b
      rw [runCalls_snoc, WebOfTrust.endorsers, WebOfTrust.endorsers, hsame]
    refine ⟨fun b => by rw [runCalls_snoc]; exact hl.number_step call b, fun b => ?_, fun b => ?_, fun b x => ?_⟩
    · rw [hendorsers]
      exact hl.nodup b
    · rw [hendorsers]
      exact hl.irrefl b
    · rw [hendorsers, hl.vouched, vouched_snoc]
      simp [hnone x b]

theorem ledger_run (calls : List (TrustCall S)) : Ledger calls := by
  induction calls using List.reverseRecOn with
  | nil => exact ledger_nil
  | append_singleton calls call ih => exact ih.step call

/-- Who is backed, read off the endorsers. -/
theorem Ledger.backed_iff (hl : Ledger calls) :
    Backed calls a ↔ a ∈ bootstrapped calls ∨ requiredEndorsements ≤ ((runCalls calls).endorsers a).length := by
  exact or_congr_right (many_endorsers_iff (hl.nodup a) (hl.irrefl a) (hl.vouched a)).symm

/-! ## Runs -/

/-- Nobody is trusted who is not backed. -/
def Earned (calls : List (TrustCall S)) : Prop := ∀ a, (runCalls calls).isTrusted a = true → Backed calls a

theorem earned_nil : Earned ([] : List (TrustCall S)) := by
  intro a ha
  exact absurd (WebOfTrust.isTrusted_iff.mp ha) (IeeeOrder.not_le_of_lt Scoring.zero_lt_trusted)

/-- After an accepted endorsement, the endorsed node may be backed by it. -/
theorem Ledger.backed_endorsement (hl : Ledger calls) {timestamp : Nat} {q : S} {r' : WebOfTrust S}
    (h : (runCalls calls).endorse e a timestamp = .ok (q, r')) (hnext : runCalls (calls ++ [call]) = r')
    (hfounders : call.founders = []) (b : String) : Backed (calls ++ [call]) b ↔
      Backed calls b ∨ b = a ∧ requiredEndorsements ≤ ((runCalls calls).endorsers a).length + 1 := by
  have hgen : bootstrapped (calls ++ [call]) = bootstrapped calls := by
    rw [bootstrapped_snoc, hfounders, List.append_nil]
  rw [(hl.step call).backed_iff, hl.backed_iff, hgen, hnext, (WebOfTrust.endorse_effect h).1]
  by_cases hb : b = a
  · subst hb
    rw [if_pos rfl, List.length_append, List.length_singleton]
    have hmore : requiredEndorsements ≤ ((runCalls calls).endorsers b).length →
        requiredEndorsements ≤ ((runCalls calls).endorsers b).length + 1 := fun h => h.trans (Nat.le_succ _)
    tauto
  · simp [hb]

/-- A call that endorses nobody and names no founders backs nobody. -/
theorem Ledger.backed_same (hl : Ledger calls)
    (hsame : (call.apply (runCalls calls)).endorsements = (runCalls calls).endorsements)
    (hfounders : call.founders = [])
    (b : String) : Backed (calls ++ [call]) b ↔ Backed calls b := by
  have hgen : bootstrapped (calls ++ [call]) = bootstrapped calls := by
    rw [bootstrapped_snoc, hfounders, List.append_nil]
  rw [(hl.step call).backed_iff, hl.backed_iff, hgen, runCalls_snoc, WebOfTrust.endorsers, WebOfTrust.endorsers, hsame]

/-- An accepted endorsement is modest exactly when the endorsed node is backed after it or not trusted. -/
theorem Ledger.modest_endorsement (hl : Ledger calls) (he : Earned calls) {timestamp : Nat} {q : S}
    {r' : WebOfTrust S} (h : (runCalls calls).endorse e a timestamp = .ok (q, r'))
    (hnext : runCalls (calls ++ [call]) = r') (hfounders : call.founders = []) :
    (Backed calls a ∨ requiredEndorsements ≤ ((runCalls calls).endorsers a).length + 1 ∨
      ¬WebOfTrust.trustedThreshold ≤ (runCalls calls).score e * WebOfTrust.endorsementDecay) ↔
    Earned (calls ++ [call]) := by
  obtain ⟨-, hothers, hscore⟩ := WebOfTrust.endorse_effect h
  have hbacked := hl.backed_endorsement h hnext hfounders
  constructor
  · intro hmodest b hb
    rw [hnext, WebOfTrust.isTrusted_iff] at hb
    rw [hbacked]
    by_cases hba : b = a
    · subst hba
      rcases hmodest with hold | henough | hgain
      · exact .inl hold
      · exact .inr ⟨rfl, henough⟩
      · rcases hscore with hmax | ⟨-, henough⟩
        · rw [hmax, le_fmax] at hb
          exact .inl (he b (WebOfTrust.isTrusted_iff.mpr (hb.resolve_right hgain)))
        · exact .inr ⟨rfl, henough⟩
    · rw [hothers b hba] at hb
      exact .inl (he b (WebOfTrust.isTrusted_iff.mpr hb))
  · intro hafter
    by_contra hno
    push Not at hno
    obtain ⟨hold, hfew, hgain⟩ := hno
    have htrusted : (runCalls (calls ++ [call])).isTrusted a = true := by
      rw [hnext, WebOfTrust.isTrusted_iff]
      rcases hscore with hmax | ⟨hthr, -⟩
      · rw [hmax]
        exact le_fmax.mpr (.inr hgain)
      · rw [hthr]
        exact trusted_self
    rcases (hbacked a).mp (hafter a htrusted) with h | ⟨-, h⟩
    · exact hold h
    · omega

/-- A call that backs nobody and changes the score of one node keeps trust earned exactly when that node is backed or
stays below the threshold. -/
theorem Ledger.modest_score (hl : Ledger calls) (he : Earned calls)
    (hsame : (call.apply (runCalls calls)).endorsements = (runCalls calls).endorsements)
    (hfounders : call.founders = [])
    (hothers : ∀ b, b ≠ a → (call.apply (runCalls calls)).score b = (runCalls calls).score b) :
    (Backed calls a ∨ ¬WebOfTrust.trustedThreshold ≤ (call.apply (runCalls calls)).score a) ↔
      Earned (calls ++ [call]) := by
  have hbacked := hl.backed_same hsame hfounders
  constructor
  · intro hmodest b hb
    rw [runCalls_snoc, WebOfTrust.isTrusted_iff] at hb
    rw [hbacked]
    by_cases hba : b = a
    · subst hba
      exact hmodest.resolve_right (not_not.mpr hb)
    · rw [hothers b hba] at hb
      exact he b (WebOfTrust.isTrusted_iff.mpr hb)
  · intro hafter
    by_cases hhigh : WebOfTrust.trustedThreshold ≤ (call.apply (runCalls calls)).score a
    · refine .inl ((hbacked a).mp (hafter a ?_))
      rw [runCalls_snoc, WebOfTrust.isTrusted_iff]
      exact hhigh
    · exact .inr hhigh

/-- The bonus of an activity, for a node that is not trusted. -/
theorem Ledger.recordActivity_low (hl : Ledger calls) (he : Earned calls) :
    (Backed calls a ∨ (runCalls calls).activity.getD a 0 + 1 < 10 ∨
      (runCalls calls).score a + 0.02 < WebOfTrust.trustedThreshold) ↔
    (Backed calls a ∨ ¬WebOfTrust.trustedThreshold ≤ ((runCalls calls).recordActivity a).score a) := by
  by_cases hb : Backed calls a
  · simp [hb]
  · have hno : ¬WebOfTrust.trustedThreshold ≤ (runCalls calls).score a :=
      fun hle => hb (he a (WebOfTrust.isTrusted_iff.mpr hle))
    have hlow : (runCalls calls).score a < WebOfTrust.trustedThreshold :=
      IeeeOrder.lt_iff.mpr ⟨hl.number a, trusted_number, hno⟩
    rw [WebOfTrust.recordActivity_score]
    simp only [hb, false_or, hlow, and_true, true_and]
    by_cases hten : 10 ≤ (runCalls calls).activity.getD a 0 + 1
    · rw [if_pos hten, le_fmin_self trusted_number, not_not]
      simp [UInt64.not_lt.mpr hten]
    · rw [if_neg hten]
      simp [UInt64.not_le.mp hten, hno]

/-- A penalty, for a node that may have a negative one. -/
theorem penalize_low (r : WebOfTrust S) (a : String) (amount : S) :
    ¬WebOfTrust.trustedThreshold ≤ r.score a - amount ↔
      ¬WebOfTrust.trustedThreshold ≤ (r.penalize a amount).score a := by
  rw [WebOfTrust.penalize_score, if_pos rfl, le_fmax]
  have hzero : ¬(WebOfTrust.trustedThreshold : S) ≤ 0.0 := IeeeOrder.not_le_of_lt Scoring.zero_lt_trusted
  exact not_congr ⟨.inl, fun h => h.resolve_right hzero⟩

theorem earned_bootstrap (he : Earned calls) (peers : List String) : Earned (calls ++ [.bootstrap peers]) := by
  intro b hb
  rw [runCalls_snoc, WebOfTrust.isTrusted_iff] at hb
  simp only [TrustCall.apply, WebOfTrust.bootstrap_score] at hb
  by_cases hmem : b ∈ peers
  · exact .inl (by rw [bootstrapped_snoc]; exact List.mem_append_right _ hmem)
  · rw [if_neg hmem] at hb
    exact Backed.snoc (he b (WebOfTrust.isTrusted_iff.mpr hb))

/-- **One call keeps trust earned exactly when it is modest.** -/
theorem Ledger.modest_iff (hl : Ledger calls) (he : Earned calls) : call.Modest calls ↔ Earned (calls ++ [call]) := by
  rcases call.effect_cases (runCalls calls) with
    ⟨e, a, timestamp, q, r', h, happly, hfounders, hend, hactivity, hpenalty⟩ | ⟨hsame, hnone, hrest⟩
  · rw [← hl.modest_endorsement he h (runCalls_snoc.trans happly) hfounders]
    constructor
    · exact fun hm => hm.endorsement e a ((hend e a).mpr ⟨rfl, rfl⟩)
    · intro hm
      refine ⟨fun e' a' hea => ?_, fun b hb => absurd hb (hactivity b), fun b x hb => absurd hb (hpenalty b x)⟩
      obtain ⟨rfl, rfl⟩ := (hend e' a').mp hea
      exact hm
  rcases hrest with ⟨peers, rfl⟩ | ⟨a, rfl⟩ | ⟨a, amount, rfl⟩ | ⟨hstill, -, hactivity, hpenalty⟩
  · exact iff_of_true ⟨fun e a h => absurd h (hnone e a), by simp, by simp⟩ (earned_bootstrap he peers)
  · have hothers : ∀ b, b ≠ a → ((runCalls calls).recordActivity a).score b = (runCalls calls).score b := by
      intro b hb
      rw [WebOfTrust.recordActivity_score, if_neg fun h => hb h.1]
    rw [← hl.modest_score he hsame rfl hothers, TrustCall.apply, ← hl.recordActivity_low he]
    constructor
    · exact fun hm => hm.activity a rfl
    · intro hm
      refine ⟨fun e a h => absurd h (hnone e a), fun b hb => ?_, by simp⟩
      cases hb
      exact hm
  · have hothers : ∀ b, b ≠ a → ((runCalls calls).penalize a amount).score b = (runCalls calls).score b := by
      intro b hb
      rw [WebOfTrust.penalize_score, if_neg hb]
    rw [← hl.modest_score he hsame rfl hothers, TrustCall.apply, ← penalize_low]
    constructor
    · exact fun hm => hm.penalty a amount rfl
    · intro hm
      refine ⟨fun e a h => absurd h (hnone e a), by simp, fun b x hb => ?_⟩
      cases hb
      exact hm
  · refine iff_of_true ⟨fun e a h => absurd h (hnone e a), fun b hb => absurd hb (hactivity b),
      fun b x hb => absurd hb (hpenalty b x)⟩ fun b hb => ?_
    rw [runCalls_snoc, hstill] at hb
    exact Backed.snoc (he b hb)

/-- **Trust is earned in every state of a run exactly when every call of it is modest**, in any arithmetic. -/
theorem earned_iff_modest (calls : List (TrustCall S)) :
    (∀ past rest, calls = past ++ rest → Earned past) ↔
      ∀ past call rest, calls = past ++ call :: rest → call.Modest past := by
  constructor
  · rintro hearned past call rest rfl
    have hafter : past ++ call :: rest = past ++ [call] ++ rest := by simp
    exact ((ledger_run past).modest_iff (hearned past _ rfl)).mpr (hearned _ rest hafter)
  · intro hmodest past
    induction past using List.reverseRecOn with
    | nil => exact fun _ _ => earned_nil
    | append_singleton past call ih =>
      intro rest heq
      have hbefore : calls = past ++ call :: rest := by simpa using heq
      exact ((ledger_run past).modest_iff (ih _ hbefore)).mp (hmodest past call rest hbefore)

end

/-! ## In doubles -/

/-- **Trust is earned in every state of a run exactly when every call of it is modest.** Scores and amounts are doubles:
infinite ones, NaN and the rounding of sums and products are covered. -/
theorem trust_earned_iff (calls : List (TrustCall Float)) :
    (∀ past rest, calls = past ++ rest → ∀ a, (runCalls past).isTrusted a = true → Backed past a) ↔
      ∀ past call rest, calls = past ++ call :: rest → call.Modest past :=
  earned_iff_modest calls

-- the double 0.1 is a little more than 1/10: without rounding the last bonus would not reach the threshold
example : (runCalls (List.replicate 29 (.recordActivity "n") ++ [.penalize "n" 0.1] ++
    List.replicate 20 (.recordActivity "n") : List (TrustCall Float))).isTrusted "n" = true := by decide +kernel

/-- Nothing but messages of one node. -/
def activityOnly : List (TrustCall Float) := List.replicate 45 (.recordActivity "n")

theorem activityOnly_trusted : (runCalls activityOnly).isTrusted "n" = true ∧ ¬Backed activityOnly "n" := by
  refine ⟨by decide +kernel, ?_⟩
  rw [(ledger_run activityOnly).backed_iff]
  decide +kernel

/-- Forty-five messages make a node trusted that nobody vouched for. -/
theorem trusted_by_activity : ∃ calls : List (TrustCall Float),
    ¬∀ a, (runCalls calls).isTrusted a = true → Backed calls a :=
  ⟨activityOnly, fun h => activityOnly_trusted.2 (h "n" activityOnly_trusted.1)⟩

end Onde.Reputation

import Onde.Node.Authenticated
import Onde.Node.Receptions

/-!
# Can a relay frame an author?

* `AtFault`: what an author answers for;
* `unframed_iff`: the receptions that penalise authors at fault only, in every state;
* `framing_free`: over every run of such receptions, in which no event of an author takes its window twice, a rate
  violation means that the author signed more events than the budget;
* `alert_framed`: an alert whose proof of work was stripped on the way.
-/

namespace Onde

open Lib Crypto Reputation Protocol

variable {h : Host}

/-- The only fault of an event is its proof of work, which any relay can change. -/
def PowOnly (env : Env) (n : Node h) (event : MeshEvent) : Prop :=
  (event.kind = .alert ∨ event.kind.isSocial = true ∧ ∃ effect, socialPayload h event = .ok effect) ∧
  event.checkSigned h.toPrimitives env.clock = .ok () ∧
  event.checkPow h.toPrimitives (n.reputation.requiredPowDifficulty event.pubkey) ≠ .ok ()

/-- The author signed exactly this event, and it is rejected for its rate or for something the signature covers. -/
def AtFault (env : Env) (n : Node h) (event : MeshEvent) (reason : AbuseReason) : Prop :=
  Signed h event ∧ (reason = .excessiveRate ∨ ¬PowOnly env n event)

/-- A reception that cannot frame the author: nothing is recorded, or the fields are the signed ones and the proof of
work is not the only fault. -/
def Unframed (env : Env) (now : Nat) (n : Node h) (event : MeshEvent) : Prop :=
  n.verdict now event = .unsigned ∨ n.verdict now event = .ignored ∨
  (event.id = event.canonicalId h.toPrimitives ∧ (n.verdict now event = .full ∨ ¬PowOnly env n event)) ∨
  (n.verdict now event ≠ .full ∧ event.kind ≠ .alert ∧ event.kind.isSocial = false ∧
    (event.kind = .endorsement → ∀ err, endorsementPayload h event = .error err → politicalNoise err = true))

namespace Node

variable {env : Env} {now : Nat} {n : Node h} {event : MeshEvent}

/-! ## One reception -/

/-- Both refusals of a proof of work name it. -/
theorem violationOf_checkPow {c : Primitives} {m : UInt8} {err : String} (he : event.checkPow c m = .error err) :
    violationOf err = .insufficientPow := by
  unfold MeshEvent.checkPow at he
  split at he
  · cases he
    have hhead : "PoW difficulty " = "PoW" ++ " difficulty " := by decide
    have hin : contains ("PoW difficulty " ++ toString event.powDifficulty ++ " is below network minimum (required " ++
        toString m ++ ")") "PoW" = true := by
      have happ := contains_append "" "PoW" (" difficulty " ++ toString event.powDifficulty ++
        " is below network minimum (required " ++ toString m ++ ")")
      rw [hhead]
      simpa only [String.append_assoc, String.empty_append] using happ
    exact if_pos (show contains s!"PoW difficulty {event.powDifficulty} is below network minimum (required {m})"
      "PoW" = true from hin)
  · split at he
    · cases he
    · cases he
      decide

/-- **A fault of the proof of work alone is always penalised.** -/
theorem routeViolation_powOnly (hp : PowOnly env n event) : n.routeViolation env event = some .insufficientPow := by
  obtain ⟨hk, hsigned, hpow⟩ := hp
  have hinvalid : ∃ err, event.validateWithReputation h.toPrimitives env.clock n.reputation = .error err ∧
      violationOf err = .insufficientPow := by
    cases he : event.checkPow h.toPrimitives (n.reputation.requiredPowDifficulty event.pubkey) with
    | ok u => exact absurd he hpow
    | error err =>
      refine ⟨err, ?_, violationOf_checkPow he⟩
      rw [MeshEvent.validateWithReputation, MeshEvent.validateWithPowMin, hsigned]
      exact he
  obtain ⟨err, hv, hreason⟩ := hinvalid
  unfold routeViolation
  rcases hk with ha | ⟨hs, effect, hp⟩
  · rw [if_pos ha, hv]
    exact congrArg some hreason
  · have ha : event.kind ≠ .alert := fun he => by rw [he] at hs; cases hs
    have hend : event.kind ≠ .endorsement := fun he => by rw [he] at hs; cases hs
    rw [if_neg ha, if_neg hend, if_pos hs, hp]
    simp only [hv, hreason]

/-- The dispatcher does not count. -/
theorem routeViolation_ne_rate : n.routeViolation env event ≠ some .excessiveRate := by
  have hof : ∀ err, violationOf err ≠ .excessiveRate := by
    intro err
    unfold violationOf
    split
    · decide
    · decide
  unfold routeViolation
  repeat' split
  all_goals simp [hof]

/-- Valid events keep the id of their fields. -/
theorem canonical_of_valid (hv : event.validateWithReputation h.toPrimitives env.clock n.reputation = .ok ()) :
    event.id = event.canonicalId h.toPrimitives := (checkSigned_ok.mp (validateWithPowMin_ok.mp hv).1).2.2.1

/-- **When a violation is the author's fault.** In every state and for every event: whatever is recorded is the fault
of the author, exactly when the reception is `Unframed`. -/
theorem fault_iff (env : Env) (now : Nat) (n : Node h) (event : MeshEvent) :
    (∀ reason, (n.receivePeerEvent env now event).violation = some reason → AtFault env n event reason) ↔
      Unframed env now n event := by
  have hviol := (receivePeerEvent_spec env now n event).violation
  rw [hviol]
  by_cases hfull : n.verdict now event = .full
  · rw [if_pos hfull]
    have hs : event.signatureValid h.toPrimitives = true :=
      signatureValid_of_verdict fun hu => by rw [hfull] at hu; cases hu
    constructor
    · intro hfault
      obtain ⟨hsigned, _⟩ := hfault _ rfl
      exact Or.inr (Or.inr (Or.inl ⟨hsigned.1, Or.inl hfull⟩))
    · rintro (hu | hi | ⟨hid, _⟩ | ⟨hne, _⟩) reason hr
      · rw [hfull] at hu
        cases hu
      · rw [hfull] at hi
        cases hi
      · cases hr
        exact ⟨⟨hid, hs⟩, Or.inl rfl⟩
      · exact absurd hfull hne
  rw [if_neg hfull]
  cases hpass : (n.verdict now event).passes with
  | false =>
    simp only [Bool.false_eq_true, if_false, reduceCtorEq, false_implies, implies_true, true_iff]
    cases hverdict : n.verdict now event <;> rw [hverdict] at hpass <;> cases hpass
    · exact Or.inl hverdict
    · exact Or.inr (Or.inl hverdict)
    · exact absurd hverdict hfull
  | true =>
    have hs : event.signatureValid h.toPrimitives = true :=
      signatureValid_of_verdict fun hu => by rw [hu] at hpass; cases hpass
    simp only [if_true]
    constructor
    · intro hfault
      by_cases hid : event.id = event.canonicalId h.toPrimitives
      · refine Or.inr (Or.inr (Or.inl ⟨hid, Or.inr ?_⟩))
        intro hp
        obtain ⟨_, hrate | hnot⟩ := hfault _ (routeViolation_powOnly hp)
        · cases hrate
        · exact hnot hp
      · -- of an event with other fields than the signed ones nothing may be recorded
        have hnone : n.routeViolation env event = none := by
          cases hr : n.routeViolation env event with
          | none => rfl
          | some reason => exact absurd (hfault reason hr).1.1 hid
        obtain ⟨halert, hend, hsocial⟩ := routeViolation_none.mp hnone
        refine Or.inr (Or.inr (Or.inr ⟨hfull, ?_, Bool.eq_false_iff.mpr ?_, hend⟩))
        · intro hk
          exact hid (canonical_of_valid (halert hk))
        · intro hk
          exact hid (canonical_of_valid (hsocial hk).2)
    · rintro (hu | hi | ⟨hid, hf | hnot⟩ | ⟨_, ha, hso, hend⟩) reason hr
      · rw [hu] at hpass
        cases hpass
      · rw [hi] at hpass
        cases hpass
      · exact absurd hf hfull
      · exact ⟨⟨hid, hs⟩, Or.inr hnot⟩
      · have hnone : n.routeViolation env event = none := by
          refine routeViolation_none.mpr ⟨fun hk => absurd hk ha, hend, fun hk => ?_⟩
          rw [hso] at hk
          cases hk
        rw [hnone] at hr
        cases hr

/-! ## Runs -/

variable {author : String} {vs : List (Visit (Node h) Call)}

/-- What came as far as a window carries a valid signature. -/
theorem reached_signatureValid {v : Visit (Node h) Call} (hv : Reached author v) :
    v.label.event.signatureValid h.toPrimitives = true := by
  have hverdict : v.state.verdict v.label.now v.label.event ≠ .unsigned := by
    rcases hv.2 with hroom | hfull
    · rw [hroom]
      decide
    · rw [hfull]
      decide
  exact signatureValid_of_verdict hverdict

end Node

/-- No reception of an event of the author can frame it, and no event of the author takes its window twice, nor with
other fields than the signed ones. -/
structure FairRun (author : String) (vs : List (Visit (Node h) Call)) : Prop where
  unframed : ∀ v ∈ vs, v.label.event.pubkey = author → Unframed v.label.env v.label.now v.state v.label.event
  canonical : ∀ v ∈ reaching author vs, v.label.event.id = v.label.event.canonicalId h.toPrimitives
  once : ((reaching author vs).map fun v => v.label.event.id).Nodup

/-- Besides the event of `v` the author signed as many others as the budget, all received before, and within the window
if time did not go back. -/
def Exceeded (author : String) (past : List (Visit (Node h) Call)) (v : Visit (Node h) Call) : Prop :=
  ∃ others : List (Visit (Node h) Call), others.Sublist past ∧ spamBudgetPerWindow ≤ others.length ∧
    (∀ w ∈ others, w.label.event.pubkey = author ∧ Signed h w.label.event) ∧
    ((others ++ [v]).map fun w => w.label.event.id).Nodup ∧
    ((past.map fun w => w.label.now).Pairwise (· ≤ ·) → ∀ w ∈ others, v.label.now ≤ w.label.now + spamWindowSecs)

namespace Node

/-- **A full window of a fair run holds events the author signed**, at least as many as the budget. -/
theorem exceeded_of_full {n₀ n : Node h} {author : String} {past rest : List (Visit (Node h) Call)}
    {v : Visit (Node h) Call} (h₀ : n₀.spamGuard.stamps author = [])
    (hw : n₀.spamGuard.windowSecs = spamWindowSecs) (hr : Receptions n₀ (past ++ v :: rest) n)
    (hfair : FairRun author (past ++ v :: rest)) (ha : v.label.event.pubkey = author)
    (hfull : v.state.verdict v.label.now v.label.event = .full) : Exceeded author past v := by
  have hpast : Receptions n₀ past v.state := hr.upTo rfl
  have hstamps := stamps_run h₀ hpast
  have hlen := (verdict_full hfull).2.2
  rw [HasRoom, ha, Nat.not_lt] at hlen
  -- each stamp left in the window is the time of an earlier event of the author
  obtain ⟨others, hsub, heq⟩ := List.sublist_map_iff.mp ((SpamGuard.purge_sublist v.state.spamGuard.windowSecs
    v.label.now (v.state.spamGuard.stamps author)).trans hstamps)
  have hall : (others ++ [v]).Sublist (reaching author (past ++ v :: rest)) := by
    have hv : Reached author v := ⟨ha, Or.inr hfull⟩
    have hsplit : past ++ v :: rest = past ++ [v] ++ rest := by simp
    rw [hsplit, reaching, List.filter_append]
    refine List.Sublist.trans ?_ (List.sublist_append_left _ _)
    have hsnoc : reaching author (past ++ [v]) = reaching author past ++ [v] := reaching_snoc hv
    rw [reaching] at hsnoc
    rw [hsnoc]
    exact hsub.append (List.Sublist.refl _)
  refine ⟨others, hsub.trans (List.filter_sublist ..), ?_, ?_, hfair.once.sublist (hall.map _), ?_⟩
  · rw [heq, List.length_map] at hlen
    exact (budget_le_budgetAt _ _).trans hlen
  · intro w hw
    have hmem := hall.subset (List.mem_append_left _ hw)
    have hreached : Reached author w := of_decide_eq_true (List.mem_filter.mp hmem).2
    exact ⟨hreached.1, hfair.canonical w hmem, reached_signatureValid hreached⟩
  · intro htimes w hmem
    have hsorted : (v.state.spamGuard.stamps author).Pairwise (· ≤ ·) :=
      htimes.sublist (hstamps.trans ((List.filter_sublist ..).map _))
    have hin : w.label.now ∈ SpamGuard.purge v.state.spamGuard.windowSecs v.label.now
        (v.state.spamGuard.stamps author) := by
      rw [heq]
      exact List.mem_map_of_mem hmem
    have hrecent := SpamGuard.purge_recent hsorted _ hin
    rwa [run_windowSecs hpast, hw] at hrecent

/-- **When relays cannot frame an author.** One reception: whatever is recorded is the author's fault exactly when the
reception is `Unframed`, and without a violation the author's record stays as it was. Every run of a fresh node: if the
run is fair to an author, whatever is recorded against it is its fault, and for its rate only if it exceeded the
budget. -/
theorem framing_iff (config : NodeConfig) (identity : Identity) (persistence : Option h.MessageDb)
    (socialStore : Option h.SocialDb) :
    (∀ (env : Env) (now : Nat) (n : Node h) (event : MeshEvent),
      ((∀ reason, (n.receivePeerEvent env now event).violation = some reason → AtFault env n event reason) ↔
        Unframed env now n event) ∧
      ((n.receivePeerEvent env now event).violation = none →
        (n.receivePeerEvent env now event).node.reputation.abuse.lookup event.pubkey =
          n.reputation.abuse.lookup event.pubkey)) ∧
    (∀ (author : String) (vs : List (Visit (Node h) Call)) (n : Node h),
      Receptions (Node.new config identity persistence socialStore) vs n → FairRun author vs →
      ∀ past v rest, vs = past ++ v :: rest → v.label.event.pubkey = author → ∀ reason,
        (v.state.receivePeerEvent v.label.env v.label.now v.label.event).violation = some reason →
        AtFault v.label.env v.state v.label.event reason ∧ (reason = .excessiveRate → Exceeded author past v)) := by
  refine ⟨fun env now n event => ⟨fault_iff env now n event, receivePeerEvent_abuse⟩, ?_⟩
  rintro author _ n hr hfair past v rest rfl ha reason hv
  have hmem : v ∈ past ++ v :: rest := List.mem_append_right _ List.mem_cons_self
  refine ⟨(fault_iff _ _ _ _).mpr (hfair.unframed v hmem ha) reason hv, ?_⟩
  rintro rfl
  have hfull : v.state.verdict v.label.now v.label.event = .full := by
    by_contra hnot
    rw [(receivePeerEvent_spec _ _ _ _).violation, if_neg hnot] at hv
    split at hv
    · exact routeViolation_ne_rate hv
    · cases hv
  exact exceeded_of_full rfl rfl hr hfair ha hfull

end Node

/-! ## A framed author, and one at fault -/

theorem stranger_powOnly : PowOnly (.still 1700000000) strangerNode (knownEvent .alert) := by
  have hfloor : strangerNode.reputation.requiredPowDifficulty (knownEvent .alert).pubkey = maxPowDifficulty := by
    rw [knownEvent_pubkey]
    exact ReputationSystem.requiredPowDifficulty_unknown (by decide +kernel)
  have hsigned := knownEvent_checkSigned .alert
  have hpow : (knownEvent .alert).checkPow knownHost.toPrimitives maxPowDifficulty ≠ .ok () :=
    fun hok => absurd (checkPow_ok.mp hok).1 (by decide)
  rw [← hfloor] at hpow
  exact ⟨Or.inl (knownEvent_kind .alert), hsigned, hpow⟩

theorem stranger_violation :
    (strangerNode.receivePeerEvent (.still 1700000000) 1700000000 (knownEvent .alert)).violation =
      some .insufficientPow := by
  rw [(Node.receivePeerEvent_spec _ _ _ _).violation, stranger_verdict, if_neg (by decide), if_pos (by decide)]
  exact Node.routeViolation_powOnly stranger_powOnly

/-- **A relay strips the proof of work of an alert, and the author is penalised.** -/
theorem alert_framed :
    (strangerNode.receivePeerEvent (.still 1700000000) 1700000000 (knownEvent .alert)).violation =
      some .insufficientPow ∧
    PowOnly (.still 1700000000) strangerNode (knownEvent .alert) ∧
    ¬AtFault (.still 1700000000) strangerNode (knownEvent .alert) .insufficientPow := by
  refine ⟨stranger_violation, stranger_powOnly, ?_⟩
  rintro ⟨_, hrate | hnot⟩
  · cases hrate
  · exact hnot stranger_powOnly

theorem knownEvent_canonical (kind : OndeMessageType) :
    (knownEvent kind).id = (knownEvent kind).canonicalId knownHost.toPrimitives :=
  (checkSigned_ok.mp (knownEvent_checkSigned kind)).2.2.1

/-- An event from the future is the fault of its author. -/
theorem future_fault : AtFault (.still 1600000000) strangerNode (knownEvent .alert) .invalidEvent := by
  have hlate : (knownEvent .alert).checkSigned knownHost.toPrimitives 1600000000 =
      .error "Event created_at is too far in the future" := by
    unfold MeshEvent.checkSigned
    rw [if_neg (by decide), if_pos (by decide)]
  have hviol : (strangerNode.receivePeerEvent (.still 1600000000) 1600000000 (knownEvent .alert)).violation =
      some .invalidEvent := by
    have hv : (knownEvent .alert).validateWithReputation knownHost.toPrimitives 1600000000 strangerNode.reputation =
        .error "Event created_at is too far in the future" := by
      rw [MeshEvent.validateWithReputation, MeshEvent.validateWithPowMin, hlate]
      rfl
    rw [(Node.receivePeerEvent_spec _ _ _ _).violation, stranger_verdict, if_neg (by decide), if_pos (by decide),
      Node.routeViolation, if_pos (knownEvent_kind .alert), show (Env.still 1600000000).clock = 1600000000 from rfl, hv]
    exact congrArg some (by decide)
  have hrun : Receptions strangerNode [⟨strangerNode, .still 1600000000, 1600000000, knownEvent .alert⟩]
      (strangerNode.receivePeerEvent (.still 1600000000) 1600000000 (knownEvent .alert)).node := .visit .start rfl
  have hfair : FairRun knownAuthor [⟨strangerNode, .still 1600000000, 1600000000, knownEvent .alert⟩] := by
    refine ⟨?_, ?_, ?_⟩
    · intro v hmem _
      obtain rfl := List.mem_singleton.mp hmem
      refine Or.inr (Or.inr (Or.inl ⟨knownEvent_canonical .alert, Or.inr ?_⟩))
      rintro ⟨_, hsigned, _⟩
      rw [show (Env.still 1600000000).clock = 1600000000 from rfl, hlate] at hsigned
      cases hsigned
    · intro v hmem
      obtain rfl := List.mem_singleton.mp (List.mem_filter.mp hmem).1
      exact knownEvent_canonical .alert
    · exact (List.nodup_singleton _).sublist ((List.filter_sublist ..).map _)
  exact ((Node.framing_iff .default (.ofByte 2) none none).2 knownAuthor _ _ hrun hfair [] _ [] rfl
    (knownEvent_pubkey .alert) _ hviol).1

end Onde

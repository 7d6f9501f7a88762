import Onde.Node.Receptions
import Onde.Reputation.SlidingWindow

/-!
# The grace after a partition

* `Traffics`: the runs of a node by everything that touches the windows, the presence book and the grace;
* `traffic_presence`: what one step does to the book and the grace; `traffic_window`: and to the window of the author;
* `heal_grace_bounded`: the grace opens only after a silence of everyone, seldom, and widens the budget of an author
  only while it lasts.
-/

namespace Onde

open Lib Crypto Reputation Protocol Social Storage

variable {h : Host}

/-! ## Runs -/

/-- What touches the windows or the presence book: a reception, the gate alone, or the contact of a peer alone. -/
inductive Traffic where
  | receive (c : Call)
  | gate (c : Call)
  | contact (peer : String) (time : Nat)

namespace Traffic

def now : Traffic → Nat
  | .receive c | .gate c => c.now
  | .contact _ time => time

/-- The event that goes through the gate. -/
def call : Traffic → Option Call
  | .receive c | .gate c => some c
  | .contact .. => none

/-- What it does to a node. -/
def apply (n : Node h) : Traffic → Node h
  | .receive c => (n.receivePeerEvent c.env c.now c.event).node
  | .gate c => (n.admitPeerEvent c.env c.now c.event).node
  | .contact peer time => n.notePeerTraffic peer time

/-- The peer whose contact it notes: the foreign author of an admitted event. -/
def contacted (n : Node h) : Traffic → Option String
  | .receive c =>
    if (n.admitPeerEvent c.env c.now c.event).decision = .admitted ∧ c.event.pubkey ≠ n.pubkeyHex
    then some c.event.pubkey else none
  | .gate _ => none
  | .contact peer _ => some peer

/-- It opens the grace: a contact that ends a silence of every known peer. -/
def opens (n : Node h) (t : Traffic) : Bool := (t.contacted n).isSome && n.partitionSuspected t.now

end Traffic

def Moves (t : Traffic) (n n' : Node h) : Prop := n' = t.apply n

/-- Whatever else a node does keeps its key, the windows, the presence book and the grace. -/
structure Elsewhere (n n' : Node h) : Prop where
  identity : n'.identity = n.identity
  spamGuard : n'.spamGuard = n.spamGuard
  peerLastSeen : n'.peerLastSeen = n.peerLastSeen
  healGraceUntil : n'.healGraceUntil = n.healGraceUntil

/-- The runs of a node, with the traffic they took, oldest first. -/
abbrev Traffics (n₀ : Node h) (vs : List (Visit (Node h) Traffic)) (n : Node h) : Prop := Run Moves Elsewhere n₀ vs n

/-- The admission of an event not yet known, of a foreign author. -/
def newGrant (v : Visit (Node h) Traffic) : Option Grant :=
  v.label.call.bind fun c =>
    if c.event.pubkey ≠ v.state.pubkeyHex ∧ v.state.gossip.isKnown c.event.id = false ∧
      (v.state.admitPeerEvent c.env c.now c.event).decision = .admitted
    then some ⟨c.event.pubkey, c.now⟩ else none

/-- The admissions of a run. -/
def grants (vs : List (Visit (Node h) Traffic)) : List Grant := vs.filterMap newGrant

/-- When a run opened the grace. -/
def openings (vs : List (Visit (Node h) Traffic)) : List Nat :=
  vs.filterMap fun v => if v.label.opens v.state then some v.label.now else none

/-! ## One step -/

namespace Node

variable {n : Node h} {event : MeshEvent}

/-- The presence book and the grace are as they were. -/
structure SamePresence (n n' : Node h) : Prop where
  seen : n'.peerLastSeen = n.peerLastSeen
  grace : n'.healGraceUntil = n.healGraceUntil

theorem SamePresence.trans {n n' n'' : Node h} (h₁ : SamePresence n n') (h₂ : SamePresence n' n'') :
    SamePresence n n'' := ⟨h₂.seen.trans h₁.seen, h₂.grace.trans h₁.grace⟩

theorem keepMessage_presence (n : Node h) (event : MeshEvent) (tier : MessageTier) :
    SamePresence n (n.keepMessage event tier).2 := by
  unfold keepMessage persistMessage
  dsimp only
  split
  · split <;> exact ⟨rfl, rfl⟩
  · exact ⟨rfl, rfl⟩

theorem handleIncomingAlert_presence {env : Env} {r : Bool × Node h} (ha : n.handleIncomingAlert env event = .ok r) :
    SamePresence n r.2 := by
  by_cases hk : event.kind = .alert
  · rw [handleIncomingAlert_eq hk] at ha
    cases hv : event.validateWithReputation h.toPrimitives env.clock n.reputation with
    | error err => rw [hv] at ha; cases ha
    | ok u =>
      rw [hv] at ha
      cases ha
      have hkept := keepMessage_presence { n with gossip := (n.gossip.insertNew env.order event).2 } event .critical
      exact ⟨hkept.seen, hkept.grace⟩
  · unfold handleIncomingAlert at ha
    rw [if_pos hk] at ha
    cases ha
    exact ⟨rfl, rfl⟩

theorem handleIncomingEndorsement_presence (env : Env) (n : Node h) (event : MeshEvent) :
    SamePresence n (n.handleIncomingEndorsement env event).2 := by
  unfold handleIncomingEndorsement
  split
  · exact ⟨rfl, rfl⟩
  · split
    · exact ⟨rfl, rfl⟩
    · split <;> exact ⟨rfl, rfl⟩

theorem handleIncomingAbuseReport_presence (env : Env) (n : Node h) (event : MeshEvent) :
    SamePresence n (n.handleIncomingAbuseReport env event).2 := by
  unfold handleIncomingAbuseReport
  split
  · exact ⟨rfl, rfl⟩
  · split
    · exact ⟨rfl, rfl⟩
    · split <;> exact ⟨rfl, rfl⟩

theorem handleIncomingSocial_presence {env : Env} {r : SocialEventOutcome × Node h}
    (hk : event.kind.isSocial = true) (hs : n.handleIncomingSocial env event = .ok r) : SamePresence n r.2 := by
  rw [handleIncomingSocial_eq hk] at hs
  cases hp : socialPayload h event with
  | error err => rw [hp] at hs; cases hs
  | ok effect =>
    rw [hp] at hs
    cases hv : event.validateWithReputation h.toPrimitives env.clock n.reputation with
    | error err => rw [hv] at hs; cases hs
    | ok u =>
      rw [hv] at hs
      cases hs
      exact ⟨rfl, rfl⟩

/-- The dispatcher leaves the book and the grace alone. -/
theorem routePeerEvent_presence (env : Env) (now : Nat) (n : Node h) (event : MeshEvent) :
    SamePresence n (n.routePeerEvent env now event).node := by
  have hsocial : event.kind.isSocial = true → SamePresence n (n.routePeerEvent env now event).node := by
    intro hk
    rw [routePeerEvent_social hk]
    cases hs : n.handleIncomingSocial env event with
    | error err => exact ⟨rfl, rfl⟩
    | ok r => exact handleIncomingSocial_presence hk hs
  cases hk : event.kind with
  | alert =>
    unfold routePeerEvent
    simp only [hk]
    cases ha : n.handleIncomingAlert env event with
    | error err => exact ⟨rfl, rfl⟩
    | ok r =>
      obtain ⟨stored, n'⟩ := r
      cases stored <;> exact handleIncomingAlert_presence ha
  | endorsement =>
    unfold routePeerEvent
    simp only [hk]
    have hp := handleIncomingEndorsement_presence env n event
    generalize n.handleIncomingEndorsement env event = r at hp ⊢
    obtain ⟨outcome, n'⟩ := r
    cases outcome with
    | applied => exact hp
    | ignored => exact hp
    | rejected err =>
      dsimp only
      split
      · exact hp
      · exact ⟨hp.seen, hp.grace⟩
  | abuseReport =>
    unfold routePeerEvent
    simp only [hk]
    have hp := handleIncomingAbuseReport_presence env n event
    generalize n.handleIncomingAbuseReport env event = r at hp ⊢
    obtain ⟨outcome, n'⟩ := r
    cases outcome <;> exact hp
  | socialPost => exact hsocial (by rw [hk]; rfl)
  | socialComment => exact hsocial (by rw [hk]; rfl)
  | socialVote => exact hsocial (by rw [hk]; rfl)
  | socialFollow => exact hsocial (by rw [hk]; rfl)
  | socialMessage => exact hsocial (by rw [hk]; rfl)
  | socialModeration => exact hsocial (by rw [hk]; rfl)
  | _ =>
    unfold routePeerEvent
    simp only [hk]
    exact ⟨rfl, rfl⟩

/-- The gate leaves the book and the grace alone. -/
theorem admitPeerEvent_presence (env : Env) (now : Nat) (n : Node h) (event : MeshEvent) :
    SamePresence n (n.admitPeerEvent env now event).node := by
  unfold admitPeerEvent
  dsimp only
  split
  · exact ⟨rfl, rfl⟩
  · split
    · exact ⟨rfl, rfl⟩
    · split
      · exact ⟨rfl, rfl⟩
      · split
        · exact ⟨rfl, rfl⟩
        · split <;> exact ⟨rfl, rfl⟩

theorem partitionSuspected_congr {n n' : Node h} (hp : SamePresence n n') (now : Nat) :
    n'.partitionSuspected now = n.partitionSuspected now := by
  rw [partitionSuspected, partitionSuspected, hp.seen]

/-- **What one step does to the presence book and the grace.** -/
theorem traffic_presence (n : Node h) (t : Traffic) :
    (t.apply n).peerLastSeen = (match t.contacted n with
      | some peer => n.peerLastSeen.insert peer t.now
      | none => n.peerLastSeen) ∧
    (t.apply n).healGraceUntil = if t.opens n then min (t.now + healGraceSecs) u64Max else n.healGraceUntil := by
  cases t with
  | contact peer time =>
    exact ⟨rfl, by simp [Traffic.apply, Traffic.opens, Traffic.contacted, notePeerTraffic, Traffic.now]⟩
  | gate c =>
    have hp := admitPeerEvent_presence c.env c.now n c.event
    exact ⟨hp.seen, by rw [Traffic.opens, Traffic.contacted]; exact hp.grace⟩
  | receive c =>
    have hp := admitPeerEvent_presence c.env c.now n c.event
    have hid : (n.admitPeerEvent c.env c.now c.event).node.pubkeyHex = n.pubkeyHex := by
      rw [pubkeyHex, pubkeyHex, (admitPeerEvent_spec c.env c.now n c.event).identity]
    cases hd : (n.admitPeerEvent c.env c.now c.event).decision with
    | rejected reason =>
      have hcon : (Traffic.receive c).contacted n = none := if_neg fun hc => by rw [hd] at hc; cases hc.1
      have hnode : SamePresence n ((Traffic.receive c).apply n) := by
        simp only [Traffic.apply, receivePeerEvent, receivePeerEventInner, hd]
        exact ⟨hp.seen, hp.grace⟩
      rw [Traffic.opens, hcon]
      exact ⟨hnode.seen, hnode.grace⟩
    | admitted =>
      by_cases hown : c.event.pubkey = n.pubkeyHex
      · have hcon : (Traffic.receive c).contacted n = none := if_neg fun hc => hc.2 hown
        have hnode : SamePresence n ((Traffic.receive c).apply n) := by
          have hr := hp.trans (routePeerEvent_presence c.env c.now (n.admitPeerEvent c.env c.now c.event).node c.event)
          simp only [Traffic.apply, receivePeerEvent, receivePeerEventInner, hd]
          rw [hid, if_pos hown]
          exact ⟨hr.seen, hr.grace⟩
        rw [Traffic.opens, hcon]
        exact ⟨hnode.seen, hnode.grace⟩
      · have hcon : (Traffic.receive c).contacted n = some c.event.pubkey := if_pos ⟨hd, hown⟩
        have hnode : SamePresence ((n.admitPeerEvent c.env c.now c.event).node.notePeerTraffic c.event.pubkey c.now)
            ((Traffic.receive c).apply n) := by
          have hr := routePeerEvent_presence c.env c.now
            ((n.admitPeerEvent c.env c.now c.event).node.notePeerTraffic c.event.pubkey c.now) c.event
          simp only [Traffic.apply, receivePeerEvent, receivePeerEventInner, hd]
          rw [hid, if_neg hown]
          exact ⟨hr.seen, hr.grace⟩
        have hs := partitionSuspected_congr hp c.now
        rw [Traffic.opens, hcon, Option.isSome_some, Bool.true_and]
        refine ⟨hnode.seen.trans ?_, hnode.grace.trans ?_⟩
        · rw [notePeerTraffic, hp.seen]
          rfl
        · rw [notePeerTraffic, hs, hp.grace]
          rfl

/-- A new event is granted exactly when it finds room in the window. -/
theorem newGrant_iff {v : Visit (Node h) Traffic} {g : Grant} : newGrant v = some g ↔
    ∃ c, v.label.call = some c ∧ v.state.verdict c.now c.event = .room ∧ g = ⟨c.event.pubkey, c.now⟩ := by
  have hroom : ∀ c : Call, (c.event.pubkey ≠ v.state.pubkeyHex ∧ v.state.gossip.isKnown c.event.id = false ∧
      (v.state.admitPeerEvent c.env c.now c.event).decision = .admitted) ↔
      v.state.verdict c.now c.event = .room := by
    intro c
    have hgate := (admitPeerEvent_spec c.env c.now v.state c.event).admitted
    constructor
    · rintro ⟨hforeign, hnew, hadm⟩
      have hpass : (v.state.verdict c.now c.event).passes = true := by
        rcases hgate with ⟨⟨reason, hrej⟩, -⟩ | ⟨-, hpass⟩
        · rw [hrej] at hadm
          cases hadm
        · exact hpass
      have hs : c.event.signatureValid h.toPrimitives = true :=
        signatureValid_of_verdict fun hu => by rw [hu] at hpass; cases hpass
      cases hv : v.state.verdict c.now c.event with
      | room => rfl
      | own => exact absurd ((verdict_own hs).mp hv) hforeign
      | known =>
        have hin := ((verdict_known hs).mp hv).2
        simp [GossipProtocol.isKnown, hin] at hnew
      | _ => rw [hv] at hpass; cases hpass
    · intro hv
      obtain ⟨hforeign, hnew, -⟩ := verdict_room hv
      refine ⟨hforeign, by simpa [GossipProtocol.isKnown] using hnew, ?_⟩
      rcases hgate with ⟨-, hpass⟩ | ⟨hadm, -⟩
      · rw [hv] at hpass
        cases hpass
      · exact hadm
  unfold newGrant
  cases hc : v.label.call with
  | none => simp
  | some c =>
    simp only [Option.bind_some, hroom, Option.some.injEq, exists_eq_left']
    by_cases hv : v.state.verdict c.now c.event = .room
    · simp [hv, eq_comm]
    · simp [hv]

/-- The windows after a step: those the guard leaves for the event that reached them. -/
theorem traffic_spamGuard (n : Node h) (t : Traffic) :
    (t.apply n).spamGuard = match t.call with
      | none => n.spamGuard
      | some c => if n.verdict c.now c.event = .room ∨ n.verdict c.now c.event = .full
        then (n.spamGuard.admitWithBudget c.env.order c.event.pubkey c.now (n.budgetAt c.now)).2 else n.spamGuard := by
  cases t with
  | receive c => exact (receivePeerEvent_spec c.env c.now n c.event).spamGuard
  | gate c => exact (admitPeerEvent_spec c.env c.now n c.event).spamGuard
  | contact peer time => rfl

theorem traffic_now {t : Traffic} {c : Call} (hc : t.call = some c) : t.now = c.now := by
  cases t <;> cases hc <;> rfl

/-- **What one step does to the windows**: they remember the admissions of the run. -/
theorem traffic_window {hist : List Grant} {last : Nat} {t : Traffic}
    (hr : Remembers n.spamGuard.windowSecs n.spamGuard.entries hist last) (hle : last ≤ t.now) :
    (t.apply n).spamGuard.windowSecs = n.spamGuard.windowSecs ∧
      Remembers n.spamGuard.windowSecs (t.apply n).spamGuard.entries (hist ++ (newGrant ⟨n, t⟩).toList) t.now := by
  rw [traffic_spamGuard]
  have hsame : newGrant ⟨n, t⟩ = none →
      Remembers n.spamGuard.windowSecs n.spamGuard.entries (hist ++ (newGrant ⟨n, t⟩).toList) t.now := by
    intro hnone
    rw [hnone, Option.toList_none, List.append_nil]
    exact hr.later hle
  cases hc : t.call with
  | none => exact ⟨rfl, hsame (by rw [newGrant, hc]; rfl)⟩
  | some c =>
    have hnow := traffic_now hc
    have hstep := hr.call (hnow ▸ hle) c.env.order c.event.pubkey (n.budgetAt c.now)
    dsimp only at hstep ⊢
    by_cases hroom : n.verdict c.now c.event = .room
    · have hg : newGrant ⟨n, t⟩ = some ⟨c.event.pubkey, c.now⟩ := newGrant_iff.mpr ⟨c, hc, hroom, rfl⟩
      have htaken : (n.spamGuard.admitWithBudget c.env.order c.event.pubkey c.now (n.budgetAt c.now)).1 = true :=
        SpamGuard.admit_iff.mpr (verdict_room hroom).2.2
      rw [if_pos (.inl hroom), hg, Option.toList_some, hnow]
      rw [htaken, if_pos rfl] at hstep
      exact ⟨SpamGuard.windowSecs_admit, hstep⟩
    · have hg : newGrant ⟨n, t⟩ = none := by
        cases hg : newGrant ⟨n, t⟩ with
        | none => rfl
        | some g =>
          obtain ⟨c', hc', hroom', -⟩ := newGrant_iff.mp hg
          obtain rfl : c = c' := Option.some.inj (hc.symm.trans hc')
          exact absurd hroom' hroom
      by_cases hfull : n.verdict c.now c.event = .full
      · have hrefused : (n.spamGuard.admitWithBudget c.env.order c.event.pubkey c.now (n.budgetAt c.now)).1 = false :=
          Bool.eq_false_iff.mpr fun ht => (verdict_full hfull).2.2 (SpamGuard.admit_iff.mp ht)
        rw [if_pos (.inr hfull), hg, Option.toList_none, List.append_nil, hnow]
        rw [hrefused, if_neg (by decide)] at hstep
        exact ⟨SpamGuard.windowSecs_admit, hstep⟩
      · rw [if_neg (not_or.mpr ⟨hroom, hfull⟩)]
        exact ⟨rfl, hsame hg⟩

end Node

/-! ## Runs -/

/-- The traffic of a run is in order of time. -/
def InOrder (vs : List (Visit (Node h) Traffic)) : Prop := vs.Pairwise fun v w => v.label.now ≤ w.label.now

/-- At each admission the authors in the window fit the table. -/
def Uncrowded (vs : List (Visit (Node h) Traffic)) : Prop := ∀ past v rest g, vs = past ++ v :: rest →
  newGrant v = some g → (active spamWindowSecs g.time (grants (past ++ [v]))).card ≤ maxTrackedAuthors

/-- The interval meets a grace: they have a moment in common. -/
def MeetsGrace (vs : List (Visit (Node h) Traffic)) (first last : Nat) : Prop :=
  ∃ o ∈ openings vs, ∃ t, first ≤ t ∧ t ≤ last ∧ o ≤ t ∧ t < o + healGraceSecs

/-- The new events of an author admitted in the window that starts at `first`. -/
def admittedIn (vs : List (Visit (Node h) Traffic)) (author : String) (first : Nat) : Nat :=
  ((grantTimes (grants vs) author).filter fun t => first ≤ t ∧ t ≤ first + spamWindowSecs).length

/-- What a run keeps, up to the time `last`. -/
structure Guarded (vs : List (Visit (Node h) Traffic)) (n : Node h) (last : Nat) : Prop where
  latest : ∀ t, (∀ v ∈ vs, v.label.now ≤ t) → last ≤ t
  windowSecs : n.spamGuard.windowSecs = spamWindowSecs
  remembers : Remembers spamWindowSecs n.spamGuard.entries (grants vs) last
  opened : ∀ o ∈ openings vs, o ≤ last
  book : ∀ o ∈ openings vs, ∃ peer seen, n.peerLastSeen.lookup peer = some seen ∧ o ≤ seen
  grace : ∀ now, n.healGraceActive now = true → ∃ o ∈ openings vs, now < o + healGraceSecs
  apart : (openings vs).Pairwise fun a b => a + partitionSilenceThresholdSecs ≤ b
  capped : ∀ author first, admittedIn vs author first ≤ spamBudgetPerWindow * healWindowBudgetFactor ∧
    (spamBudgetPerWindow < admittedIn vs author first → MeetsGrace vs first (first + spamWindowSecs))

variable {vs : List (Visit (Node h) Traffic)} {n n' : Node h} {t : Traffic} {last : Nat}

theorem openings_snoc (vs : List (Visit (Node h) Traffic)) (n : Node h) (t : Traffic) :
    openings (vs ++ [⟨n, t⟩]) = openings vs ++ if t.opens n then [t.now] else [] := by
  rw [openings, List.filterMap_append]
  cases ho : t.opens n <;> simp [openings, ho]

theorem mem_openings_snoc {o : Nat} :
    o ∈ openings (vs ++ [⟨n, t⟩]) ↔ o ∈ openings vs ∨ t.opens n = true ∧ o = t.now := by
  rw [openings_snoc]
  cases t.opens n <;> simp

theorem grants_snoc (vs : List (Visit (Node h) Traffic)) (n : Node h) (t : Traffic) :
    grants (vs ++ [⟨n, t⟩]) = grants vs ++ (newGrant ⟨n, t⟩).toList := by
  rw [grants, List.filterMap_append]
  cases hg : newGrant ⟨n, t⟩ <;> simp [grants, hg]

/-- At an opening every known peer has been silent. -/
theorem silent_of_opens (ho : t.opens n = true) : n.peerLastSeen.entries ≠ [] ∧
    ∀ peer seen, n.peerLastSeen.lookup peer = some seen → seen + partitionSilenceThresholdSecs ≤ t.now := by
  have hs : n.partitionSuspected t.now = true := (Bool.and_eq_true_iff.mp ho).2
  simp only [Node.partitionSuspected, decide_eq_true_eq, Bool.decide_and, Bool.and_eq_true,
    List.all_eq_true] at hs
  refine ⟨hs.1, fun peer seen hl => ?_⟩
  have := hs.2 _ (AList.mem_lookup_iff.mp hl)
  have hpos : 0 < partitionSilenceThresholdSecs := by decide
  dsimp only at this
  omega

/-- The book after a step: contacts are only renewed. -/
theorem seen_step {peer : String} {seen : Nat} (hl : n.peerLastSeen.lookup peer = some seen) :
    ∃ seen', (t.apply n).peerLastSeen.lookup peer = some seen' ∧ (seen' = seen ∨ seen' = t.now) := by
  rw [(Node.traffic_presence n t).1]
  cases t.contacted n with
  | none => exact ⟨seen, hl, .inl rfl⟩
  | some q =>
    by_cases hq : peer = q
    · subst hq
      exact ⟨t.now, AList.lookup_insert _, .inr rfl⟩
    · exact ⟨seen, (AList.lookup_insert_ne hq).trans hl, .inl rfl⟩

/-- What the window of an author holds when one more of its events is admitted. -/
theorem admitted_before {g : Grant} (hg : Guarded vs n last) (hle : last ≤ t.now) (hnew : newGrant ⟨n, t⟩ = some g)
    (hfew : (active spamWindowSecs g.time (grants (vs ++ [⟨n, t⟩]))).card ≤ maxTrackedAuthors) {first : Nat}
    (hin : first ≤ g.time ∧ g.time ≤ first + spamWindowSecs) : admittedIn vs g.author first < n.budgetAt t.now := by
  obtain ⟨c, hc, hroom, rfl⟩ := Node.newGrant_iff.mp hnew
  have hnow := Node.traffic_now hc
  have hle' : last ≤ c.now := hnow ▸ hle
  dsimp only at hin hfew ⊢
  have hlate := hg.remembers.late_eq hle' c.event.pubkey (show c.now - spamWindowSecs ≤ first by omega)
    (fun o ho hfo => by
      have hsub : rivals (grants vs) c.event.pubkey o c.now ⊆
          (active spamWindowSecs c.now (grants (vs ++ [⟨n, t⟩]))).erase c.event.pubkey := by
        intro b hb
        obtain ⟨hne, s, hs, h₁, h₂⟩ := mem_rivals.mp hb
        refine Finset.mem_erase.mpr ⟨hne, mem_active.mpr ⟨s, ?_, by omega, h₂⟩⟩
        rw [grants_snoc]
        exact mem_grantTimes.mpr (List.mem_append_left _ (mem_grantTimes.mp hs))
      have hself : c.event.pubkey ∈ active spamWindowSecs c.now (grants (vs ++ [⟨n, t⟩])) := by
        refine mem_active.mpr ⟨c.now, ?_, Nat.sub_le _ _, le_rfl⟩
        rw [grants_snoc, hnew]
        exact mem_grantTimes.mpr (List.mem_append_right _ List.mem_cons_self)
      have hcard := Finset.card_le_card hsub
      rw [Finset.card_erase_of_mem hself] at hcard
      have : 0 < maxTrackedAuthors := by decide
      omega)
  have hwindow : (grantTimes (grants vs) c.event.pubkey).filter (fun s => first ≤ s ∧ s ≤ first + spamWindowSecs) =
      (grantTimes (grants vs) c.event.pubkey).filter fun s => first ≤ s ∧ s ≤ c.now := by
    refine List.filter_congr fun s hs => ?_
    have hpast := (hg.remembers.past _ s hs).trans hle'
    have hpast' := hpast.trans hin.2
    simp only [hpast, hpast', and_true]
  have hhas := (Node.verdict_room hroom).2.2
  rw [Node.HasRoom, hg.windowSecs] at hhas
  rw [admittedIn, hwindow, hlate, hnow]
  exact (List.length_filter_le _ _).trans_lt hhas

/-- What one more step admits between `first` and the end of the window. -/
theorem admittedIn_snoc (vs : List (Visit (Node h) Traffic)) (n : Node h) (t : Traffic) (author : String)
    (first : Nat) : admittedIn (vs ++ [⟨n, t⟩]) author first = admittedIn vs author first +
      ((grantTimes (newGrant ⟨n, t⟩).toList author).filter fun s =>
        first ≤ s ∧ s ≤ first + spamWindowSecs).length := by
  rw [admittedIn, grants_snoc, grantTimes_append, List.filter_append, List.length_append, admittedIn]

/-- **The openings stay apart**: a contact of each of them is in the book, so the next one comes after its silence. -/
theorem apart_step (hg : Guarded vs n last) :
    (openings (vs ++ [⟨n, t⟩])).Pairwise fun a b => a + partitionSilenceThresholdSecs ≤ b := by
  rw [openings_snoc]
  refine List.pairwise_append.mpr ⟨hg.apart, ?_, fun o ho o' ho' => ?_⟩
  · split
    · exact List.pairwise_singleton _ _
    · exact List.Pairwise.nil
  · split at ho'
    · next hop =>
      obtain rfl := List.mem_singleton.mp ho'
      obtain ⟨peer, seen, hl, hos⟩ := hg.book o ho
      have hsilent := (silent_of_opens hop).2 peer seen hl
      omega
    · cases ho'

/-- The contact of an opening stays in the book. -/
theorem book_step (hg : Guarded vs n last) (hlast : last ≤ t.now) {o : Nat} (ho : o ∈ openings (vs ++ [⟨n, t⟩])) :
    ∃ peer seen, (t.apply n).peerLastSeen.lookup peer = some seen ∧ o ≤ seen := by
  rcases mem_openings_snoc.mp ho with hold | ⟨hop, rfl⟩
  · obtain ⟨peer, seen, hl, hos⟩ := hg.book o hold
    obtain ⟨seen', hl', rfl | rfl⟩ := seen_step (t := t) hl
    · exact ⟨peer, _, hl', hos⟩
    · exact ⟨peer, _, hl', (hg.opened o hold).trans hlast⟩
  · obtain ⟨peer, hpeer⟩ := Option.isSome_iff_exists.mp (Bool.and_eq_true_iff.mp hop).1
    refine ⟨peer, t.now, ?_, le_rfl⟩
    rw [(Node.traffic_presence n t).1, hpeer]
    exact AList.lookup_insert _

/-- A grace in force was opened. -/
theorem grace_step (hg : Guarded vs n last) {now : Nat} (hact : (t.apply n).healGraceActive now = true) :
    ∃ o ∈ openings (vs ++ [⟨n, t⟩]), now < o + healGraceSecs := by
  rw [Node.healGraceActive, (Node.traffic_presence n t).2, decide_eq_true_eq] at hact
  by_cases ho : t.opens n = true
  · rw [if_pos ho] at hact
    exact ⟨t.now, mem_openings_snoc.mpr (.inr ⟨ho, rfl⟩), hact.trans_le (Nat.min_le_left _ _)⟩
  · rw [if_neg ho] at hact
    obtain ⟨o, ho, hlt⟩ := hg.grace now (decide_eq_true hact)
    exact ⟨o, mem_openings_snoc.mpr (.inl ho), hlt⟩

/-- **A window holds the wider budget at most, and more than the plain one in a grace only.** -/
theorem capped_step (hg : Guarded vs n last) (hlast : last ≤ t.now)
    (hfew : ∀ g, newGrant ⟨n, t⟩ = some g →
      (active spamWindowSecs g.time (grants (vs ++ [⟨n, t⟩]))).card ≤ maxTrackedAuthors) (a : String) (first : Nat) :
    admittedIn (vs ++ [⟨n, t⟩]) a first ≤ spamBudgetPerWindow * healWindowBudgetFactor ∧
      (spamBudgetPerWindow < admittedIn (vs ++ [⟨n, t⟩]) a first →
        MeetsGrace (vs ++ [⟨n, t⟩]) first (first + spamWindowSecs)) := by
  have hmeets : MeetsGrace vs first (first + spamWindowSecs) →
      MeetsGrace (vs ++ [⟨n, t⟩]) first (first + spamWindowSecs) :=
    fun ⟨o, ho, hm⟩ => ⟨o, mem_openings_snoc.mpr (.inl ho), hm⟩
  obtain ⟨hcap, hover⟩ := hg.capped a first
  have hsplit := admittedIn_snoc vs n t a first
  cases hnew : newGrant ⟨n, t⟩ with
  | none =>
    rw [hsplit, hnew]
    exact ⟨hcap, fun hlt => hmeets (hover hlt)⟩
  | some g =>
    rw [hnew, Option.toList_some] at hsplit
    by_cases hin : g.author = a ∧ first ≤ g.time ∧ g.time ≤ first + spamWindowSecs
    · obtain ⟨rfl, hin⟩ := hin
      have hone : ((grantTimes [g] g.author).filter fun s => first ≤ s ∧ s ≤ first + spamWindowSecs).length ≤ 1 :=
        (List.length_filter_le _ _).trans (by simp [grantTimes])
      have hbefore := admitted_before hg hlast hnew (hfew g hnew) hin
      have htime : g.time = t.now := by
        obtain ⟨c, hc, -, rfl⟩ := Node.newGrant_iff.mp hnew
        exact (Node.traffic_now hc).symm
      rw [Node.budgetAt] at hbefore
      by_cases hact : n.healGraceActive t.now = true
      · rw [if_pos hact] at hbefore
        obtain ⟨o, ho, hlt⟩ := hg.grace _ hact
        exact ⟨by omega, fun _ =>
          hmeets ⟨o, ho, t.now, by omega, by omega, (hg.opened o ho).trans hlast, hlt⟩⟩
      · rw [if_neg hact] at hbefore
        have hle : admittedIn (vs ++ [⟨n, t⟩]) g.author first ≤ spamBudgetPerWindow := by omega
        exact ⟨hle.trans (by decide), fun hlt => absurd hlt (Nat.not_lt.mpr hle)⟩
    · have hnone : ((grantTimes [g] a).filter fun s => first ≤ s ∧ s ≤ first + spamWindowSecs) = [] := by
        rw [List.filter_eq_nil_iff]
        intro s hs hbad
        have hmem := mem_grantTimes.mp hs
        rw [List.mem_singleton] at hmem
        subst hmem
        exact hin ⟨rfl, of_decide_eq_true hbad⟩
      rw [hsplit, hnone]
      exact ⟨hcap, fun hlt => hmeets (hover hlt)⟩

/-- **One step keeps what a run keeps.** -/
theorem Guarded.step (hg : Guarded vs n last) (hle : ∀ v ∈ vs, v.label.now ≤ t.now)
    (hfew : ∀ g, newGrant ⟨n, t⟩ = some g →
      (active spamWindowSecs g.time (grants (vs ++ [⟨n, t⟩]))).card ≤ maxTrackedAuthors) :
    Guarded (vs ++ [⟨n, t⟩]) (t.apply n) t.now := by
  have hlast := hg.latest _ hle
  have hwin := Node.traffic_window (hg.windowSecs.symm ▸ hg.remembers) hlast
  rw [hg.windowSecs, ← grants_snoc] at hwin
  refine ⟨fun s hs => hs ⟨n, t⟩ (by simp), hwin.1, hwin.2, fun o ho => ?_, fun _ ho => book_step hg hlast ho,
    fun _ hact => grace_step hg hact, apart_step hg, capped_step hg hlast hfew⟩
  rcases mem_openings_snoc.mp ho with hold | ⟨-, rfl⟩
  · exact (hg.opened o hold).trans hlast
  · exact le_rfl

/-- Nothing has happened yet. -/
theorem Guarded.start (hs : n.spamGuard = .new spamWindowSecs spamBudgetPerWindow) (hu : n.healGraceUntil = 0) :
    Guarded [] n 0 where
  latest _ _ := Nat.zero_le _
  windowSecs := by rw [hs]; rfl
  remembers := by rw [hs]; exact remembers_empty spamWindowSecs
  opened o ho := by cases ho
  book o ho := by cases ho
  grace now hact := by
    rw [Node.healGraceActive, hu, decide_eq_true_eq] at hact
    omega
  apart := List.Pairwise.nil
  capped a first := ⟨Nat.zero_le _, fun hlt => absurd hlt (Nat.not_lt_zero _)⟩

/-- **Every run keeps it.** -/
theorem Guarded.run {n₀ : Node h} (hs : n₀.spamGuard = .new spamWindowSecs spamBudgetPerWindow)
    (hu : n₀.healGraceUntil = 0) (hr : Traffics n₀ vs n) (horder : InOrder vs) (hfew : Uncrowded vs) :
    ∃ last, Guarded vs n last := by
  induction hr with
  | start => exact ⟨0, .start hs hu⟩
  | @visit ws s s' t hw hv ih =>
    obtain rfl : s' = _ := hv
    obtain ⟨hws, -, hlater⟩ := List.pairwise_append.mp horder
    have hprev : Uncrowded ws := by
      rintro past v rest g rfl hnew
      exact hfew past v (rest ++ [⟨s, t⟩]) g (by simp) hnew
    obtain ⟨last, hg⟩ := ih hws hprev
    exact ⟨t.now, hg.step (fun v hv => hlater v hv ⟨s, t⟩ (by simp)) fun g hnew => hfew ws ⟨s, t⟩ [] g rfl hnew⟩
  | @silent ws s s' hw he ih =>
    obtain ⟨last, hg⟩ := ih horder hfew
    refine ⟨last, hg.latest, ?_, ?_, hg.opened, ?_, ?_, hg.apart, hg.capped⟩
    · rw [he.spamGuard]
      exact hg.windowSecs
    · rw [he.spamGuard]
      exact hg.remembers
    · rw [he.peerLastSeen]
      exact hg.book
    · simp only [Node.healGraceActive, he.healGraceUntil]
      exact hg.grace

/-- **The grace cannot be amplified.** In every run of a fresh node in order of time, with no more authors in a window
than the table holds: its openings are as far apart as the silence that precedes each of them, and it is active only
shortly after one; an author gets no more of its new events admitted in a window than the wider budget, and more than
the usual one only in a window that meets a grace. -/
theorem heal_grace_bounded (config : NodeConfig) (identity : Identity) (persistence : Option h.MessageDb)
    (socialStore : Option h.SocialDb) (vs : List (Visit (Node h) Traffic)) (n : Node h)
    (hr : Traffics (Node.new config identity persistence socialStore) vs n) (horder : InOrder vs)
    (hfew : Uncrowded vs) :
    ((openings vs).Pairwise fun a b => a + partitionSilenceThresholdSecs ≤ b) ∧
    (∀ v ∈ vs, v.label.opens v.state = true → v.state.peerLastSeen.entries ≠ [] ∧
      ∀ peer seen, v.state.peerLastSeen.lookup peer = some seen →
        seen + partitionSilenceThresholdSecs ≤ v.label.now) ∧
    (∀ now, n.healGraceActive now = true → ∃ o ∈ openings vs, now < o + healGraceSecs) ∧
    ∀ author first, admittedIn vs author first ≤ spamBudgetPerWindow * healWindowBudgetFactor ∧
      (spamBudgetPerWindow < admittedIn vs author first → MeetsGrace vs first (first + spamWindowSecs)) := by
  obtain ⟨last, hg⟩ := Guarded.run rfl rfl hr horder hfew
  exact ⟨hg.apart, fun v _ ho => silent_of_opens ho, hg.grace, hg.capped⟩

/-! ## A peer that comes back -/

def awayNode : Node knownHost := strangerNode.notePeerTraffic "peer" 1699999000

def backNode : Node knownHost := awayNode.notePeerTraffic "peer" 1700000000

/-- A peer is silent for a thousand seconds, then it is back, and an alert comes. -/
def returning : List (Visit (Node knownHost) Traffic) :=
  [⟨strangerNode, .contact "peer" 1699999000⟩, ⟨awayNode, .contact "peer" 1700000000⟩,
    ⟨backNode, .receive ⟨.still 1700000000, 1700000000, knownEvent .alert⟩⟩]

theorem heal_grace_returning :
    (openings returning).Pairwise (fun a b => a + partitionSilenceThresholdSecs ≤ b) ∧
      ∀ author first, admittedIn returning author first ≤ spamBudgetPerWindow * healWindowBudgetFactor := by
  have hrun : Traffics (Node.new (h := knownHost) .default (.ofByte 2) none none) returning
      ((Traffic.receive ⟨.still 1700000000, 1700000000, knownEvent .alert⟩).apply backNode) := by
    have h₁ : Moves (.contact "peer" 1699999000) strangerNode awayNode := rfl
    have h₂ : Moves (.contact "peer" 1700000000) awayNode backNode := rfl
    have h₃ : Moves (.receive ⟨.still 1700000000, 1700000000, knownEvent .alert⟩) backNode _ := rfl
    exact ((Run.start.visit h₁).visit h₂).visit h₃
  have horder : InOrder returning := by
    refine List.pairwise_cons.mpr ⟨?_, List.pairwise_pair.mpr (Nat.le_refl 1700000000)⟩
    intro v hv
    rcases List.mem_pair.mp hv with rfl | rfl <;> exact Nat.le_add_right 1699999000 1000
  have hfew : Uncrowded returning := by
    intro past v rest g heq _
    have hlen := congrArg List.length heq
    have hle : (past ++ [v]).length ≤ 3 := by
      simp only [returning, List.length_cons, List.length_nil, List.length_append] at hlen ⊢
      omega
    have hcard : (active spamWindowSecs g.time (grants (past ++ [v]))).card ≤ (past ++ [v]).length :=
      (List.toFinset_card_le _).trans ((List.length_map _).le.trans ((List.length_filter_le _ _).trans
        (List.length_filterMap_le _ _)))
    exact (hcard.trans hle).trans (by decide)
  obtain ⟨hapart, -, -, hcap⟩ := heal_grace_bounded .default (.ofByte 2) none none returning _ hrun horder hfew
  exact ⟨hapart, fun author first => (hcap author first).1⟩

end Onde

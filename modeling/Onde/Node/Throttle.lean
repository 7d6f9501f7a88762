import Onde.Lib.Run
import Onde.Node.Endorse

/-!
# The publish throttle

* `publishInPlace`: the entry points with the state they leave behind, also when they refuse;
* `publish_allowed`, `publish_recorded`: which of them test the time of the last publication, and which record it;
* `Spaced`: the publications of a run are as far apart as the interval asks;
* `spaced_iff`: they are exactly when those that escape the throttle are; a refused publication changes nothing.
-/

namespace Onde

open Lib Crypto Reputation Protocol Social Storage

variable {h : Host}

/-! ## The entry points in place -/

/-- Add an event with the adaptive difficulty floor. -/
def Protocol.GossipProtocol.addEventInPlace (c : Primitives) (ord : HashOrder) (clock : Nat) (g : GossipProtocol)
    (event : MeshEvent) (reputation : ReputationSystem) : Except String Bool × GossipProtocol :=
  match event.validateWithReputation c clock reputation with
  | .error err => (.error err, g)
  | .ok () =>
    let added := g.insertNew ord event
    (.ok added.1, added.2)

namespace Node

/-- The next step of a call, if this one has not failed; nothing was changed so far. -/
def orLeave {α : Type} (n : Node h) (step : Except String α) (next : α → Except String MeshEvent × Node h) :
    Except String MeshEvent × Node h :=
  match step with
  | .error err => (.error err, n)
  | .ok a => next a

/-- What is left to do once the event is in the outbox. -/
def thenFinish (called : Except String MeshEvent × Node h) (finish : MeshEvent → Node h → Node h) :
    Except String MeshEvent × Node h :=
  match called with
  | (.error err, n) => (.error err, n)
  | (.ok event, n) => (.ok event, finish event n)

def publishSignedInPlace (env : Env) (n : Node h) (event : MeshEvent) (powFailed : String) :
    Except String MeshEvent × Node h :=
  let difficulty := n.reputation.requiredPowDifficulty n.pubkeyHex
  let event := event.withPowDifficulty difficulty
  n.orLeave (if 0 < difficulty then event.payPow h.toPrimitives publishPowIterations powFailed else .ok event)
    fun event =>
  n.orLeave (event.validateWithReputation h.toPrimitives env.clock n.reputation) fun _ =>
  let added := n.gossip.addEventInPlace h.toPrimitives env.order env.clock event n.reputation
  ({ n with gossip := added.2 } : Node h).orLeave added.1 fun _ => (.ok event, { n with gossip := added.2 })

def publishTextInPlace (kind : OndeMessageType) (tier : MessageTier) (what : String) (env : Env) (n : Node h)
    (content : String) : Except String MeshEvent × Node h :=
  if maxTextLength < content.length then (.error s!"{what} must be <= 280 characters", n)
  else
    n.orLeave (n.enforcePublishThrottle env) fun _ =>
    let event := MeshEvent.newSigned h.toPrimitives n.identity kind content [] env.fuzzyTimestampSecs
    thenFinish (n.publishSignedInPlace env event "PoW computation failed") fun event n =>
      (n.keepMessage event tier).2.recordPublish env

def publishSocialPostInPlace (env : Env) (n : Node h) (platform : String) (title : Option String) (body : String)
    (communitySlug : Option String) : Except String MeshEvent × Node h :=
  n.orLeave (parseSocialPlatform platform) fun platform =>
  let post : SocialPost := ⟨env.socialId, platform, n.pubkeyHex, title, body, communitySlug, []⟩
  n.orLeave post.validate fun _ =>
  n.orLeave (SocialPost.toMeshEvent h env.fuzzyTimestampSecs n.identity post) fun event =>
  thenFinish (n.publishSignedInPlace env event "PoW computation failed for social post") fun _ n₁ =>
    recordPublish env { n₁ with
      socialStore := n₁.socialStore.map fun db => (h.insertPost (h.ensureUser db n.pubkeyHex).2 post).2 }

def publishSocialCommentInPlace (env : Env) (n : Node h) (platform postId : String) (parentId : Option String)
    (body : String) : Except String MeshEvent × Node h :=
  n.orLeave (parseSocialPlatform platform) fun platform =>
  let comment : SocialComment := ⟨env.socialId, platform, n.pubkeyHex, postId, parentId, body⟩
  n.orLeave comment.validate fun _ =>
  n.orLeave ((h.commentToString comment).mapError fun err => s!"social comment serialization: {err}") fun content =>
  let event := MeshEvent.newSigned h.toPrimitives n.identity .socialComment content
    [s!"platform={platform.name}"] env.fuzzyTimestampSecs
  thenFinish (n.publishSignedInPlace env event "PoW computation failed for comment") fun _ n₁ =>
    { n₁ with socialStore := n₁.socialStore.map fun db => (h.insertComment db comment).2 }

/-- The entry point of a publication, with the state it leaves behind. -/
def publishInPlace (env : Env) (n : Node h) : Publication → Except String MeshEvent × Node h
  | .alert content => publishTextInPlace .alert .critical "Alert" env n content
  | .mutualAid content => publishTextInPlace .mutualAid .important "Mutual aid request" env n content
  | .socialPost platform title body slug => n.publishSocialPostInPlace env platform title body slug
  | .socialComment platform postId parentId body => n.publishSocialCommentInPlace env platform postId parentId body

end Node

/-- It tests the time of the last publication. -/
def Publication.throttled : Publication → Bool
  | .alert _ | .mutualAid _ => true
  | .socialPost .. | .socialComment .. => false

/-- It is remembered as the last publication. -/
def Publication.counted : Publication → Bool
  | .alert _ | .mutualAid _ | .socialPost .. => true
  | .socialComment .. => false

/-! ## What an entry point leaves behind -/

namespace Node

/-- What a call leaves behind: the new state, or the old one if it is refused. -/
def leaves (n : Node h) : Except String (MeshEvent × Node h) → Except String MeshEvent × Node h
  | .ok (event, n') => (.ok event, n')
  | .error err => (.error err, n)

theorem leaves_bind {α : Type} (n : Node h) (step : Except String α)
    (next : α → Except String (MeshEvent × Node h)) :
    n.leaves (step >>= next) = n.orLeave step fun a => n.leaves (next a) := by
  cases step with
  | error err => rfl
  | ok a => rfl

theorem leaves_finish (n : Node h) (called : Except String (MeshEvent × Node h))
    (finish : MeshEvent → Node h → Node h) :
    n.leaves (called >>= fun p => pure (p.1, finish p.1 p.2)) = thenFinish (n.leaves called) finish := by
  cases called with
  | error err => rfl
  | ok p => rfl

variable {env : Env} {n n' : Node h} {event e : MeshEvent}

/-- **The shared steps fail before they touch the outbox.** -/
theorem publishSignedInPlace_eq (env : Env) (n : Node h) (event : MeshEvent) (powFailed : String) :
    n.publishSignedInPlace env event powFailed = n.leaves (n.publishSigned env event powFailed) := by
  unfold publishSignedInPlace publishSigned
  dsimp only
  rw [leaves_bind]
  congr 1
  funext paid
  rw [leaves_bind]
  cases hv : paid.validateWithReputation h.toPrimitives env.clock n.reputation with
  | error err => rfl
  | ok u =>
    simp only [orLeave, GossipProtocol.addEventInPlace, GossipProtocol.addEventWithReputation, hv]
    rfl

theorem publishTextInPlace_eq (kind : OndeMessageType) (tier : MessageTier) (what : String) (env : Env) (n : Node h)
    (content : String) :
    publishTextInPlace kind tier what env n content = n.leaves (publishText kind tier what env n content) := by
  unfold publishTextInPlace publishText
  split
  · rfl
  rw [leaves_bind]
  congr 1
  funext _
  dsimp only
  rw [publishSignedInPlace_eq, ← leaves_finish]

theorem publishSocialPostInPlace_eq (env : Env) (n : Node h) (platform : String) (title : Option String)
    (body : String) (slug : Option String) :
    n.publishSocialPostInPlace env platform title body slug =
      n.leaves (n.publishSocialPost env platform title body slug) := by
  unfold publishSocialPostInPlace publishSocialPost
  rw [leaves_bind]
  congr 1
  funext platform
  dsimp only
  rw [leaves_bind]
  congr 1
  funext _
  rw [leaves_bind]
  congr 1
  funext event
  rw [publishSignedInPlace_eq, ← leaves_finish]

theorem publishSocialCommentInPlace_eq (env : Env) (n : Node h) (platform postId : String) (parentId : Option String)
    (body : String) :
    n.publishSocialCommentInPlace env platform postId parentId body =
      n.leaves (n.publishSocialComment env platform postId parentId body) := by
  unfold publishSocialCommentInPlace publishSocialComment
  rw [leaves_bind]
  congr 1
  funext platform
  dsimp only
  rw [leaves_bind]
  congr 1
  funext _
  rw [leaves_bind]
  congr 1
  funext content
  rw [publishSignedInPlace_eq, ← leaves_finish]

/-- **In place an entry point does what `publish` says, and a refused publication changes nothing.** -/
theorem publishInPlace_eq (env : Env) (n : Node h) (p : Publication) :
    n.publishInPlace env p = n.leaves (n.publish env p) := by
  cases p with
  | alert content => exact publishTextInPlace_eq ..
  | mutualAid content => exact publishTextInPlace_eq ..
  | socialPost platform title body slug => exact publishSocialPostInPlace_eq ..
  | socialComment platform postId parentId body => exact publishSocialCommentInPlace_eq ..

theorem publishInPlace_ok {p : Publication} :
    n.publishInPlace env p = (.ok e, n') ↔ n.publish env p = .ok (e, n') := by
  rw [publishInPlace_eq]
  cases n.publish env p with
  | error err => simp [leaves]
  | ok r => simp [leaves, Prod.ext_iff]

theorem publishInPlace_refused {p : Publication} {err : String} (hr : (n.publishInPlace env p).1 = .error err) :
    (n.publishInPlace env p).2 = n := by
  rw [publishInPlace_eq] at hr ⊢
  cases hp : n.publish env p with
  | error err => rfl
  | ok r =>
    rw [hp] at hr
    cases hr

/-! ## The time of the last publication -/

theorem keepMessage_lastPublishAt (n : Node h) (event : MeshEvent) (tier : MessageTier) :
    (n.keepMessage event tier).2.lastPublishAt = n.lastPublishAt := by
  unfold keepMessage persistMessage
  dsimp only
  split
  · split <;> rfl
  · rfl

theorem enforcePublishThrottle_ok {u : Unit} (ht : n.enforcePublishThrottle env = .ok u) :
    n.publishIntervalSecs ≤ env.clock - n.lastPublishAt := by
  unfold enforcePublishThrottle publishAllowed at ht
  split at ht
  · rename_i hallowed
    exact of_decide_eq_true hallowed
  · cases ht

/-- A short text passes the throttle and is recorded. -/
theorem publishText_throttle {kind : OndeMessageType} {tier : MessageTier} {what content : String}
    (hp : publishText kind tier what env n content = .ok (e, n')) :
    n.publishIntervalSecs ≤ env.clock - n.lastPublishAt ∧ n'.lastPublishAt = env.clock := by
  unfold publishText at hp
  split at hp
  · cases hp
  obtain ⟨_, hallowed, hp⟩ := bind_eq_ok.mp hp
  obtain ⟨⟨e₁, n₁⟩, _, hp⟩ := bind_eq_ok.mp hp
  cases hp
  exact ⟨enforcePublishThrottle_ok hallowed, rfl⟩

theorem publishSocialPost_recorded {platform body : String} {title slug : Option String}
    (hp : publishSocialPost env n platform title body slug = .ok (e, n')) : n'.lastPublishAt = env.clock := by
  unfold publishSocialPost at hp
  obtain ⟨_, _, hp⟩ := bind_eq_ok.mp hp
  obtain ⟨_, _, hp⟩ := bind_eq_ok.mp hp
  obtain ⟨_, _, hp⟩ := bind_eq_ok.mp hp
  obtain ⟨⟨e₁, n₁⟩, _, hp⟩ := bind_eq_ok.mp hp
  cases hp
  rfl

theorem publishSocialComment_unrecorded {platform postId body : String} {parentId : Option String}
    (hp : publishSocialComment env n platform postId parentId body = .ok (e, n')) :
    n'.lastPublishAt = n.lastPublishAt := by
  unfold publishSocialComment at hp
  obtain ⟨_, _, hp⟩ := bind_eq_ok.mp hp
  obtain ⟨_, _, hp⟩ := bind_eq_ok.mp hp
  obtain ⟨_, _, hp⟩ := bind_eq_ok.mp hp
  obtain ⟨⟨e₁, n₁⟩, hsigned, hp⟩ := bind_eq_ok.mp hp
  cases hp
  obtain ⟨gossip, rfl⟩ := publishSigned_frame hsigned
  rfl

/-- **Alerts and requests for mutual aid wait for their turn**; the other entry points do not look. -/
theorem publish_allowed {p : Publication} (hp : n.publish env p = .ok (e, n')) (ht : p.throttled = true) :
    n.publishIntervalSecs ≤ env.clock - n.lastPublishAt := by
  cases p with
  | alert content => exact (publishText_throttle hp).1
  | mutualAid content => exact (publishText_throttle hp).1
  | socialPost platform title body slug => cases ht
  | socialComment platform postId parentId body => cases ht

/-- The interval is at least that of a trusted node, and at most that of an unknown one that saves its battery. -/
theorem publishIntervalSecs_bounds (n : Node h) : publishIntervalTrustedSecs ≤ n.publishIntervalSecs ∧
    n.publishIntervalSecs ≤ publishIntervalUntrustedSecs * publishBatteryMultiplier := by
  unfold publishIntervalSecs
  dsimp only
  split <;> split <;> decide

/-- **All but comments set the time of the last publication.** -/
theorem publish_recorded {p : Publication} (hp : n.publish env p = .ok (e, n')) :
    n'.lastPublishAt = if p.counted then env.clock else n.lastPublishAt := by
  cases p with
  | alert content => exact (publishText_throttle hp).2
  | mutualAid content => exact (publishText_throttle hp).2
  | socialPost platform title body slug => exact publishSocialPost_recorded hp
  | socialComment platform postId parentId body => exact publishSocialComment_unrecorded hp

end Node

/-! ## Runs -/

/-- A publication and what its call reads. -/
structure Publishing where
  env : Env
  publication : Publication

/-- The node publishes it. -/
def Publishes (p : Publishing) (n n' : Node h) : Prop := ∃ event, n.publishInPlace p.env p.publication = (.ok event, n')

/-- Whatever else a node does, a refused publication included, leaves the time of its last publication alone. -/
def Otherwise (n n' : Node h) : Prop := n'.lastPublishAt = n.lastPublishAt

/-- The runs of a node, with the successful publications, oldest first. -/
abbrev PublishingRun (n₀ : Node h) (vs : List (Visit (Node h) Publishing)) (n : Node h) : Prop :=
  Run Publishes Otherwise n₀ vs n

/-- The clock does not go back. -/
def ClockForward (vs : List (Visit (Node h) Publishing)) : Prop :=
  vs.Pairwise fun v w => v.label.env.clock ≤ w.label.env.clock

/-- The second publication comes at least the interval in force at it after the first. -/
def Apart (v w : Visit (Node h) Publishing) : Prop :=
  v.label.env.clock + w.state.publishIntervalSecs ≤ w.label.env.clock

/-- Any two publications are far enough apart. -/
def Spaced (vs : List (Visit (Node h) Publishing)) : Prop := vs.Pairwise Apart

/-- The first is not recorded, or the second does not look. -/
def Escapes (v w : Visit (Node h) Publishing) : Prop :=
  v.label.publication.counted = false ∨ w.label.publication.throttled = false

variable {n₀ n : Node h} {vs : List (Visit (Node h) Publishing)}

theorem Apart.late {v w : Visit (Node h) Publishing} (ha : Apart v w) :
    v.label.env.clock + publishIntervalTrustedSecs ≤ w.label.env.clock :=
  (Nat.add_le_add_left (Node.publishIntervalSecs_bounds w.state).1 _).trans ha

theorem apart_of_late {v w : Visit (Node h) Publishing}
    (hlate : v.label.env.clock + publishIntervalUntrustedSecs * publishBatteryMultiplier ≤ w.label.env.clock) :
    Apart v w := (Nat.add_le_add_left (Node.publishIntervalSecs_bounds w.state).2 _).trans hlate

/-- **The recorded time is at least that of every counted publication.** -/
theorem counted_le (hr : PublishingRun n₀ vs n) (hclock : ClockForward vs) {v : Visit (Node h) Publishing} (hv : v ∈ vs)
    (hc : v.label.publication.counted = true) : v.label.env.clock ≤ n.lastPublishAt := by
  induction hr with
  | start => cases hv
  | @visit ws s s' l hw hstep ih =>
    obtain ⟨event, hp⟩ := hstep
    obtain ⟨hold, -, hnew⟩ := List.pairwise_append.mp hclock
    rw [Node.publish_recorded (Node.publishInPlace_ok.mp hp)]
    rcases List.mem_append.mp hv with hin | hlast
    · split
      · exact hnew v hin _ List.mem_cons_self
      · exact ih hold hin
    · obtain rfl := List.mem_singleton.mp hlast
      rw [if_pos hc]
  | @silent ws s s' hw hstep ih =>
    have heq : s'.lastPublishAt = s.lastPublishAt := hstep
    rw [heq]
    exact ih hclock hv

/-- **A recorded publication and a later one that looks are far enough apart.** -/
theorem guarded_apart (hr : PublishingRun n₀ vs n) (hclock : ClockForward vs) :
    vs.Pairwise fun v w => Escapes v w ∨ Apart v w := by
  induction hr with
  | start => exact List.Pairwise.nil
  | @visit ws s s' l hw hstep ih =>
    obtain ⟨event, hp⟩ := hstep
    obtain ⟨hold, -, hnew⟩ := List.pairwise_append.mp hclock
    refine List.pairwise_append.mpr ⟨ih hold, List.pairwise_singleton _ _, fun v hv w hw' => ?_⟩
    have hle := hnew v hv w hw'
    obtain rfl := List.mem_singleton.mp hw'
    by_cases hesc : Escapes v ⟨s, l⟩
    · exact .inl hesc
    · right
      obtain ⟨hc, ht⟩ := not_or.mp hesc
      have hbefore := counted_le hw hold hv (Bool.not_eq_false _ |>.mp hc)
      have hallowed := Node.publish_allowed (Node.publishInPlace_ok.mp hp) (Bool.not_eq_false _ |>.mp ht)
      show v.label.env.clock + s.publishIntervalSecs ≤ l.env.clock
      dsimp only at hle
      omega
  | @silent ws s s' hw hstep ih => exact ih hclock

/-- **While the clock does not go back, the publications of a run are as far apart as the interval asks exactly when
those that escape the throttle are; a refused publication changes nothing.** -/
theorem spaced_iff (n₀ n : Node h) (vs : List (Visit (Node h) Publishing)) (hr : PublishingRun n₀ vs n)
    (hclock : ClockForward vs) :
    (Spaced vs ∧ ∀ env (m : Node h) p err, (m.publishInPlace env p).1 = .error err → (m.publishInPlace env p).2 = m) ↔
      vs.Pairwise fun v w => Escapes v w → Apart v w := by
  constructor
  · rintro ⟨hspaced, -⟩
    refine List.Pairwise.imp ?_ hspaced
    intro v w hapart _
    exact hapart
  · intro hescape
    refine ⟨?_, fun env m p err hrefused => Node.publishInPlace_refused hrefused⟩
    refine ((guarded_apart hr hclock).and hescape).imp fun ⟨hguard, hesc⟩ => ?_
    exact hguard.elim hesc id

/-! ## A comment right after an alert -/

namespace Node

/-- A node that asks nothing of itself publishes what it signs. -/
theorem publishSigned_open (hl : h.Lawful) (env : Env)
    (hfloor : n.reputation.requiredPowDifficulty n.pubkeyHex = 0) (kind : OndeMessageType) (content : String)
    (hsize : kind = .alert → content.length ≤ maxAlertSize) (tags : List String) (failed : String) :
    ∃ r, n.publishSigned env
      (MeshEvent.newSigned h.toPrimitives n.identity kind content tags env.fuzzyTimestampSecs) failed = .ok r := by
  refine (publishSigned_ok_iff hl.primitives hsize).mpr ⟨env.fuzzyTimestampSecs_le.trans ?_, fun hpos => ?_⟩
  · exact Nat.add_le_add_left (by decide) _
  · rw [hfloor] at hpos
    exact absurd hpos (by decide)

/-- Its alerts are published within the throttle, and it still asks nothing of itself. -/
theorem publishInPlace_alert (hl : h.Lawful) (env : Env)
    (hfloor : n.reputation.requiredPowDifficulty n.pubkeyHex = 0) (hthrottle : n.publishAllowed env.clock = true)
    (content : String) (hlen : content.length ≤ maxTextLength) :
    ∃ e n', n.publishInPlace env (.alert content) = (.ok e, n') ∧ n'.identity = n.identity ∧
      n'.reputation = n.reputation := by
  obtain ⟨⟨e, n₁⟩, hs⟩ := publishSigned_open hl env hfloor .alert content (fun _ => hlen) []
    "PoW computation failed"
  obtain ⟨gossip, rfl⟩ := publishSigned_frame hs
  have hkept := keepMessage_core ({ n with gossip } : Node h) e .critical
  have hp : n.publish env (.alert content) = .ok (e, _) := publishText_of_signed "Alert" hlen hthrottle hs
  exact ⟨e, _, publishInPlace_ok.mpr hp, hkept.identity, hkept.reputation⟩

/-- The first publication waits for nobody. -/
theorem publishAllowed_first {now : Nat} (hfirst : n.lastPublishAt = 0)
    (hnow : publishIntervalUntrustedSecs * publishBatteryMultiplier ≤ now) : n.publishAllowed now = true := by
  rw [publishAllowed, hfirst]
  exact decide_eq_true ((publishIntervalSecs_bounds n).2.trans hnow)

/-- Its comments are published if they can be written. -/
theorem publishInPlace_comment (hl : h.Lawful) (env : Env)
    (hfloor : n.reputation.requiredPowDifficulty n.pubkeyHex = 0) {platform postId body content : String}
    {parentId : Option String} {p : SocialPlatform} (hplatform : parseSocialPlatform platform = .ok p)
    (hvalid : SocialComment.validate ⟨env.socialId, p, n.pubkeyHex, postId, parentId, body⟩ = .ok ())
    (hcontent : h.commentToString ⟨env.socialId, p, n.pubkeyHex, postId, parentId, body⟩ = .ok content) :
    ∃ e n', n.publishInPlace env (.socialComment platform postId parentId body) = (.ok e, n') := by
  obtain ⟨⟨e, n₁⟩, hs⟩ := publishSigned_open hl env hfloor .socialComment content
    (fun halert => absurd halert (by decide)) [s!"platform={p.name}"] "PoW computation failed for comment"
  have hp : publishSocialComment env n platform postId parentId body = .ok (e, { n₁ with
      socialStore := n₁.socialStore.map fun db =>
        (h.insertComment db ⟨env.socialId, p, n.pubkeyHex, postId, parentId, body⟩).2 }) := by
    unfold publishSocialComment
    refine bind_eq_ok.mpr ⟨p, hplatform, bind_eq_ok.mpr ⟨(), hvalid, ?_⟩⟩
    exact bind_eq_ok.mpr ⟨content, mapError_eq_ok.mpr hcontent, bind_eq_ok.mpr ⟨_, hs, rfl⟩⟩
  exact ⟨e, _, publishInPlace_ok.mpr hp⟩

end Node

/-- A comment of the author, -/
def okComment : SocialComment := ⟨"00000000-0000-4000-8000-000000000000", .tuitter, knownAuthor, "p", none, "OK"⟩

/-- and its JSON text. -/
def okCommentText : String :=
  "\x7b\"id\":\"00000000-0000-4000-8000-000000000000\",\"platform\":\"Tuitter\",\"author_pubkey\":" ++
  "\"8a88e3dd7409f195fd52db2d3cba5d72ca6709bf1d94121bf3748801b40f6f5c\",\"post_id\":\"p\",\"parent_id\":null," ++
  "\"body\":\"OK\"\x7d"

/-- The values behind an alert and behind the comment at two moments. -/
def hastyValues : KnownValues where
  keys := knownKeys
  digests :=
    [((canonical knownAuthor 1700000000 .alert [] "OK").render,
      "1e2fc7f5b7f364a182183fd0f79f56696efe8468e4e5cf0138623cf76459e8fe"),
     ((canonical knownAuthor 1700000001 .socialComment ["platform=Tuitter"] okCommentText).render,
      "0c7192d3be6fbc24c303baf230dfdff66f57e59a05075f2e5f6da4d246d91432"),
     ((canonical knownAuthor 1700000720 .socialComment ["platform=Tuitter"] okCommentText).render,
      "ce46ef8b72def813508a30291aec6a42621909bc4adda0960fa959dc15c5ceb8")]
  signatures :=
    [(knownAuthor, "1e2fc7f5b7f364a182183fd0f79f56696efe8468e4e5cf0138623cf76459e8fe",
      "460d04105db311fc4fba9c3267534ca246a9abf2855b37549d98f63a1431371a" ++
      "547a5d7d04b38872fadaa1223fb2f977ba9e9a3237befd10ded63e9839c80509"),
     (knownAuthor, "0c7192d3be6fbc24c303baf230dfdff66f57e59a05075f2e5f6da4d246d91432",
      "835088b128d5176ceadadeeaf33366b5ab38911c85d1fa74a273a77b05964608" ++
      "72fe3f88ec8bbfcf5f3b2bbe89c6bc76295193f8a877762be7b80161877f6207"),
     (knownAuthor, "ce46ef8b72def813508a30291aec6a42621909bc4adda0960fa959dc15c5ceb8",
      "073e561d7fd605191f874221be77224eb9209d434555d07c58f84f7d01fe8929" ++
      "071b003c805e2a58ebb74fb4da1cc340b1ae271dd8c87cd796a0da46e439b104")]

def okCommentToString (comment : SocialComment) : Except String String :=
  if comment = okComment then .ok okCommentText else .error "not listed"

def okCommentFromStr (text : String) : Except String SocialComment :=
  if text = okCommentText then .ok okComment else .error "EOF while parsing a value at line 1 column 0"

theorem okComment_valid : okComment.validate = .ok () := by decide +kernel

theorem okComment_written : okCommentToString okComment = .ok okCommentText := if_pos rfl

theorem okComment_round_trip {comment : SocialComment} {text : String}
    (htext : okCommentToString comment = .ok text) : okCommentFromStr text = .ok comment := by
  unfold okCommentToString at htext
  split at htext
  · rename_i heq
    cases htext
    rw [okCommentFromStr, if_pos rfl, heq]
  · cases htext

/-- The host that writes the comment as its text, and reads it back. -/
def hastyHost : Host :=
  { Host.ofKnown hastyValues [] [("OK", "f3f70600")] with
    commentToString := okCommentToString
    commentFromStr := okCommentFromStr }

theorem hastyHost_lawful : hastyHost.Lawful :=
  ⟨Primitives.ofKnown_lawful hastyValues, fun _ _ hpost => (nomatch hpost), fun _ _ => okComment_round_trip⟩

/-- A fresh node of the author, -/
def hastyNode : Node hastyHost := Node.new .default (.ofByte 1) none none

/-- its alert, -/
def okAlert : Publishing := ⟨.still 1700000000, .alert "OK"⟩

/-- and its comment, published at `t`. -/
def commentAt (t : Nat) : Publishing := ⟨.still t, .socialComment "Tuitter" "p" none "OK"⟩

theorem hasty_pubkey : hastyNode.pubkeyHex = knownAuthor := knownKeys_one (k := hastyValues) rfl

theorem hasty_alert : ∃ alerted, Publishes okAlert hastyNode alerted ∧ alerted.pubkeyHex = knownAuthor ∧
    alerted.reputation.requiredPowDifficulty alerted.pubkeyHex = 0 := by
  have hfloor : hastyNode.reputation.requiredPowDifficulty hastyNode.pubkeyHex = 0 := Node.new_floor ..
  obtain ⟨e, alerted, hp, hid, hrep⟩ := Node.publishInPlace_alert hastyHost_lawful (.still 1700000000) hfloor
    (Node.publishAllowed_first rfl (by decide)) "OK" (by decide)
  have hkey : alerted.pubkeyHex = hastyNode.pubkeyHex := by rw [Node.pubkeyHex, hid, Node.pubkeyHex]
  refine ⟨alerted, ⟨e, hp⟩, hkey.trans hasty_pubkey, ?_⟩
  rw [hkey, hrep]
  exact hfloor

theorem hasty_comment {alerted : Node hastyHost} (hkey : alerted.pubkeyHex = knownAuthor)
    (hfloor : alerted.reputation.requiredPowDifficulty alerted.pubkeyHex = 0) (t : Nat) :
    ∃ n', Publishes (commentAt t) alerted n' := by
  have hplatform : parseSocialPlatform "Tuitter" = .ok .tuitter := rfl
  have hvalid : SocialComment.validate ⟨(Env.still t).socialId, .tuitter, alerted.pubkeyHex, "p", none, "OK"⟩ =
      .ok () := by
    rw [hkey]
    exact okComment_valid
  have hwritten : hastyHost.commentToString
      ⟨(Env.still t).socialId, .tuitter, alerted.pubkeyHex, "p", none, "OK"⟩ = .ok okCommentText := by
    rw [hkey]
    exact okComment_written
  obtain ⟨e, n', hp⟩ := Node.publishInPlace_comment hastyHost_lawful (.still t) hfloor hplatform hvalid hwritten
  exact ⟨n', e, hp⟩

/-- An alert, then at `t` a comment of the node it left. -/
def alertThenComment (alerted : Node hastyHost) (t : Nat) : List (Visit (Node hastyHost) Publishing) :=
  [⟨hastyNode, okAlert⟩, ⟨alerted, commentAt t⟩]

theorem alertThenComment_run (t : Nat) :
    ∃ alerted n, PublishingRun hastyNode (alertThenComment alerted t) n := by
  obtain ⟨alerted, halert, hkey, hfloor⟩ := hasty_alert
  obtain ⟨n, hcomment⟩ := hasty_comment hkey hfloor t
  exact ⟨alerted, n, (Run.start.visit halert).visit hcomment⟩

theorem alertThenComment_forward {alerted : Node hastyHost} {t : Nat} (ht : 1700000000 ≤ t) :
    ClockForward (alertThenComment alerted t) := List.pairwise_pair.mpr ht

/-- **One second after an alert a comment is published.** -/
theorem comment_not_spaced : ¬∀ alerted n, PublishingRun hastyNode (alertThenComment alerted 1700000001) n →
    ClockForward (alertThenComment alerted 1700000001) → Spaced (alertThenComment alerted 1700000001) := by
  intro hall
  obtain ⟨alerted, n, hrun⟩ := alertThenComment_run 1700000001
  have hspaced := hall alerted n hrun (alertThenComment_forward (by decide))
  have hapart : Apart ⟨hastyNode, okAlert⟩ ⟨alerted, commentAt 1700000001⟩ := List.pairwise_pair.mp hspaced
  have hlate : 1700000000 + publishIntervalTrustedSecs ≤ 1700000001 := hapart.late
  exact absurd hlate (by decide)

/-- Twelve minutes after the alert the comment is far enough from it. -/
theorem comment_spaced : ∃ alerted n, PublishingRun hastyNode (alertThenComment alerted 1700000720) n ∧
    Spaced (alertThenComment alerted 1700000720) := by
  obtain ⟨alerted, n, hrun⟩ := alertThenComment_run 1700000720
  have hescape : (alertThenComment alerted 1700000720).Pairwise fun v w => Escapes v w → Apart v w :=
    List.pairwise_pair.mpr fun _ => apart_of_late (Nat.le_refl _)
  exact ⟨alerted, n, hrun, ((spaced_iff hastyNode n _ hrun (alertThenComment_forward (by decide))).mpr hescape).1⟩

end Onde

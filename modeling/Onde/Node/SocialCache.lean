import Onde.Lib.Except
import Onde.Node.Verdict
import Onde.Social.ForeignKeys

/-!
# Social events and the store

* `SocialAction`: what a payload asks of the cache (`socialPayload_ok_iff`);
* `receive_socialStore`: what a reception does to the cache of any host, that is the action of an event that it
  `Takes`, or nothing;
* `Host.withSocialStore`: the host whose cache is the SQLite store, and `receive_tables`, the same for its tables;
* `receive_foreignKeys`: every reception keeps its foreign keys.
-/

namespace Onde

open Lib Crypto Reputation Protocol Social Storage

/-! ## Actions -/

/-- What a social event asks of the store. -/
inductive SocialAction where
  | post (p : SocialPost)
  | comment (c : SocialComment)
  | vote (target : String) (direction : Int) (table : String)
  | follow (followed : String) (unfollow : Bool)
  | message (recipient body : String)
  | report (target reason : String)
  deriving DecidableEq

namespace SocialAction

/-- The kind of the events that ask for it. -/
def kind : SocialAction → OndeMessageType
  | post _ => .socialPost
  | comment _ => .socialComment
  | vote .. => .socialVote
  | follow .. => .socialFollow
  | message .. => .socialMessage
  | report .. => .socialModeration

def outcome : SocialAction → SocialEventOutcome
  | post p => .postStored p.id
  | comment c => .commentStored c.id
  | vote .. => .voteApplied
  | follow .. => .followApplied
  | message .. => .messageStored
  | report .. => .moderationApplied

/-- The write to the cache, for the author of the event and a fresh identifier. -/
def write (h : Host) (author id : String) (db : h.SocialDb) : SocialAction → h.SocialDb
  | post p => (h.insertPost (h.ensureUser db p.authorPubkey).2 p).2
  | comment c => (h.insertComment (h.ensureUser db c.authorPubkey).2 c).2
  | vote target direction table => (h.vote db author target direction table).2
  | follow followed unfollow => if unfollow then (h.unfollow db author followed).2 else (h.follow db author followed).2
  | message recipient body => (h.insertMessage db id author recipient body).2
  | report target reason => (h.submitReport db id author target reason).2

def effect (h : Host) (author : String) (a : SocialAction) : SocialEffect h :=
  ⟨a.outcome, fun id db => a.write h author id db⟩

end SocialAction

/-- The payload of an event reads as an action. -/
def Decodes (h : Host) (event : MeshEvent) : SocialAction → Prop
  | .post p => event.kind = .socialPost ∧ event.content.utf8ByteSize ≤ socialPostMaxBytes ∧
      h.postFromStr event.content = .ok p ∧ p.validate = .ok ()
  | .comment c => event.kind = .socialComment ∧ event.content.utf8ByteSize ≤ socialCommentMaxBytes ∧
      h.commentFromStr event.content = .ok c ∧ c.validate = .ok ()
  | .vote target direction table => event.kind = .socialVote ∧ event.content.utf8ByteSize ≤ socialVoteMaxBytes ∧
      ∃ payload, h.valueFromStr event.content = .ok payload ∧ target = textField payload "target_id" ∧
        direction = ((payload.get "direction").bind Json.asI64).getD 1 ∧
        table = ((payload.get "target_table").bind Json.asStr).getD "posts" ∧
        validateSocialTargetRef target "vote target_id" = .ok () ∧ ¬(direction < -1 ∨ 1 < direction) ∧
        ¬(table ≠ "posts" ∧ table ≠ "comments")
  | .follow followed unfollow => event.kind = .socialFollow ∧ event.content.utf8ByteSize ≤ socialFollowMaxBytes ∧
      ∃ payload, h.valueFromStr event.content = .ok payload ∧ followed = textField payload "followed" ∧
        unfollow = ((payload.get "unfollow").bind Json.asBool).getD false ∧
        validateSocialPubkeyRef followed "follow target" = .ok ()
  | .message recipient body => event.kind = .socialMessage ∧ event.content.utf8ByteSize ≤ socialMessageMaxBytes ∧
      ∃ payload, h.valueFromStr event.content = .ok payload ∧ recipient = textField payload "recipient" ∧
        body = textField payload "body" ∧ validateSocialPubkeyRef recipient "message recipient" = .ok () ∧
        ¬blank body = true ∧ ¬maxPrivateMessageBody < body.length
  | .report target reason => event.kind = .socialModeration ∧
      event.content.utf8ByteSize ≤ socialModerationMaxBytes ∧
      ∃ payload, h.valueFromStr event.content = .ok payload ∧ target = textField payload "target_id" ∧
        reason = textField payload "reason" ∧ validateSocialTargetRef target "moderation target_id" = .ok () ∧
        ¬blank reason = true ∧ ¬maxModerationReason < reason.length

variable {h : Host} {event : MeshEvent}

theorem socialPostPayload_ok {effect : SocialEffect h} (hk : event.kind = .socialPost) :
    socialPostPayload h event = .ok effect ↔
      ∃ p, Decodes h event (.post p) ∧ effect = (SocialAction.post p).effect h event.pubkey := by
  simp only [socialPostPayload, bind_eq_ok, mapError_eq_ok, checkSocialPayloadSize_ok, exists_const, Decodes]
  constructor
  · rintro ⟨hsize, p, hread, _, hvalid, heff⟩
    exact ⟨p, ⟨hk, hsize, hread, hvalid⟩, (Except.ok.inj heff).symm⟩
  · rintro ⟨p, ⟨-, hsize, hread, hvalid⟩, rfl⟩
    exact ⟨hsize, p, hread, (), hvalid, rfl⟩

theorem socialCommentPayload_ok {effect : SocialEffect h} (hk : event.kind = .socialComment) :
    socialCommentPayload h event = .ok effect ↔
      ∃ c, Decodes h event (.comment c) ∧ effect = (SocialAction.comment c).effect h event.pubkey := by
  simp only [socialCommentPayload, bind_eq_ok, mapError_eq_ok, checkSocialPayloadSize_ok, exists_const, Decodes]
  constructor
  · rintro ⟨hsize, c, hread, _, hvalid, heff⟩
    exact ⟨c, ⟨hk, hsize, hread, hvalid⟩, (Except.ok.inj heff).symm⟩
  · rintro ⟨c, ⟨-, hsize, hread, hvalid⟩, rfl⟩
    exact ⟨hsize, c, hread, (), hvalid, rfl⟩

theorem socialVotePayload_ok {effect : SocialEffect h} (hk : event.kind = .socialVote) :
    socialVotePayload h event = .ok effect ↔ ∃ target direction table,
      Decodes h event (.vote target direction table) ∧
        effect = (SocialAction.vote target direction table).effect h event.pubkey := by
  simp only [socialVotePayload, bind_eq_ok, mapError_eq_ok, checkSocialPayloadSize_ok, exists_const, guard_eq_ok,
    Decodes]
  constructor
  · rintro ⟨hsize, payload, hread, _, htarget, hdir, htable, heff⟩
    exact ⟨_, _, _, ⟨hk, hsize, payload, hread, rfl, rfl, rfl, htarget, hdir, htable⟩, (Except.ok.inj heff).symm⟩
  · rintro ⟨_, _, _, ⟨-, hsize, payload, hread, rfl, rfl, rfl, htarget, hdir, htable⟩, rfl⟩
    exact ⟨hsize, payload, hread, (), htarget, hdir, htable, rfl⟩

theorem socialFollowPayload_ok {effect : SocialEffect h} (hk : event.kind = .socialFollow) :
    socialFollowPayload h event = .ok effect ↔ ∃ followed unfollow, Decodes h event (.follow followed unfollow) ∧
      effect = (SocialAction.follow followed unfollow).effect h event.pubkey := by
  simp only [socialFollowPayload, bind_eq_ok, mapError_eq_ok, checkSocialPayloadSize_ok, exists_const, Decodes]
  constructor
  · rintro ⟨hsize, payload, hread, _, hkey, heff⟩
    exact ⟨_, _, ⟨hk, hsize, payload, hread, rfl, rfl, hkey⟩, (Except.ok.inj heff).symm⟩
  · rintro ⟨_, _, ⟨-, hsize, payload, hread, rfl, rfl, hkey⟩, rfl⟩
    exact ⟨hsize, payload, hread, (), hkey, rfl⟩

theorem socialMessagePayload_ok {effect : SocialEffect h} (hk : event.kind = .socialMessage) :
    socialMessagePayload h event = .ok effect ↔ ∃ recipient body, Decodes h event (.message recipient body) ∧
      effect = (SocialAction.message recipient body).effect h event.pubkey := by
  simp only [socialMessagePayload, bind_eq_ok, mapError_eq_ok, checkSocialPayloadSize_ok, exists_const, guard_eq_ok,
    Decodes]
  constructor
  · rintro ⟨hsize, payload, hread, _, hkey, hblank, hlong, heff⟩
    exact ⟨_, _, ⟨hk, hsize, payload, hread, rfl, rfl, hkey, hblank, hlong⟩, (Except.ok.inj heff).symm⟩
  · rintro ⟨_, _, ⟨-, hsize, payload, hread, rfl, rfl, hkey, hblank, hlong⟩, rfl⟩
    exact ⟨hsize, payload, hread, (), hkey, hblank, hlong, rfl⟩

theorem socialModerationPayload_ok {effect : SocialEffect h} (hk : event.kind = .socialModeration) :
    socialModerationPayload h event = .ok effect ↔ ∃ target reason, Decodes h event (.report target reason) ∧
      effect = (SocialAction.report target reason).effect h event.pubkey := by
  simp only [socialModerationPayload, bind_eq_ok, mapError_eq_ok, checkSocialPayloadSize_ok, exists_const,
    guard_eq_ok, Decodes]
  constructor
  · rintro ⟨hsize, payload, hread, _, htarget, hblank, hlong, heff⟩
    exact ⟨_, _, ⟨hk, hsize, payload, hread, rfl, rfl, htarget, hblank, hlong⟩, (Except.ok.inj heff).symm⟩
  · rintro ⟨_, _, ⟨-, hsize, payload, hread, rfl, rfl, htarget, hblank, hlong⟩, rfl⟩
    exact ⟨hsize, payload, hread, (), htarget, hblank, hlong, rfl⟩

/-- An action is read from an event of its kind. -/
theorem Decodes.kind {a : SocialAction} (hd : Decodes h event a) : event.kind = a.kind := by
  cases a <;> exact hd.1

theorem Decodes.isSocial {a : SocialAction} (hd : Decodes h event a) : event.kind.isSocial = true := by
  rw [hd.kind]
  cases a <;> rfl

/-- **A payload is accepted exactly if it reads as an action.** -/
theorem socialPayload_ok_iff (hk : event.kind.isSocial = true) {effect : SocialEffect h} :
    socialPayload h event = .ok effect ↔ ∃ a, Decodes h event a ∧ effect = a.effect h event.pubkey := by
  constructor
  · intro hp
    unfold socialPayload at hp
    split at hp
    case h_1 hkind =>
      obtain ⟨p, hd, he⟩ := (socialPostPayload_ok hkind).mp hp
      exact ⟨_, hd, he⟩
    case h_2 hkind =>
      obtain ⟨c, hd, he⟩ := (socialCommentPayload_ok hkind).mp hp
      exact ⟨_, hd, he⟩
    case h_3 hkind =>
      obtain ⟨_, _, _, hd, he⟩ := (socialVotePayload_ok hkind).mp hp
      exact ⟨_, hd, he⟩
    case h_4 hkind =>
      obtain ⟨_, _, hd, he⟩ := (socialFollowPayload_ok hkind).mp hp
      exact ⟨_, hd, he⟩
    case h_5 hkind =>
      obtain ⟨_, _, hd, he⟩ := (socialMessagePayload_ok hkind).mp hp
      exact ⟨_, hd, he⟩
    case h_6 hkind =>
      obtain ⟨_, _, hd, he⟩ := (socialModerationPayload_ok hkind).mp hp
      exact ⟨_, hd, he⟩
    case h_7 => cases hkind : event.kind <;> simp_all [OndeMessageType.isSocial]
  · rintro ⟨a, hd, rfl⟩
    have hkind : event.kind = a.kind := hd.kind
    cases a with
    | post p =>
      simp only [socialPayload, hkind, SocialAction.kind]
      exact (socialPostPayload_ok hkind).mpr ⟨p, hd, rfl⟩
    | comment c =>
      simp only [socialPayload, hkind, SocialAction.kind]
      exact (socialCommentPayload_ok hkind).mpr ⟨c, hd, rfl⟩
    | vote target direction table =>
      simp only [socialPayload, hkind, SocialAction.kind]
      exact (socialVotePayload_ok hkind).mpr ⟨_, _, _, hd, rfl⟩
    | follow followed unfollow =>
      simp only [socialPayload, hkind, SocialAction.kind]
      exact (socialFollowPayload_ok hkind).mpr ⟨_, _, hd, rfl⟩
    | message recipient body =>
      simp only [socialPayload, hkind, SocialAction.kind]
      exact (socialMessagePayload_ok hkind).mpr ⟨_, _, hd, rfl⟩
    | report target reason =>
      simp only [socialPayload, hkind, SocialAction.kind]
      exact (socialModerationPayload_ok hkind).mpr ⟨_, _, hd, rfl⟩

namespace Node

variable {env : Env} {now : Nat} {n : Node h}

/-- An event goes through the gate, reads as an action and is valid for the reputation of the node. -/
structure Takes (env : Env) (now : Nat) (n : Node h) (event : MeshEvent) (a : SocialAction) : Prop where
  passes : (n.verdict now event).passes = true
  decodes : Decodes h event a
  valid : event.validateWithReputation h.toPrimitives env.clock n.reputation = .ok ()

/-! ## Nothing else touches the cache -/

theorem persistMessage_socialStore (n : Node h) (id : String) (tier : MessageTier) (payload : Bytes)
    (createdAt : Nat) (geohash : String) :
    (n.persistMessage id tier payload createdAt geohash).socialStore = n.socialStore := by
  unfold persistMessage
  split <;> rfl

theorem keepMessage_socialStore (n : Node h) (event : MeshEvent) (tier : MessageTier) :
    (n.keepMessage event tier).2.socialStore = n.socialStore := by
  unfold keepMessage
  dsimp only
  split
  · exact persistMessage_socialStore _ _ _ _ _ _
  · rfl

theorem handleIncomingAlert_socialStore {r : Bool × Node h} (ha : n.handleIncomingAlert env event = .ok r) :
    r.2.socialStore = n.socialStore := by
  by_cases hk : event.kind = .alert
  · rw [handleIncomingAlert_eq hk] at ha
    cases hv : event.validateWithReputation h.toPrimitives env.clock n.reputation with
    | error err => rw [hv] at ha; cases ha
    | ok u =>
      rw [hv] at ha
      cases ha
      exact keepMessage_socialStore { n with gossip := (n.gossip.insertNew env.order event).2 } event .critical
  · unfold handleIncomingAlert at ha
    rw [if_pos hk] at ha
    cases ha
    rfl

theorem handleIncomingEndorsement_socialStore (env : Env) (n : Node h) (event : MeshEvent) :
    (n.handleIncomingEndorsement env event).2.socialStore = n.socialStore := by
  unfold handleIncomingEndorsement
  repeat' split
  all_goals rfl

theorem handleIncomingAbuseReport_socialStore (env : Env) (n : Node h) (event : MeshEvent) :
    (n.handleIncomingAbuseReport env event).2.socialStore = n.socialStore := by
  unfold handleIncomingAbuseReport
  repeat' split
  all_goals rfl

/-- An event that is not social leaves the cache alone. -/
theorem routePeerEvent_unsocial (hk : event.kind.isSocial = false) :
    (n.routePeerEvent env now event).node.socialStore = n.socialStore := by
  by_cases ha : event.kind = .alert
  · unfold routePeerEvent
    simp only [ha]
    cases hr : n.handleIncomingAlert env event with
    | error err => rfl
    | ok r =>
      obtain ⟨stored, n'⟩ := r
      cases stored <;> exact handleIncomingAlert_socialStore hr
  by_cases he : event.kind = .endorsement
  · unfold routePeerEvent
    simp only [he]
    have hs := handleIncomingEndorsement_socialStore env n event
    generalize n.handleIncomingEndorsement env event = r at hs ⊢
    obtain ⟨outcome, n'⟩ := r
    cases outcome with
    | applied => exact hs
    | ignored => exact hs
    | rejected err =>
      dsimp only
      split <;> exact hs
  by_cases hr : event.kind = .abuseReport
  · unfold routePeerEvent
    simp only [hr]
    have hs := handleIncomingAbuseReport_socialStore env n event
    generalize n.handleIncomingAbuseReport env event = r at hs ⊢
    obtain ⟨outcome, n'⟩ := r
    cases outcome <;> exact hs
  rw [routePeerEvent_other ⟨ha, he, hr, hk⟩]

/-- The dispatcher writes the action of a valid social event. -/
theorem routePeerEvent_taken {a : SocialAction} (hd : Decodes h event a)
    (hv : event.validateWithReputation h.toPrimitives env.clock n.reputation = .ok ()) :
    (n.routePeerEvent env now event).outcome = .social a.outcome ∧
      (n.routePeerEvent env now event).node.socialStore =
        n.socialStore.map fun db => a.write h event.pubkey env.socialId db := by
  have hk := hd.isSocial
  have hp := (socialPayload_ok_iff hk).mpr ⟨a, hd, rfl⟩
  have hs : n.handleIncomingSocial env event = _ := handleIncomingSocial_eq hk
  rw [hp, hv] at hs
  rw [routePeerEvent_social hk, hs]
  exact ⟨rfl, rfl⟩

/-- It writes nothing else. -/
theorem routePeerEvent_untaken (hn : ¬∃ a, Decodes h event a ∧
    event.validateWithReputation h.toPrimitives env.clock n.reputation = .ok ()) :
    (n.routePeerEvent env now event).node.socialStore = n.socialStore := by
  cases hk : event.kind.isSocial with
  | false => exact routePeerEvent_unsocial hk
  | true =>
    have hs : n.handleIncomingSocial env event = _ := handleIncomingSocial_eq hk
    rw [routePeerEvent_social hk, hs]
    cases hp : socialPayload h event with
    | error err => rfl
    | ok effect =>
      obtain ⟨a, hd, -⟩ := (socialPayload_ok_iff hk).mp hp
      cases hv : event.validateWithReputation h.toPrimitives env.clock n.reputation with
      | error err => rfl
      | ok u => exact absurd ⟨a, hd, hv⟩ hn

/-- **A reception writes the action of the event it takes to the cache**, -/
theorem receive_taken {a : SocialAction} (ht : Takes env now n event a) :
    (n.receivePeerEvent env now event).outcome = .social a.outcome ∧
      (n.receivePeerEvent env now event).node.socialStore =
        n.socialStore.map fun db => a.write h event.pubkey env.socialId db := by
  rw [receivePeerEvent]
  rcases receivePeerEventInner_cases env now n event with ⟨hp, -⟩ | ⟨-, -, n₁, -, hrep, -, -, hstore, hr⟩
  · rw [ht.passes] at hp
    cases hp
  · have hvalid : event.validateWithReputation h.toPrimitives env.clock n₁.reputation = .ok () := hrep ▸ ht.valid
    rw [hr, ← hstore]
    exact routePeerEvent_taken ht.decodes hvalid

/-- and leaves it alone if it takes none. -/
theorem receive_untaken (hn : ¬∃ a, Takes env now n event a) :
    (n.receivePeerEvent env now event).node.socialStore = n.socialStore := by
  rw [receivePeerEvent]
  rcases receivePeerEventInner_cases env now n event with ⟨-, reason, hr⟩ | ⟨hp, -, n₁, -, hrep, -, -, hstore, hr⟩
  · rw [hr]
    exact admitPeerEvent_socialStore env now n event
  · rw [hr, ← hstore]
    refine routePeerEvent_untaken fun htaken => hn ?_
    obtain ⟨a, hd, hv⟩ := htaken
    exact ⟨a, hp, hd, hrep ▸ hv⟩

end Node

/-! ## The host with the store -/

/-- The open file: what `unixepoch()` reads, and the tables. -/
structure SocialFile where
  now : Int
  store : SocialStore

/-- Write to the tables. -/
def SocialFile.set (f : SocialFile) (store : SocialStore) : SocialFile := { f with store := store }

/-- The host whose cache is the store. -/
def Host.withSocialStore (h : Host) : Host := { h with
  SocialDb := SocialFile
  ensureUser f pubkey := (.ok (), f.set (f.store.ensureUser f.now pubkey))
  insertPost f p := let r := f.store.insertPost f.now p; (r.1, f.set r.2)
  insertComment f c := let r := f.store.insertComment f.now c; (r.1, f.set r.2)
  vote f voter target direction table := let r := f.store.vote f.now voter target direction table; (r.1, f.set r.2)
  follow f follower followed := (.ok (), f.set (f.store.follow f.now follower followed))
  unfollow f follower followed := (.ok (), f.set (f.store.unfollow follower followed))
  insertMessage f id sender recipient body := (.ok (), f.set (f.store.insertMessage f.now id sender recipient body))
  submitReport f id reporter target reason := (.ok (), f.set (f.store.submitReport f.now id reporter target reason)) }

/-- The same action on the tables. -/
def SocialAction.apply (now : Int) (id author : String) (s : SocialStore) : SocialAction → SocialStore
  | post p => ((s.ensureUser now p.authorPubkey).insertPost now p).2
  | comment c => ((s.ensureUser now c.authorPubkey).insertComment now c).2
  | vote target direction table => (s.vote now author target direction table).2
  | follow followed unfollow => if unfollow then s.unfollow author followed else s.follow now author followed
  | message recipient body => s.insertMessage now id author recipient body
  | report target reason => s.submitReport now id author target reason

/-- An action keeps the foreign keys. -/
theorem SocialAction.foreignKeys {s : SocialStore} (hs : s.ForeignKeys) (now : Int) (id author : String)
    (a : SocialAction) : (a.apply now id author s).ForeignKeys := by
  cases a with
  | post p => exact (hs.ensureUser now p.authorPubkey).insertPost now p
  | comment c => exact (hs.ensureUser now c.authorPubkey).insertComment now c
  | vote target direction table => exact hs.vote now author target direction table
  | follow followed unfollow =>
    cases unfollow <;> exact ⟨hs.postAuthors, hs.authors, hs.posts, hs.parents⟩
  | message recipient body => exact ⟨hs.postAuthors, hs.authors, hs.posts, hs.parents⟩
  | report target reason => exact ⟨hs.postAuthors, hs.authors, hs.posts, hs.parents⟩

namespace Node

/-- The tables of a node that opened the file. -/
def tables (n : Node h.withSocialStore) : Option SocialStore := n.socialStore.map SocialFile.store

/-- The file reads the clock. -/
def atClock (env : Env) (n : Node h.withSocialStore) : Node h.withSocialStore :=
  { n with socialStore := n.socialStore.map fun f => { f with now := env.clock } }

/-- A reception by a node with the store. -/
def receive (env : Env) (now : Nat) (n : Node h.withSocialStore) (event : MeshEvent) : Received h.withSocialStore :=
  (n.atClock env).receivePeerEvent env now event

variable {env : Env} {now : Nat} {n : Node h.withSocialStore} {event : MeshEvent} {s : SocialStore}

/-- The clock of the file is none of the gate's. -/
theorem takes_atClock {a : SocialAction} : Takes env now (n.atClock env) event a ↔ Takes env now n event a :=
  ⟨fun ht => ⟨ht.passes, ht.decodes, ht.valid⟩, fun ht => ⟨ht.passes, ht.decodes, ht.valid⟩⟩

/-- A reception applies the action of the event it takes to the tables, if there are any. -/
theorem receive_tables_map {a : SocialAction} (ht : Takes env now n event a) :
    (n.receive env now event).node.tables = n.tables.map (a.apply env.clock env.socialId event.pubkey) := by
  rw [receive, tables, (receive_taken (takes_atClock.mpr ht)).2, tables, atClock]
  cases hstore : n.socialStore with
  | none => rfl
  | some f =>
    cases a with
    | follow followed unfollow => cases unfollow <;> rfl
    | _ => rfl

/-- **A reception applies the action of the event it takes to the tables**, -/
theorem receive_tables {a : SocialAction} (hs : n.tables = some s) (ht : Takes env now n event a) :
    (n.receive env now event).outcome = .social a.outcome ∧
      (n.receive env now event).node.tables = some (a.apply env.clock env.socialId event.pubkey s) := by
  refine ⟨(receive_taken (takes_atClock.mpr ht)).1, ?_⟩
  rw [receive_tables_map ht, hs]
  rfl

/-- and leaves them alone if it takes none. -/
theorem receive_tables_untaken (hn : ¬∃ a, Takes env now n event a) :
    (n.receive env now event).node.tables = n.tables := by
  have hn' : ¬∃ a, Takes env now (n.atClock env) event a := fun ⟨a, ht⟩ => hn ⟨a, takes_atClock.mp ht⟩
  rw [receive, tables, receive_untaken hn', tables]
  change (n.socialStore.map fun f => { f with now := env.clock }).map SocialFile.store = _
  cases n.socialStore <;> rfl

/-- **Every reception keeps the foreign keys.** -/
theorem receive_foreignKeys (hs : n.tables = some s) (hkeys : s.ForeignKeys) (env : Env) (now : Nat)
    (event : MeshEvent) : ∃ s', (n.receive env now event).node.tables = some s' ∧ s'.ForeignKeys := by
  by_cases htaken : ∃ a, Takes env now n event a
  · obtain ⟨a, ht⟩ := htaken
    exact ⟨_, (receive_tables hs ht).2, a.foreignKeys hkeys _ _ _⟩
  · exact ⟨s, (receive_tables_untaken htaken).trans hs, hkeys⟩

end Node

end Onde

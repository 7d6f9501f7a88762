import Onde.Node.Trusted

/-!
# Is a redelivery harmless to the store?

* `SocialStore.Same`: the tables are the same, apart from the users;
* `SocialAction.Inert`: what an action has to find in the store to leave it the same (`apply_same_iff`);
* `replay_harmless_iff`: a redelivery of an event that was taken is harmless exactly when it is refused, or the store
  holds already, to the second, what it writes;
* `message_twice`: a message that is stored twice.
-/

namespace Onde

open Lib Crypto Reputation Protocol Social Storage

namespace Social.SocialStore

variable {now : Int} {s s' : SocialStore} {id author : String}

/-- The tables of the content are the same, row by row and column by column. -/
structure Same (s s' : SocialStore) : Prop where
  posts : s'.posts = s.posts
  comments : s'.comments = s.comments
  votes : s'.votes = s.votes
  follows : s'.follows = s.follows
  messages : s'.messages = s.messages
  reports : s'.reports = s.reports
  orphans : s'.orphans = s.orphans

theorem Same.refl (s : SocialStore) : s.Same s := ⟨rfl, rfl, rfl, rfl, rfl, rfl, rfl⟩

/-- A new user changes no other table. -/
theorem same_ensureUser_iff {pubkey : String} : (s.ensureUser now pubkey).Same s' ↔ s.Same s' :=
  ⟨fun h => ⟨h.posts, h.comments, h.votes, h.follows, h.messages, h.reports, h.orphans⟩,
    fun h => ⟨h.posts, h.comments, h.votes, h.follows, h.messages, h.reports, h.orphans⟩⟩

/-! ## Posts -/

/-- A promotion that promotes nothing changes no table. -/
theorem same_promoteOrphanComments (now : Int) (postId : String) (hn : ∀ k, ¬s.Promoted postId k) :
    s.Same (s.promoteOrphanComments now postId) := by
  have hp := promotes now s postId
  refine ⟨hp.posts, ?_, hp.votes, hp.follows, hp.messages, hp.reports, ?_⟩
  · exact Finmap.ext_lookup fun k => lookup_comments_of_not_promoted (hn k) now
  · exact Finmap.ext_lookup fun k => lookup_orphans_of_not_promoted (hn k) now

/-- One that promotes something empties its place in the buffer. -/
theorem not_promoted_of_orphans {postId : String} (h : (s.promoteOrphanComments now postId).orphans = s.orphans)
    (k : String) : ¬s.Promoted postId k := by
  intro hk
  obtain ⟨row, hrow, -⟩ := mem_waitingFor.mp hk.1
  have hnone := hk.lookup_orphans now
  rw [h, hrow] at hnone
  cases hnone

/-- What a post has to find: that a comment refuses it, or its own row, new, with no comment under it and none to
promote. -/
def PostInert (now : Int) (s : SocialStore) (post : SocialPost) : Prop :=
  s.cutsReplies post.id = true ∨ (s.posts.lookup post.id = some (post.row now) ∧
    (∀ k c, s.comments.lookup k = some c → c.postId ≠ post.id) ∧ ∀ k, ¬s.Promoted post.id k)

theorem replacePost_same {post : SocialPost} (hrow : s.posts.lookup post.id = some (post.row now))
    (hnone : ∀ k c, s.comments.lookup k = some c → c.postId ≠ post.id) : s.replacePost now post = s := by
  have hkept : s.keptComments post.id = s.comments :=
    Table.filter_eq_self fun k c hc => decide_eq_true fun hg => hnone k c hc hg.2
  rw [replacePost, hkept, Table.put_of_lookup hrow]

theorem insertPost_same_iff (now : Int) {post : SocialPost} (hauthor : post.authorPubkey ∈ s.users) :
    s.Same (s.insertPost now post).2 ↔ s.PostInert now post := by
  by_cases hr : s.refuses post
  · have hcuts := hr.resolve_left (not_not.mpr hauthor)
    rw [insertPost_refused hr]
    exact iff_of_true (Same.refl s) (.inl hcuts)
  rw [insertPost_stored hr]
  have hcuts : ¬s.cutsReplies post.id = true := fun hc => hr (.inr hc)
  constructor
  · intro hsame
    have hposts := hsame.posts
    rw [(promotes now _ post.id).posts] at hposts
    have hrow := Table.put_eq_self_iff.mp hposts
    have hpromoted := not_promoted_of_orphans (s := s.replacePost now post) hsame.orphans
    have hcomments : s.keptComments post.id = s.comments :=
      (same_promoteOrphanComments now post.id hpromoted).comments.symm.trans hsame.comments
    have hnone : ∀ k c, s.comments.lookup k = some c → c.postId ≠ post.id := by
      intro k c hc hpost
      rw [← hcomments] at hc
      exact of_decide_eq_true (Table.lookup_filter_some.mp hc).2 ⟨Table.mem_of_lookup hrow, hpost⟩
    rw [replacePost_same hrow hnone] at hpromoted
    exact .inr ⟨hrow, hnone, hpromoted⟩
  · rintro (hc | ⟨hrow, hnone, hpromoted⟩)
    · exact absurd hc hcuts
    · rw [replacePost_same hrow hnone]
      exact same_promoteOrphanComments now post.id hpromoted

/-! ## Comments -/

/-- The buffer is full of comments that come after this one. -/
def FullOfLater (now : Int) (s : SocialStore) (comment : SocialComment) : Prop :=
  comment.id ∉ s.orphans ∧ s.orphans.keys.card = maxOrphanComments ∧
    ∀ k r, s.orphans.lookup k = some r → toLex (now, comment.id) < toLex (r.createdAt, k)

/-- What a comment has to find: stored, its own row, new, with none buffered under its id and none to promote;
buffered, its own row, new, or no place. -/
def CommentInert (now : Int) (s : SocialStore) (comment : SocialComment) : Prop :=
  if s.ready comment then s.comments.lookup comment.id = some (comment.row now) ∧ comment.id ∉ s.orphans ∧
    ∀ k, ¬s.Promoted comment.postId k
  else (s.orphans.lookup comment.id = some (comment.orphanRow now) ∧ s.orphans.keys.card ≤ maxOrphanComments) ∨
    s.FullOfLater now comment

theorem storeComment_same {comment : SocialComment} (hrow : s.comments.lookup comment.id = some (comment.row now))
    (horphan : comment.id ∉ s.orphans) : s.storeComment now comment = s.ensureUser now comment.authorPubkey := by
  have hcomments : (s.ensureUser now comment.authorPubkey).comments.put comment.id (comment.row now) = s.comments :=
    Table.put_of_lookup hrow
  have horphans : (s.ensureUser now comment.authorPubkey).orphans.remove comment.id = s.orphans :=
    Table.remove_of_notMem horphan
  rw [storeComment, hcomments, horphans]
  rfl

theorem bufferComment_same_iff {comment : SocialComment} : s.Same (s.bufferComment now comment) ↔
    (s.orphans.lookup comment.id = some (comment.orphanRow now) ∧ s.orphans.keys.card ≤ maxOrphanComments) ∨
      s.FullOfLater now comment := by
  have horphans : s.Same (s.bufferComment now comment) ↔ (s.bufferComment now comment).orphans = s.orphans :=
    ⟨Same.orphans, fun h => ⟨rfl, rfl, rfl, rfl, rfl, rfl, h⟩⟩
  rw [horphans, bufferComment, Table.keepNewest_put_eq_iff, FullOfLater]
  refine or_congr Iff.rfl (and_congr_right fun hnew => and_congr_right fun _ => ?_)
  have hage : ∀ k r, s.orphans.lookup k = some r →
      (s.orphans.put comment.id (comment.orphanRow now)).age OrphanRow.createdAt k = toLex (r.createdAt, k) := by
    intro k r hk
    have hne : k ≠ comment.id := fun he => hnew (he ▸ Table.mem_of_lookup hk)
    rw [Table.age, Table.lookup_put, if_neg hne, hk, Option.elim_some]
  have hown : (s.orphans.put comment.id (comment.orphanRow now)).age OrphanRow.createdAt comment.id =
      toLex (now, comment.id) := by
    rw [Table.age, Table.lookup_put, if_pos rfl, Option.elim_some]
    rfl
  rw [hown]
  constructor
  · intro hlt k r hk
    have := hlt k (Table.mem_of_lookup hk)
    rwa [hage k r hk] at this
  · intro hlt k hk
    obtain ⟨r, hr⟩ := Finmap.mem_iff.mp hk
    rw [hage k r hr]
    exact hlt k r hr

theorem insertComment_same_iff (now : Int) (s : SocialStore) (comment : SocialComment) :
    s.Same (s.insertComment now comment).2 ↔ s.CommentInert now comment := by
  unfold CommentInert
  by_cases hr : s.ready comment
  swap
  · rw [if_neg hr, insertComment_waits hr]
    exact bufferComment_same_iff
  rw [if_pos hr]
  constructor
  · intro hsame
    have hgone := insertComment_unbuffered now hr
    rw [hsame.orphans] at hgone
    have horphan : comment.id ∉ s.orphans := Finmap.lookup_eq_none.mp hgone
    rw [insertComment_ready hr] at hsame
    have hstored : (s.storeComment now comment).orphans = s.orphans := Table.remove_of_notMem horphan
    have hpromoted := not_promoted_of_orphans (hsame.orphans.trans hstored.symm)
    have hcomments : s.comments.put comment.id (comment.row now) = s.comments :=
      (same_promoteOrphanComments now comment.postId hpromoted).comments.symm.trans hsame.comments
    have hrow := Table.put_eq_self_iff.mp hcomments
    rw [storeComment_same hrow horphan] at hpromoted
    exact ⟨hrow, horphan, hpromoted⟩
  · rintro ⟨hrow, horphan, hpromoted⟩
    rw [insertComment_ready hr, storeComment_same hrow horphan]
    exact same_ensureUser_iff.mp (same_promoteOrphanComments now comment.postId hpromoted)

/-! ## Votes -/

theorem vote_same_iff {target table : String} {direction : Int} :
    s.Same (s.vote now author target direction table).2 ↔
      (direction ≠ -1 ∧ direction ≠ 1) ∨ s.votes.lookup (author, target) = some ⟨direction, now⟩ := by
  by_cases hd : direction ≠ -1 ∧ direction ≠ 1
  · rw [vote_refused s hd]
    exact iff_of_true (Same.refl s) (.inl hd)
  rw [vote_counts s hd]
  constructor
  · intro hsame
    have hvotes := hsame.votes
    rw [addScore_votes] at hvotes
    exact .inr (Table.put_eq_self_iff.mp hvotes)
  · rintro (hd' | hrow)
    · exact absurd hd' hd
    · -- the same direction again moves no score
      have hzero : direction - s.voteOf author target = 0 := by
        rw [voteOf, hrow]
        exact Int.sub_self direction
      rw [hzero, addScore_zero, Table.put_of_lookup hrow]
      exact Same.refl s

end Social.SocialStore

/-! ## Actions -/

/-- What an action has to find in the store to leave it the same. -/
def SocialAction.Inert (now : Int) (id author : String) (s : SocialStore) : SocialAction → Prop
  | post p => s.PostInert now p
  | comment c => s.CommentInert now c
  | vote target direction _ =>
    (direction ≠ -1 ∧ direction ≠ 1) ∨ s.votes.lookup (author, target) = some ⟨direction, now⟩
  | follow followed unfollow => if unfollow then (author, followed) ∉ s.follows else (author, followed) ∈ s.follows
  | message recipient body => s.messages.lookup id = some ⟨author, recipient, body, none, now⟩
  | report target reason => s.reports.lookup id = some ⟨author, target, reason, "open", now, none⟩

/-- **An action leaves the store the same exactly when it is inert.** -/
theorem SocialAction.apply_same_iff (now : Int) (id author : String) (s : SocialStore) (a : SocialAction) :
    s.Same (a.apply now id author s) ↔ a.Inert now id author s := by
  cases a with
  | post p =>
    have hmem : p.authorPubkey ∈ (s.ensureUser now p.authorPubkey).users := Table.mem_putNew.mpr (.inl rfl)
    exact SocialStore.same_ensureUser_iff.symm.trans (SocialStore.insertPost_same_iff now hmem)
  | comment c =>
    exact SocialStore.same_ensureUser_iff.symm.trans
      (SocialStore.insertComment_same_iff now (s.ensureUser now c.authorPubkey) c)
  | vote target direction table => exact SocialStore.vote_same_iff
  | follow followed unfollow =>
    cases unfollow with
    | false => exact ⟨fun hs => Table.putNew_eq_self_iff.mp hs.follows,
        fun hi => ⟨rfl, rfl, rfl, Table.putNew_eq_self_iff.mpr hi, rfl, rfl, rfl⟩⟩
    | true => exact ⟨fun hs => Table.remove_eq_self_iff.mp hs.follows,
        fun hi => ⟨rfl, rfl, rfl, Table.remove_eq_self_iff.mpr hi, rfl, rfl, rfl⟩⟩
  | message recipient body => exact ⟨fun hs => Table.put_eq_self_iff.mp hs.messages,
      fun hi => ⟨rfl, rfl, rfl, rfl, Table.put_eq_self_iff.mpr hi, rfl, rfl⟩⟩
  | report target reason => exact ⟨fun hs => Table.put_eq_self_iff.mp hs.reports,
      fun hi => ⟨rfl, rfl, rfl, rfl, rfl, Table.put_eq_self_iff.mpr hi, rfl⟩⟩

/-- A follow is inert once it holds. -/
theorem SocialAction.follow_inert (followed author : String) (s : SocialStore) (now now' : Int) (id id' : String) :
    (follow followed false).Inert now' id' author ((follow followed false).apply now id author s) :=
  Table.mem_putNew.mpr (.inl rfl)

namespace Node

variable {h : Host} {env : Env} {now : Nat} {n : Node h.withSocialStore} {event : MeshEvent} {a : SocialAction}

/-- **When a redelivery is harmless to the store.** An event that was taken once, received again by a node in any later
state, whatever happened in between: the tables stay the same exactly when the gate or the proof of work refuses it, or
its action is inert on the store it finds. -/
theorem replay_harmless_iff (ht : Takes env now n event a) {n' : Node h.withSocialStore} {s : SocialStore}
    (hs : n'.tables = some s) (env' : Env) (now' : Nat) :
    (∃ s', (n'.receive env' now' event).node.tables = some s' ∧ s.Same s') ↔
      (n'.verdict now' event).passes = false ∨
      event.validateWithReputation h.toPrimitives env'.clock n'.reputation ≠ .ok () ∨
      a.Inert env'.clock env'.socialId event.pubkey s := by
  by_cases hpass : (n'.verdict now' event).passes = true
  swap
  · have hrefused : ¬∃ b, Takes env' now' n' event b := fun ⟨_, hb⟩ => hpass hb.passes
    rw [receive_tables_untaken hrefused, hs]
    exact iff_of_true ⟨s, rfl, SocialStore.Same.refl s⟩ (.inl (Bool.eq_false_iff.mpr hpass))
  by_cases hvalid : event.validateWithReputation h.toPrimitives env'.clock n'.reputation = .ok ()
  swap
  · have hrefused : ¬∃ b, Takes env' now' n' event b := fun ⟨_, hb⟩ => hvalid hb.valid
    rw [receive_tables_untaken hrefused, hs]
    exact iff_of_true ⟨s, rfl, SocialStore.Same.refl s⟩ (.inr (.inl hvalid))
  obtain ⟨-, htables⟩ := receive_tables hs (show Takes env' now' n' event a from ⟨hpass, ht.decodes, hvalid⟩)
  rw [htables]
  have hiff := SocialAction.apply_same_iff env'.clock env'.socialId event.pubkey s a
  constructor
  · rintro ⟨s', hs', hsame⟩
    obtain rfl := Option.some.inj hs'
    exact .inr (.inr (hiff.mp hsame))
  · rintro (hrefused | hinvalid | hinert)
    · rw [hpass] at hrefused
      cases hrefused
    · exact absurd hvalid hinvalid
    · exact ⟨_, rfl, hiff.mpr hinert⟩

end Node

/-! ## A follow and a message, twice -/

/-- A minute after the first delivery, with another identifier. -/
def aMinuteLater : Env := { Env.still 1700000060 with socialId := "00000000-0000-4000-8000-000000000001" }

/-- The node takes an event of the author, and takes it again. -/
theorem author_taken {kind : OndeMessageType} {content : String} {a : SocialAction} (env env' : Env) (now now' : Nat)
    (hd : Decodes socialHost.withSocialStore (signedBy 1 kind content 1700000000) a) (he : env.clock = 1700000000)
    (he' : env'.clock = 1700000060) :
    let event := signedBy 1 kind content 1700000000
    let n := (cacheNode.receive env now event).node
    Node.Takes env now cacheNode event a ∧ n.tables = some (a.apply env.clock env.socialId knownAuthor .empty) ∧
      Node.Takes env' now' n event a := by
  have hkey : (signedBy 1 kind content 1700000000).pubkey = knownAuthor := author_pubkey
  have hw : cacheNode.Welcomes (signedBy 1 kind content 1700000000).pubkey 12 := cacheNode_welcomes (.inl hkey)
  have ht := signedBy_taken env now hw hd (by rw [he]; decide)
  obtain ⟨-, htables⟩ := Node.receive_tables (s := .empty) rfl ht
  rw [hkey] at htables
  exact ⟨ht, htables, signedBy_taken env' now' (hw.receive ht) hd (by rw [he']; decide)⟩

/-- A follow changes nothing the second time. -/
theorem follow_harmless :
    let event := signedBy 1 .socialFollow followText 1700000000
    let n := (cacheNode.receive (.still 1700000000) 1700000000 event).node
    ∃ s s', n.tables = some s ∧ (n.receive aMinuteLater 1700000060 event).node.tables = some s' ∧ s.Same s' := by
  obtain ⟨ht, htables, -⟩ := author_taken (.still 1700000000) aMinuteLater 1700000000 1700000060
    (follow_decodes 1700000000) rfl rfl
  have hinert := SocialAction.follow_inert knownBeneficiary knownAuthor .empty (Env.still 1700000000).clock
    aMinuteLater.clock (Env.still 1700000000).socialId aMinuteLater.socialId
  rw [← author_pubkey, ← signedBy_pubkey 1 .socialFollow followText 1700000000] at hinert htables
  obtain ⟨s', hs', hsame⟩ := (Node.replay_harmless_iff ht htables aMinuteLater 1700000060).mpr (.inr (.inr hinert))
  exact ⟨_, s', htables, hs', hsame⟩

/-- **A message is stored twice.** -/
theorem message_twice :
    let event := signedBy 1 .socialMessage messageText 1700000000
    let r := cacheNode.receive (.still 1700000000) 1700000000 event
    r.outcome = .social .messageStored ∧ ∃ s s', r.node.tables = some s ∧
      (r.node.receive aMinuteLater 1700000060 event).node.tables = some s' ∧ ¬s.Same s' := by
  obtain ⟨ht, htables, hagain⟩ := author_taken (.still 1700000000) aMinuteLater 1700000000 1700000060
    (message_decodes 1700000000) rfl rfl
  obtain ⟨houtcome, -⟩ := Node.receive_tables (s := .empty) rfl ht
  have htwice := (Node.receive_tables htables hagain).2
  refine ⟨houtcome, _, _, htables, htwice, fun hsame => ?_⟩
  have hinert := (SocialAction.apply_same_iff _ _ _ _ _).mp hsame
  -- the second row has an identifier of its own
  have hfresh : aMinuteLater.socialId ≠ (Env.still 1700000000).socialId := by decide +kernel
  have hrow : (SocialStore.empty.messages.put (Env.still 1700000000).socialId
      ⟨knownAuthor, knownBeneficiary, "OK", none, 1700000000⟩).lookup aMinuteLater.socialId = some _ := hinert
  rw [Table.lookup_put, if_neg hfresh] at hrow
  cases hrow

end Onde

import Onde.Node.Trusted

/-!
# Does the content of an author stay its own?

* `SocialStore.KeepsContent`: what others than an author wrote is still there, with the same content;
* `SocialAction.Spares`: the actions of the author that keep it (`apply_keeps_iff`);
* `ownership_iff`: a reception keeps the content of all others exactly when the action it takes spares it;
* `post_taken_over`: a post of the node whose id another author uses.
-/

namespace Onde

open Lib Crypto Reputation Protocol Social Storage

namespace Social

/-- What an author wrote, and under what. -/
structure Content where
  author : String
  title : String
  body : String
  community : String
  parent : Option String
  deriving DecidableEq

def PostRow.content (r : PostRow) : Content := ⟨r.authorPubkey, r.title, r.body, r.communitySlug, none⟩

def CommentRow.content (r : CommentRow) : Content := ⟨r.authorPubkey, "", r.body, "", r.parentId⟩

def OrphanRow.content (r : OrphanRow) : Content := ⟨r.authorPubkey, "", r.body, "", r.parentId⟩

@[simp] theorem OrphanRow.promoted_content (now : Int) (r : OrphanRow) : (r.promoted now).content = r.content := rfl

namespace SocialStore

variable {now : Int} {s t : SocialStore} {author postId : String} {post : SocialPost} {comment : SocialComment}

/-- Every post and stored comment that is not by the author is still there with its content, and so is every buffered
comment, buffered or stored. -/
structure KeepsContent (author : String) (s s' : SocialStore) : Prop where
  posts : ∀ k r, s.posts.lookup k = some r → r.authorPubkey ≠ author →
    ∃ r', s'.posts.lookup k = some r' ∧ r'.content = r.content
  comments : ∀ k c, s.comments.lookup k = some c → c.authorPubkey ≠ author →
    ∃ c', s'.comments.lookup k = some c' ∧ c'.content = c.content
  orphans : ∀ k o, s.orphans.lookup k = some o → o.authorPubkey ≠ author →
    (∃ o', s'.orphans.lookup k = some o' ∧ o'.content = o.content) ∨
      ∃ c', s'.comments.lookup k = some c' ∧ c'.content = o.content

/-- Tables with the same rows keep everything. -/
theorem keeps_of_eq {s' : SocialStore} (hp : s'.posts = s.posts) (hc : s'.comments = s.comments)
    (ho : s'.orphans = s.orphans) : s.KeepsContent author s' :=
  ⟨fun _ r hr _ => ⟨r, hp ▸ hr, rfl⟩, fun _ c hc' _ => ⟨c, hc ▸ hc', rfl⟩, fun _ o ho' _ => .inl ⟨o, ho ▸ ho', rfl⟩⟩

/-- A new user takes nothing. -/
theorem keeps_ensureUser_iff {s' : SocialStore} {pubkey : String} :
    (s.ensureUser now pubkey).KeepsContent author s' ↔ s.KeepsContent author s' :=
  ⟨fun h => ⟨h.posts, h.comments, h.orphans⟩, fun h => ⟨h.posts, h.comments, h.orphans⟩⟩

/-! ## Promotion -/

/-- A comment that is not stored is there after a promotion only if it was buffered and let through. -/
theorem promote_stores_iff {k : String} {content : Content} (hk : t.comments.lookup k = none) :
    (∃ c', (t.promoteOrphanComments now postId).comments.lookup k = some c' ∧ c'.content = content) ↔
      t.Promoted postId k ∧ ∃ o, t.orphans.lookup k = some o ∧ o.content = content := by
  by_cases hp : t.Promoted postId k
  · obtain ⟨o, ho, -⟩ := mem_waitingFor.mp hp.1
    simp [hp.lookup_comments ho, hk, ho, hp]
  · simp [lookup_comments_of_not_promoted hp, hk, hp]

/-- A buffered one is kept unless it is let through and a stored one of its id says something else. -/
theorem promote_keeps_orphan_iff {k : String} {o : OrphanRow} (ho : t.orphans.lookup k = some o) :
    ((∃ o', (t.promoteOrphanComments now postId).orphans.lookup k = some o' ∧ o'.content = o.content) ∨
      ∃ c', (t.promoteOrphanComments now postId).comments.lookup k = some c' ∧ c'.content = o.content) ↔
      (t.Promoted postId k → ∀ c, t.comments.lookup k = some c → c.content = o.content) := by
  by_cases hp : t.Promoted postId k
  · rw [hp.lookup_orphans, hp.lookup_comments ho]
    cases hc : t.comments.lookup k <;> simp [hp]
  · rw [lookup_orphans_of_not_promoted hp, ho]
    simp [hp]

/-- The buffered comments of others that a promotion lets through are not contradicted by stored ones. -/
def Agrees (author postId : String) (t : SocialStore) : Prop :=
  ∀ k o, t.orphans.lookup k = some o → o.authorPubkey ≠ author → t.Promoted postId k →
    ∀ c, t.comments.lookup k = some c → c.content = o.content

/-! ## Posts -/

/-- A post spares the others: it is refused; or it has the content of the post of another author in its place, each
comment of another author that it deletes is promoted again, and the promotion agrees with what is stored. -/
def PostSpares (now : Int) (author : String) (s : SocialStore) (post : SocialPost) : Prop :=
  s.cutsReplies post.id = true ∨
    (∀ r, s.posts.lookup post.id = some r → r.authorPubkey ≠ author → (post.row now).content = r.content) ∧
    (∀ k c, s.comments.lookup k = some c → c.authorPubkey ≠ author → post.id ∈ s.posts → c.postId = post.id →
      (s.replacePost now post).Promoted post.id k ∧ ∃ o, s.orphans.lookup k = some o ∧ o.content = c.content) ∧
    (s.replacePost now post).Agrees author post.id

theorem insertPost_keeps_iff (now : Int) (author : String) (hauthor : post.authorPubkey ∈ s.users) :
    s.KeepsContent author (s.insertPost now post).2 ↔ s.PostSpares now author post := by
  by_cases hr : s.refuses post
  · rw [insertPost_refused hr]
    exact iff_of_true (keeps_of_eq rfl rfl rfl) (.inl (hr.resolve_left (not_not.mpr hauthor)))
  have hcuts : ¬s.cutsReplies post.id = true := fun hc => hr (.inr hc)
  rw [insertPost_stored hr, PostSpares, or_iff_right hcuts]
  have hposts : ((s.replacePost now post).promoteOrphanComments now post.id).posts =
      s.posts.put post.id (post.row now) := (promotes now _ post.id).posts
  -- a comment is deleted exactly if it is under the post that is replaced
  have hdeleted : ∀ k c, s.comments.lookup k = some c → post.id ∈ s.posts → c.postId = post.id →
      (s.replacePost now post).comments.lookup k = none := by
    intro k c hc hin hpost
    refine Option.eq_none_iff_forall_ne_some.mpr fun c' hc' => ?_
    obtain ⟨hold, hkept⟩ := Table.lookup_filter_some.mp hc'
    obtain rfl := Option.some.inj (hc.symm.trans hold)
    exact of_decide_eq_true hkept ⟨hin, hpost⟩
  have hstays : ∀ k c, s.comments.lookup k = some c → ¬(post.id ∈ s.posts ∧ c.postId = post.id) →
      (s.replacePost now post).comments.lookup k = some c := by
    intro k c hc hnot
    exact Table.lookup_filter_some.mpr ⟨hc, decide_eq_true hnot⟩
  constructor
  · intro hkeeps
    refine ⟨fun r hr hne => ?_, fun k c hc hne hin hpost => ?_, fun k o ho hne => ?_⟩
    · obtain ⟨r', hr', hcontent⟩ := hkeeps.posts _ r hr hne
      rw [hposts, Table.lookup_put, if_pos rfl] at hr'
      rw [← hcontent, ← Option.some.inj hr']
    · have hgone := hdeleted k c hc hin hpost
      exact (promote_stores_iff (t := s.replacePost now post) hgone).mp (hkeeps.comments k c hc hne)
    · exact (promote_keeps_orphan_iff ho).mp (hkeeps.orphans k o ho hne)
  · rintro ⟨hpost, hcomments, hagrees⟩
    refine ⟨fun k r hr hne => ?_, fun k c hc hne => ?_, fun k o ho hne => ?_⟩
    · rw [hposts, Table.lookup_put]
      by_cases hk : k = post.id
      · rw [if_pos hk]
        rw [hk] at hr
        exact ⟨_, rfl, hpost r hr hne⟩
      · rw [if_neg hk]
        exact ⟨r, hr, rfl⟩
    · by_cases hdel : post.id ∈ s.posts ∧ c.postId = post.id
      · exact (promote_stores_iff (hdeleted k c hc hdel.1 hdel.2)).mpr (hcomments k c hc hne hdel.1 hdel.2)
      · exact ⟨c, promote_keeps_stored (hstays k c hc hdel), rfl⟩
    · exact (promote_keeps_orphan_iff (t := s.replacePost now post) ho).mpr (hagrees k o ho hne)

/-! ## Comments -/

/-- A comment spares the others. If it can be stored: it has the content of the comments of other authors stored or
buffered under its id, and the promotion agrees with what is stored. If it waits: every buffered comment of another
author is stored too, or it stays within the cap, and it is not under this id, or has the same content. -/
def CommentSpares (now : Int) (author : String) (s : SocialStore) (comment : SocialComment) : Prop :=
  if s.ready comment then
    (∀ old, s.comments.lookup comment.id = some old → old.authorPubkey ≠ author →
      (comment.row now).content = old.content) ∧
    (∀ old, s.orphans.lookup comment.id = some old → old.authorPubkey ≠ author →
      (comment.row now).content = old.content) ∧
    (s.storeComment now comment).Agrees author comment.postId
  else ∀ k o, s.orphans.lookup k = some o → o.authorPubkey ≠ author →
    ((s.orphans.put comment.id (comment.orphanRow now)).rankDesc OrphanRow.createdAt
      (s.orphans.put comment.id (comment.orphanRow now)).keys k < maxOrphanComments ∧
      (k = comment.id → (comment.orphanRow now).content = o.content)) ∨
    ∃ c, s.comments.lookup k = some c ∧ c.content = o.content

/-- A buffered row after one more is buffered. -/
theorem buffered_iff {k : String} {o : OrphanRow} (ho : s.orphans.lookup k = some o) :
    (∃ o', (s.bufferComment now comment).orphans.lookup k = some o' ∧ o'.content = o.content) ↔
      (s.orphans.put comment.id (comment.orphanRow now)).rankDesc OrphanRow.createdAt
        (s.orphans.put comment.id (comment.orphanRow now)).keys k < maxOrphanComments ∧
      (k = comment.id → (comment.orphanRow now).content = o.content) := by
  rw [bufferComment, Table.lookup_keepNewest, Table.lookup_put, ho]
  split
  case isFalse hrank => simp [hrank]
  case isTrue hrank =>
    rw [and_iff_right hrank]
    by_cases hk : k = comment.id <;> simp [hk]

theorem bufferComment_keeps_iff : s.KeepsContent author (s.bufferComment now comment) ↔
    ∀ k o, s.orphans.lookup k = some o → o.authorPubkey ≠ author →
      ((s.orphans.put comment.id (comment.orphanRow now)).rankDesc OrphanRow.createdAt
        (s.orphans.put comment.id (comment.orphanRow now)).keys k < maxOrphanComments ∧
        (k = comment.id → (comment.orphanRow now).content = o.content)) ∨
      ∃ c, s.comments.lookup k = some c ∧ c.content = o.content := by
  constructor
  · intro hkeeps k o ho hne
    exact (hkeeps.orphans k o ho hne).imp_left (buffered_iff ho).mp
  · intro hall
    refine ⟨fun _ r hr _ => ⟨r, hr, rfl⟩, fun _ c hc _ => ⟨c, hc, rfl⟩, fun k o ho hne => ?_⟩
    exact (hall k o ho hne).imp_left (buffered_iff ho).mpr

theorem insertComment_keeps_iff (now : Int) (author : String) (s : SocialStore) (comment : SocialComment) :
    s.KeepsContent author (s.insertComment now comment).2 ↔ s.CommentSpares now author comment := by
  unfold CommentSpares
  by_cases hr : s.ready comment
  swap
  · rw [if_neg hr, insertComment_waits hr]
    exact bufferComment_keeps_iff
  have hown := insertComment_own now hr
  have hcleared := insertComment_unbuffered now hr
  rw [insertComment_ready hr] at hown hcleared
  rw [if_pos hr, insertComment_ready hr]
  have hposts : ((s.storeComment now comment).promoteOrphanComments now comment.postId).posts = s.posts :=
    (promotes now _ comment.postId).posts
  have horphan : ∀ k, k ≠ comment.id → (s.storeComment now comment).orphans.lookup k = s.orphans.lookup k :=
    fun k hk => (storeComment_orphans now s comment k).trans (if_neg hk)
  have hstored : ∀ k, k ≠ comment.id → (s.storeComment now comment).comments.lookup k = s.comments.lookup k :=
    fun k hk => (storeComment_comments now s comment k).trans (if_neg hk)
  constructor
  · intro hkeeps
    refine ⟨fun old hold hne => ?_, fun old hold hne => ?_, fun k o ho hne => ?_⟩
    · obtain ⟨c', hc', hcontent⟩ := hkeeps.comments _ old hold hne
      rw [hown] at hc'
      rw [← hcontent, ← Option.some.inj hc']
    · rcases hkeeps.orphans _ old hold hne with ⟨o', ho', -⟩ | ⟨c', hc', hcontent⟩
      · rw [hcleared] at ho'
        cases ho'
      · rw [hown] at hc'
        rw [← hcontent, ← Option.some.inj hc']
    · have hk : k ≠ comment.id := by
        rintro rfl
        rw [storeComment_orphans, if_pos rfl] at ho
        cases ho
      exact (promote_keeps_orphan_iff ho).mp (hkeeps.orphans k o (horphan k hk ▸ ho) hne)
  · rintro ⟨hcomment, hbuffered, hagrees⟩
    refine ⟨fun k r hr _ => ⟨r, hposts.symm ▸ hr, rfl⟩, fun k c hc hne => ?_, fun k o ho hne => ?_⟩
    · by_cases hk : k = comment.id
      · rw [hk] at hc ⊢
        exact ⟨_, hown, hcomment c hc hne⟩
      · exact ⟨c, promote_keeps_stored ((hstored k hk).trans hc), rfl⟩
    · by_cases hk : k = comment.id
      · rw [hk] at ho ⊢
        exact .inr ⟨_, hown, hbuffered o ho hne⟩
      · have ho' := (horphan k hk).trans ho
        exact (promote_keeps_orphan_iff ho').mpr (hagrees k o ho' hne)

/-! ## Votes -/

/-- A vote changes scores only. -/
theorem vote_keeps (voter target table : String) (direction : Int) :
    s.KeepsContent author (s.vote now voter target direction table).2 := by
  by_cases hd : direction ≠ -1 ∧ direction ≠ 1
  · rw [vote_refused s hd]
    exact keeps_of_eq rfl rfl rfl
  rw [vote_counts s hd]
  refine ⟨fun k r hr _ => ?_, fun k c hc _ => ?_, fun k o ho _ => .inl ⟨o, ?_, rfl⟩⟩
  · rw [addScore_posts]
    split
    case isTrue hk =>
      rw [← hk.2]
      exact ⟨_, congrArg (Option.map _) hr, rfl⟩
    case isFalse => exact ⟨r, hr, rfl⟩
  · rw [addScore_comments]
    split
    case isTrue hk =>
      rw [← hk.2]
      exact ⟨_, congrArg (Option.map _) hc, rfl⟩
    case isFalse => exact ⟨c, hc, rfl⟩
  · rw [addScore_orphans]
    exact ho

end SocialStore

end Social

/-! ## Actions -/

/-- The actions of an author that spare what others wrote. -/
def SocialAction.Spares (now : Int) (author : String) (s : SocialStore) : SocialAction → Prop
  | post p => s.PostSpares now author p
  | comment c => s.CommentSpares now author c
  | _ => True

/-- **An action keeps the content of the others exactly when it spares it.** -/
theorem SocialAction.apply_keeps_iff (now : Int) (id author : String) (s : SocialStore) (a : SocialAction) :
    s.KeepsContent author (a.apply now id author s) ↔ a.Spares now author s := by
  cases a with
  | post p =>
    have hmem : p.authorPubkey ∈ (s.ensureUser now p.authorPubkey).users := Table.mem_putNew.mpr (.inl rfl)
    exact SocialStore.keeps_ensureUser_iff.symm.trans (SocialStore.insertPost_keeps_iff now author hmem)
  | comment c =>
    exact SocialStore.keeps_ensureUser_iff.symm.trans
      (SocialStore.insertComment_keeps_iff now author (s.ensureUser now c.authorPubkey) c)
  | vote target direction table => exact iff_of_true (SocialStore.vote_keeps _ _ _ _) trivial
  | follow followed unfollow => cases unfollow <;> exact iff_of_true (SocialStore.keeps_of_eq rfl rfl rfl) trivial
  | message recipient body => exact iff_of_true (SocialStore.keeps_of_eq rfl rfl rfl) trivial
  | report target reason => exact iff_of_true (SocialStore.keeps_of_eq rfl rfl rfl) trivial

namespace Node

variable {h : Host} {env : Env} {now : Nat} {n : Node h.withSocialStore} {event : MeshEvent} {s : SocialStore}

/-- **When a reception keeps the content of the others.** In every state and for every event: every post, stored
comment and buffered comment of another author than the signer is still there with its content exactly when the action
the node takes from the event, if any, spares it. -/
theorem ownership_iff (hs : n.tables = some s) (env : Env) (now : Nat) (event : MeshEvent) :
    (∃ s', (n.receive env now event).node.tables = some s' ∧ s.KeepsContent event.pubkey s') ↔
      ∀ a, Takes env now n event a → a.Spares env.clock event.pubkey s := by
  constructor
  · rintro ⟨s', hs', hkeeps⟩ a ht
    rw [(receive_tables hs ht).2] at hs'
    obtain rfl := Option.some.inj hs'
    exact (SocialAction.apply_keeps_iff _ _ _ _ _).mp hkeeps
  · intro hspares
    by_cases htaken : ∃ a, Takes env now n event a
    · obtain ⟨a, ht⟩ := htaken
      exact ⟨_, (receive_tables hs ht).2, (SocialAction.apply_keeps_iff _ _ _ _ _).mpr (hspares a ht)⟩
    · exact ⟨s, (receive_tables_untaken htaken).trans hs, SocialStore.keeps_of_eq rfl rfl rfl⟩

end Node

/-! ## A post that is taken over, and one that is not -/

/-- The first post of a store with an empty buffer: its row, and no comment. -/
theorem apply_first_post (now : Int) (id author : String) {s : SocialStore} (p : SocialPost)
    (hp : p.id ∉ s.posts) (hc : s.comments = ∅) (ho : s.orphans = ∅) :
    ((SocialAction.post p).apply now id author s).posts = s.posts.put p.id (p.row now) ∧
      ((SocialAction.post p).apply now id author s).comments = ∅ := by
  have hmem : p.authorPubkey ∈ (s.ensureUser now p.authorPubkey).users := Table.mem_putNew.mpr (.inl rfl)
  have hstored : ¬(s.ensureUser now p.authorPubkey).refuses p :=
    mt (SocialStore.refuses_new (s := s.ensureUser now p.authorPubkey) hp).mp (not_not.mpr hmem)
  have hrow : ((s.ensureUser now p.authorPubkey).insertPost now p).2 = _ := SocialStore.insertPost_stored hstored
  refine ⟨?_, Finmap.ext_lookup fun k => Option.eq_none_iff_forall_ne_some.mpr fun c hcomment => ?_⟩
  · change ((s.ensureUser now p.authorPubkey).insertPost now p).2.posts = _
    rw [hrow]
    exact (SocialStore.promotes now _ p.id).posts
  · rcases SocialStore.insertPost_comments hcomment with hold | ⟨o, hold, -⟩
    · rw [show (s.ensureUser now p.authorPubkey).comments = ∅ from hc] at hold
      cases hold
    · rw [show (s.ensureUser now p.authorPubkey).orphans = ∅ from ho] at hold
      cases hold

/-- Without comments, none is cut off. -/
theorem cutsReplies_of_empty {s : SocialStore} (hc : s.comments = ∅) (postId : String) :
    ¬s.cutsReplies postId = true := by
  intro hcuts
  obtain ⟨k, hk, -⟩ := of_decide_eq_true hcuts
  have hmem := Table.mem_of_filter (Finmap.mem_keys.mp hk)
  rw [hc] at hmem
  exact Finmap.notMem_empty hmem

/-- The node after its own post came back to it. -/
def postedNode : Node socialHost.withSocialStore :=
  (cacheNode.receive (.still 1700000000) 1700000000 (signedBy 2 .socialPost nodePostText 1700000000)).node

/-- It holds the post, and trusts the author. -/
theorem postedNode_spec : postedNode.Welcomes knownAuthor 11 ∧ ∃ s, postedNode.tables = some s ∧
    s.posts.lookup "p" = some (nodePost.row 1700000000) ∧ s.comments = ∅ := by
  have hkey : (signedBy 2 .socialPost nodePostText 1700000000).pubkey = knownNode := node_pubkey
  have hw : cacheNode.Welcomes (signedBy 2 .socialPost nodePostText 1700000000).pubkey 12 :=
    cacheNode_welcomes (.inr hkey)
  have ht := signedBy_taken (.still 1700000000) 1700000000 hw (nodePost_decodes 2 1700000000) (by decide)
  obtain ⟨hposts, hcomments⟩ := apply_first_post 1700000000 (Env.still 1700000000).socialId
    (signedBy 2 .socialPost nodePostText 1700000000).pubkey (s := .empty) nodePost Finmap.notMem_empty rfl rfl
  refine ⟨(cacheNode_welcomes (.inl rfl)).receive ht, _, (Node.receive_tables (s := .empty) rfl ht).2, ?_, hcomments⟩
  exact (congrArg (Finmap.lookup "p") hposts).trans ((Table.lookup_put _ _ _ _).trans (if_pos rfl))

/-- **Another author takes over the post by using its id.** -/
theorem post_taken_over :
    let event := signedBy 1 .socialPost authorPostText 1700000000
    ∃ s s' r, postedNode.tables = some s ∧
      (postedNode.receive (.still 1700000060) 1700000060 event).node.tables = some s' ∧
      s.posts.lookup "p" = some r ∧ r.authorPubkey ≠ event.pubkey ∧ ¬s.KeepsContent event.pubkey s' := by
  obtain ⟨hw, s, htables, hrow, hcomments⟩ := postedNode_spec
  have hkey : (signedBy 1 .socialPost authorPostText 1700000000).pubkey = knownAuthor := author_pubkey
  have ht := signedBy_taken (.still 1700000060) 1700000060 (hkey.symm ▸ hw)
    (authorPost_decodes 1 1700000000) (by decide)
  have hother : knownNode ≠ knownAuthor := by decide +kernel
  rw [← hkey] at hother
  refine ⟨s, _, _, htables, (Node.receive_tables htables ht).2, hrow, hother, fun hkeeps => ?_⟩
  have hspares := (SocialAction.apply_keeps_iff _ _ _ _ _).mp hkeeps
  rcases hspares with hcuts | ⟨hcontent, -⟩
  · exact cutsReplies_of_empty hcomments _ hcuts
  · have hauthor := congrArg Content.author (hcontent _ hrow hother)
    exact absurd hauthor (by decide +kernel)

/-- **The author repeats the post of the node**, which replaces it by one of the same content. -/
theorem repeated_post_spares :
    let event := signedBy 1 .socialPost nodePostText 1700000000
    ∃ s s' r, postedNode.tables = some s ∧
      (postedNode.receive (.still 1700000060) 1700000060 event).node.tables = some s' ∧
      s.posts.lookup "p" = some r ∧ r.authorPubkey ≠ event.pubkey ∧ s.KeepsContent event.pubkey s' := by
  intro event
  obtain ⟨-, s, htables, hrow, hcomments⟩ := postedNode_spec
  have hother : knownNode ≠ event.pubkey := by
    rw [show event.pubkey = knownAuthor from author_pubkey]
    decide +kernel
  have hnone : ∀ k c, s.comments.lookup k ≠ some c := fun k c hc => by
    rw [hcomments] at hc
    cases hc
  have hspares : s.PostSpares 1700000060 event.pubkey nodePost := by
    refine .inr ⟨fun r hr _ => ?_, fun k c hc => absurd hc (hnone k c), fun k o _ _ _ c hc => ?_⟩
    · obtain rfl := Option.some.inj (hrow.symm.trans hr)
      rfl
    · exact absurd (Table.lookup_filter_some.mp hc).1 (hnone k c)
  obtain ⟨s', hs', hkeeps⟩ := (Node.ownership_iff htables (.still 1700000060) 1700000060 event).mpr fun a ht => by
    have hkind := ht.decodes.kind
    cases a with
    | post p =>
      obtain rfl : nodePost = p := Except.ok.inj ((nodePost_decodes 1 1700000000).2.2.1.symm.trans ht.decodes.2.2.1)
      exact hspares
    | _ => cases hkind
  exact ⟨s, s', _, htables, hs', hrow, hother, hkeeps⟩

end Onde

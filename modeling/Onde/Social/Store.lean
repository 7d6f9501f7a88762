import Mathlib.Data.String.Basic
import Onde.Lib.Json
import Onde.Lib.Table
import Onde.Social.Payload

/-!
# The store of the social graph

The tables of the SQLite file and the statements on them. Each call reads the clock once, for the columns that default
to `unixepoch()`; a statement that breaks a constraint fails as a whole.

* `insertPost` replaces the post of that id, which deletes the comments under it, and promotes buffered comments;
* `insertComment` stores a comment whose post and parent are stored and promotes those that waited for it; it buffers
  any other, up to `maxOrphanComments` of them;
* `vote` keeps one direction for each voter and target and moves the score by the difference.
-/

namespace Onde.Social

open Onde.Lib

def maxOrphanComments : Nat := 1024

/-- The number of buffered comments a turn of the promotion looks at. -/
def orphanScanLimit : Nat := 256

structure UserRow where
  displayName : String
  bio : String
  avatarUrl : String
  createdAt : Int
  deriving DecidableEq

structure PostRow where
  platform : SocialPlatform
  authorPubkey : String
  title : String
  body : String
  communitySlug : String
  mediaUrls : String
  voteScore : Int
  createdAt : Int
  updatedAt : Int
  deriving DecidableEq

structure CommentRow where
  platform : SocialPlatform
  authorPubkey : String
  postId : String
  parentId : Option String
  body : String
  voteScore : Int
  createdAt : Int
  deriving DecidableEq

/-- A comment that waits for its post or its parent. -/
structure OrphanRow where
  platform : SocialPlatform
  authorPubkey : String
  postId : String
  parentId : Option String
  body : String
  createdAt : Int
  deriving DecidableEq

structure VoteRow where
  direction : Int
  createdAt : Int
  deriving DecidableEq

structure MessageRow where
  senderPubkey : String
  recipientPubkey : String
  body : String
  readAt : Option Int
  createdAt : Int
  deriving DecidableEq

structure ReportRow where
  reporterPubkey : String
  targetId : String
  reason : String
  status : String
  createdAt : Int
  resolvedAt : Option Int
  deriving DecidableEq

/-- The tables. Votes are keyed by voter and target, follows by follower and followed, with their creation time. -/
structure SocialStore where
  users : Table String UserRow
  posts : Table String PostRow
  comments : Table String CommentRow
  votes : Table (String × String) VoteRow
  follows : Table (String × String) Int
  messages : Table String MessageRow
  reports : Table String ReportRow
  orphans : Table String OrphanRow
  deriving DecidableEq

/-! ## Rows -/

/-- A new post, with no votes; a missing title or community is stored as an empty text. -/
def SocialPost.row (now : Int) (p : SocialPost) : PostRow where
  platform := p.platform
  authorPubkey := p.authorPubkey
  title := p.title.getD ""
  body := p.body
  communitySlug := p.communitySlug.getD ""
  mediaUrls := (Json.arr (p.mediaUrls.map .str)).render
  voteScore := 0
  createdAt := now
  updatedAt := now

/-- The parent of a comment; an empty id is none. -/
def SocialComment.parent (c : SocialComment) : Option String := c.parentId.filter (· ≠ "")

/-- A new comment, with no votes. -/
def SocialComment.row (now : Int) (c : SocialComment) : CommentRow :=
  ⟨c.platform, c.authorPubkey, c.postId, c.parent, c.body, 0, now⟩

def SocialComment.orphanRow (now : Int) (c : SocialComment) : OrphanRow :=
  ⟨c.platform, c.authorPubkey, c.postId, c.parent, c.body, now⟩

/-- The stored row of a promoted comment. -/
def OrphanRow.promoted (now : Int) (r : OrphanRow) : CommentRow :=
  ⟨r.platform, r.authorPubkey, r.postId, r.parentId, r.body, 0, now⟩

def PostRow.addScore (delta : Int) (r : PostRow) : PostRow := { r with voteScore := r.voteScore + delta }

def CommentRow.addScore (delta : Int) (r : CommentRow) : CommentRow := { r with voteScore := r.voteScore + delta }

namespace SocialStore

def empty : SocialStore := ⟨∅, ∅, ∅, ∅, ∅, ∅, ∅, ∅⟩

/-! ## Users -/

/-- Create a user unless there is one. -/
def ensureUser (now : Int) (s : SocialStore) (pubkey : String) : SocialStore :=
  { s with users := s.users.putNew pubkey ⟨"", "", "", now⟩ }

/-! ## Promotion -/

/-- The parent of a comment, if it has one, is stored. -/
def parentStored (s : SocialStore) (parent : Option String) : Bool := parent.all fun p => p ∈ s.comments

/-- The ids a turn looks at: the oldest comments buffered for a post. -/
def pendingOrphans (s : SocialStore) (postId : String) : List String :=
  (s.orphans.filter fun _ r => r.postId = postId).oldest OrphanRow.createdAt orphanScanLimit

/-- Move a buffered comment to the stored ones; a stored comment of its id stays. -/
def promote (now : Int) (s : SocialStore) (id : String) (row : OrphanRow) : SocialStore :=
  let s₁ := s.ensureUser now row.authorPubkey
  { s₁ with
    comments := s₁.comments.putNew id (row.promoted now)
    orphans := s₁.orphans.remove id }

/-- Promote a buffered comment if its parent is stored; `true` if it was. -/
def promoteRow (now : Int) (s : SocialStore) (id : String) : SocialStore × Bool :=
  match s.orphans.lookup id with
  | none => (s, false)
  | some row => if s.parentStored row.parentId then (s.promote now id row, true) else (s, false)

/-- One turn over the pending ids, and whether any was promoted. -/
def promoteTurn (now : Int) : SocialStore → List String → SocialStore × Bool
  | s, [] => (s, false)
  | s, id :: ids =>
    let r := s.promoteRow now id
    let rest := promoteTurn now r.1 ids
    (rest.1, r.2 || rest.2)

theorem promoteRow_card (now : Int) (s : SocialStore) (id : String) :
    (s.promoteRow now id).1.orphans.keys.card + (s.promoteRow now id).2.toNat ≤ s.orphans.keys.card := by
  unfold promoteRow
  cases hrow : s.orphans.lookup id with
  | none => exact Nat.le_refl _
  | some row =>
    dsimp only
    split
    · have hmem : id ∈ s.orphans.keys := Finmap.mem_keys.mpr (Table.mem_of_lookup hrow)
      simp only [Table.keys_remove, promote, ensureUser, Bool.toNat_true]
      rw [Finset.card_erase_of_mem hmem]
      have := Finset.card_pos.mpr ⟨id, hmem⟩
      omega
    · exact Nat.le_refl _

/-- A turn that promotes leaves fewer buffered comments. -/
theorem promoteTurn_card (now : Int) (ids : List String) (s : SocialStore) :
    (promoteTurn now s ids).1.orphans.keys.card + (promoteTurn now s ids).2.toNat ≤ s.orphans.keys.card := by
  induction ids generalizing s with
  | nil => exact Nat.le_refl _
  | cons id ids ih =>
    have hrow := promoteRow_card now s id
    have hrest := ih (s.promoteRow now id).1
    simp only [promoteTurn]
    cases h₁ : (s.promoteRow now id).2 <;>
      cases h₂ : (promoteTurn now (s.promoteRow now id).1 ids).2 <;>
        simp only [h₁, h₂, Bool.or_self, Bool.or_true, Bool.or_false, Bool.toNat_true, Bool.toNat_false] at * <;> omega

/-- Promote the comments buffered for a post, turn by turn until none makes progress. The post is stored, so no foreign
key refuses a promoted row. -/
def promoteOrphanComments (now : Int) (s : SocialStore) (postId : String) : SocialStore :=
  let r := promoteTurn now s (s.pendingOrphans postId)
  if _h : r.2 = true then r.1.promoteOrphanComments now postId else r.1
termination_by s.orphans.keys.card
decreasing_by
  have hcard := promoteTurn_card now (s.pendingOrphans postId) s
  rw [_h, Bool.toNat_true] at hcard
  exact hcard

/-! ## Posts and comments -/

/-- The comments that stay when a post is written: those under the post it replaces are deleted with it. -/
def keptComments (s : SocialStore) (postId : String) : Table String CommentRow :=
  s.comments.filter fun _ c => ¬(postId ∈ s.posts ∧ c.postId = postId)

/-- A comment that stays would lose its parent. -/
def cutsReplies (s : SocialStore) (postId : String) : Bool :=
  decide (∃ id ∈ (s.keptComments postId).keys, ((s.keptComments postId).lookup id).any fun c =>
    c.parentId.any fun q => q ∈ s.comments ∧ q ∉ s.keptComments postId)

/-- A foreign key refuses a post: its author is unknown, or a comment that stays would lose its parent. -/
def refuses (s : SocialStore) (post : SocialPost) : Prop :=
  post.authorPubkey ∉ s.users ∨ s.cutsReplies post.id = true

instance (s : SocialStore) (post : SocialPost) : Decidable (s.refuses post) :=
  inferInstanceAs (Decidable (_ ∨ _))

/-- A post is written in place of the one of its id. -/
def replacePost (now : Int) (s : SocialStore) (post : SocialPost) : SocialStore :=
  { s with posts := s.posts.put post.id (post.row now), comments := s.keptComments post.id }

def insertPost (now : Int) (s : SocialStore) (post : SocialPost) : Except String Unit × SocialStore :=
  if s.refuses post then (.error "insert post failed: FOREIGN KEY constraint failed", s)
  else (.ok (), (s.replacePost now post).promoteOrphanComments now post.id)

/-- A comment whose post and parent are stored is written in place of the one of its id. -/
def storeComment (now : Int) (s : SocialStore) (comment : SocialComment) : SocialStore :=
  let s₁ := s.ensureUser now comment.authorPubkey
  { s₁ with
    comments := s₁.comments.put comment.id (comment.row now)
    orphans := s₁.orphans.remove comment.id }

/-- Any other waits; past the cap, the oldest leave. -/
def bufferComment (now : Int) (s : SocialStore) (comment : SocialComment) : SocialStore :=
  { s with orphans :=
      (s.orphans.put comment.id (comment.orphanRow now)).keepNewest OrphanRow.createdAt maxOrphanComments }

/-- A comment can be stored. -/
def ready (s : SocialStore) (comment : SocialComment) : Prop :=
  comment.postId ∈ s.posts ∧ s.parentStored comment.parent = true

instance (s : SocialStore) (comment : SocialComment) : Decidable (s.ready comment) :=
  inferInstanceAs (Decidable (_ ∧ _))

/-- `true` if the comment is stored, `false` if it waits. -/
def insertComment (now : Int) (s : SocialStore) (comment : SocialComment) : Except String Bool × SocialStore :=
  if s.ready comment then (.ok true, (s.storeComment now comment).promoteOrphanComments now comment.postId)
  else (.ok false, s.bufferComment now comment)

/-! ## Votes and follows -/

/-- Add to the score of a target, in the table named; `false` if there is no such table. -/
def addScore (s : SocialStore) (table target : String) (delta : Int) : SocialStore × Bool :=
  match table with
  | "posts" => ({ s with posts := s.posts.update target (·.addScore delta) }, true)
  | "comments" => ({ s with comments := s.comments.update target (·.addScore delta) }, true)
  | _ => (s, false)

/-- The direction recorded for a voter and a target, or zero. -/
def voteOf (s : SocialStore) (voter target : String) : Int :=
  ((s.votes.lookup (voter, target)).map VoteRow.direction).getD 0

/-- Record the one vote of a voter on a target and add the difference with the previous one to the score; the result is
the difference applied. -/
def vote (now : Int) (s : SocialStore) (voter target : String) (direction : Int) (table : String) :
    Except String Int × SocialStore :=
  let delta := direction - s.voteOf voter target
  if direction ≠ -1 ∧ direction ≠ 1 then
    (.error "vote failed: CHECK constraint failed: direction IN (-1, 1)", s)
  else
    let s₁ := { s with votes := s.votes.put (voter, target) ⟨direction, now⟩ }
    if delta ≠ 0 then
      let r := s₁.addScore table target delta
      (.ok (if r.2 then delta else 0), r.1)
    else (.ok delta, s₁)

def follow (now : Int) (s : SocialStore) (follower followed : String) : SocialStore :=
  { s with follows := s.follows.putNew (follower, followed) now }

def unfollow (s : SocialStore) (follower followed : String) : SocialStore :=
  { s with follows := s.follows.remove (follower, followed) }

/-! ## Messages and reports -/

def insertMessage (now : Int) (s : SocialStore) (id sender recipient body : String) : SocialStore :=
  { s with messages := s.messages.put id ⟨sender, recipient, body, none, now⟩ }

def submitReport (now : Int) (s : SocialStore) (id reporter target reason : String) : SocialStore :=
  { s with reports := s.reports.put id ⟨reporter, target, reason, "open", now, none⟩ }

/-! ## What the inserts do -/

variable {now : Int} {s : SocialStore}

/-- A new post deletes no comment, -/
theorem keptComments_new {postId : String} (h : postId ∉ s.posts) : s.keptComments postId = s.comments :=
  Table.filter_eq_self fun _ _ _ => decide_eq_true fun hg => h hg.1

/-- so it is refused only for its author. -/
theorem refuses_new {post : SocialPost} (h : post.id ∉ s.posts) : s.refuses post ↔ post.authorPubkey ∉ s.users := by
  have hcuts : s.cutsReplies post.id = false := by
    rw [cutsReplies, keptComments_new h, decide_eq_false_iff_not]
    rintro ⟨k, -, hk⟩
    simp at hk
  rw [refuses, hcuts]
  simp

theorem insertPost_refused {post : SocialPost} (h : s.refuses post) : (s.insertPost now post).2 = s := by
  rw [insertPost, if_pos h]

theorem insertPost_stored {post : SocialPost} (h : ¬s.refuses post) :
    (s.insertPost now post).2 = (s.replacePost now post).promoteOrphanComments now post.id := by
  rw [insertPost, if_neg h]

theorem insertComment_ready {comment : SocialComment} (h : s.ready comment) : (s.insertComment now comment).2 =
    (s.storeComment now comment).promoteOrphanComments now comment.postId := by
  rw [insertComment, if_pos h]

/-- The row of a comment that is stored, -/
theorem storeComment_comments (now : Int) (s : SocialStore) (comment : SocialComment) (k : String) :
    (s.storeComment now comment).comments.lookup k =
      if k = comment.id then some (comment.row now) else s.comments.lookup k := Table.lookup_put _ _ _ _

/-- which waits no more. -/
theorem storeComment_orphans (now : Int) (s : SocialStore) (comment : SocialComment) (k : String) :
    (s.storeComment now comment).orphans.lookup k =
      if k = comment.id then none else s.orphans.lookup k := Table.lookup_remove _ _ _

theorem insertComment_waits {comment : SocialComment} (h : ¬s.ready comment) :
    (s.insertComment now comment).2 = s.bufferComment now comment := by
  rw [insertComment, if_neg h]

/-! ## What a vote does -/

section Vote

variable (s : SocialStore) (table target : String) (delta : Int)

theorem addScore_zero : (s.addScore table target 0).1 = s := by
  have hposts : s.posts.update target (·.addScore 0) = s.posts :=
    Table.update_eq_self fun r => by rw [PostRow.addScore, Int.add_zero]
  have hcomments : s.comments.update target (·.addScore 0) = s.comments :=
    Table.update_eq_self fun r => by rw [CommentRow.addScore, Int.add_zero]
  unfold addScore
  split
  · rw [hposts]
  · rw [hcomments]
  · rfl

theorem addScore_votes : (s.addScore table target delta).1.votes = s.votes := by
  unfold addScore
  split <;> rfl

theorem addScore_users : (s.addScore table target delta).1.users = s.users := by
  unfold addScore
  split <;> rfl

theorem addScore_orphans : (s.addScore table target delta).1.orphans = s.orphans := by
  unfold addScore
  split <;> rfl

theorem addScore_posts (id : String) : (s.addScore table target delta).1.posts.lookup id =
    if table = "posts" ∧ id = target then (s.posts.lookup target).map (PostRow.addScore delta)
    else s.posts.lookup id := by
  unfold addScore
  split
  case h_1 => simp [Table.lookup_update]
  case h_2 => simp
  case h_3 hposts _ => rw [if_neg fun h => hposts h.1]

theorem addScore_comments (id : String) : (s.addScore table target delta).1.comments.lookup id =
    if table = "comments" ∧ id = target then (s.comments.lookup target).map (CommentRow.addScore delta)
    else s.comments.lookup id := by
  unfold addScore
  split
  case h_1 => simp
  case h_2 => simp [Table.lookup_update]
  case h_3 _ hcomments => rw [if_neg fun h => hcomments h.1]

theorem mem_addScore_posts {id : String} : id ∈ (s.addScore table target delta).1.posts ↔ id ∈ s.posts := by
  unfold addScore
  split
  case h_1 => exact Table.mem_update
  all_goals rfl

theorem mem_addScore_comments {id : String} :
    id ∈ (s.addScore table target delta).1.comments ↔ id ∈ s.comments := by
  unfold addScore
  split
  case h_2 => exact Table.mem_update
  all_goals rfl

/-- A direction that is refused changes nothing; -/
theorem vote_refused {voter target table : String} {direction : Int} (hd : direction ≠ -1 ∧ direction ≠ 1) :
    (s.vote now voter target direction table).2 = s := by
  rw [vote]
  simp only [if_pos hd]

/-- any other is recorded, and the difference added to the score. -/
theorem vote_counts {voter target table : String} {direction : Int} (hd : ¬(direction ≠ -1 ∧ direction ≠ 1)) :
    (s.vote now voter target direction table).2 =
      ({ s with votes := s.votes.put (voter, target) ⟨direction, now⟩ }.addScore table target
        (direction - s.voteOf voter target)).1 := by
  rw [vote]
  simp only [if_neg hd]
  split
  case isTrue => rfl
  case isFalse hzero =>
    have hsame : direction - s.voteOf voter target = 0 := not_not.mp hzero
    rw [hsame, addScore_zero]

end Vote

end SocialStore

end Onde.Social

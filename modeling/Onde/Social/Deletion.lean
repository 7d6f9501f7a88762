import Onde.Social.Authorship
import Onde.Social.ForeignKeys

/-!
# Deleting a post

A deletion takes the comments under the post with it. The foreign key of the replies refuses it if a reply that stays
would lose its parent.

* `foreignKeys_writes`: the foreign keys hold in every state that the writes of the store reach, deletions included;
* `cutsReplies_iff`: a reply loses its parent exactly if it was placed under another post than the comment it answers;
* `deletion_sound`: the author of a post deletes it, and exactly the comments under it, unless somebody answered one of
  them under another post; nobody else does.
-/

namespace Onde.Social

open Onde.Lib

/-- A write of the store. -/
inductive StoreWrite where
  | call (c : StoreCall)
  | upsertUser (pubkey displayName bio avatarUrl : String)
  | deletePost (id authorPubkey : String)

namespace SocialStore

/-- Write the profile of a user in place of the one there is. -/
def upsertUser (now : Int) (s : SocialStore) (pubkey displayName bio avatarUrl : String) : SocialStore :=
  { s with users := s.users.put pubkey ⟨displayName, bio, avatarUrl, now⟩ }

/-- Delete a post of an author with the comments under it; `true` if there was one. -/
def deletePost (s : SocialStore) (id authorPubkey : String) : Except String Bool × SocialStore :=
  if ((s.posts.lookup id).any fun r => r.authorPubkey = authorPubkey) = true then
    if s.cutsReplies id then (.error "delete post failed: FOREIGN KEY constraint failed", s)
    else (.ok true, { s with posts := s.posts.remove id, comments := s.keptComments id })
  else (.ok false, s)

/-- The store after a write, and the time of it. -/
def write (s : SocialStore) : Int × StoreWrite → SocialStore
  | (now, .call c) => s.call (now, c)
  | (now, .upsertUser pubkey displayName bio avatarUrl) => s.upsertUser now pubkey displayName bio avatarUrl
  | (_, .deletePost id authorPubkey) => (s.deletePost id authorPubkey).2

def writeAll (s : SocialStore) (ws : List (Int × StoreWrite)) : SocialStore := ws.foldl write s

/-- The post is stored under the author. -/
def Owns (s : SocialStore) (authorPubkey id : String) : Prop :=
  ∃ r, s.posts.lookup id = some r ∧ r.authorPubkey = authorPubkey

/-- A comment under another post answers one under this post. -/
def RepliedElsewhere (s : SocialStore) (id : String) : Prop :=
  ∃ k c p d, s.comments.lookup k = some c ∧ c.postId ≠ id ∧ c.parentId = some p ∧ s.comments.lookup p = some d ∧
    d.postId = id

variable {now : Int} {s : SocialStore} {id authorPubkey : String}

/-! ## What stays -/

/-- The comments under other posts stay. -/
theorem lookup_keptComments (hid : id ∈ s.posts) {k : String} {c : CommentRow} :
    (s.keptComments id).lookup k = some c ↔ s.comments.lookup k = some c ∧ c.postId ≠ id := by
  rw [keptComments, Table.lookup_filter_some]
  simp [hid]

theorem mem_keptComments (hid : id ∈ s.posts) {k : String} :
    k ∈ s.keptComments id ↔ ∃ c, s.comments.lookup k = some c ∧ c.postId ≠ id := by
  rw [Finmap.mem_iff]
  exact exists_congr fun c => lookup_keptComments hid

/-- **A reply loses its parent exactly if it is under another post.** -/
theorem cutsReplies_iff (hid : id ∈ s.posts) : s.cutsReplies id = true ↔ s.RepliedElsewhere id := by
  rw [cutsReplies, decide_eq_true_iff]
  constructor
  · rintro ⟨k, -, hk⟩
    obtain ⟨c, hc, hp⟩ := (Option.any_eq_true _ _).mp hk
    obtain ⟨p, hparent, hcut⟩ := (Option.any_eq_true _ _).mp hp
    obtain ⟨hin, hgone⟩ := of_decide_eq_true hcut
    obtain ⟨hstored, helse⟩ := (lookup_keptComments hid).mp hc
    obtain ⟨d, hd⟩ := Finmap.mem_iff.mp hin
    refine ⟨k, c, p, d, hstored, helse, hparent, hd, by_contra fun hne => hgone ?_⟩
    exact (mem_keptComments hid).mpr ⟨d, hd, hne⟩
  · rintro ⟨k, c, p, d, hc, helse, hparent, hd, hunder⟩
    have hkept := (lookup_keptComments hid).mpr ⟨hc, helse⟩
    refine ⟨k, Finmap.mem_keys.mpr (Table.mem_of_lookup hkept), ?_⟩
    have hgone : p ∉ s.keptComments id := by
      intro hp
      obtain ⟨d', hd', hne⟩ := (mem_keptComments hid).mp hp
      rw [hd] at hd'
      exact hne (Option.some.inj hd' ▸ hunder)
    simp [hkept, hparent, Table.mem_of_lookup hd, hgone]

/-! ## The outcomes -/

theorem owns_iff : ((s.posts.lookup id).any fun r => r.authorPubkey = authorPubkey) = true ↔
    s.Owns authorPubkey id := by
  simp [Owns, Option.any_eq_true]

theorem Owns.mem (h : s.Owns authorPubkey id) : id ∈ s.posts := by
  obtain ⟨r, hr, -⟩ := h
  exact Table.mem_of_lookup hr

/-- Who is not the author deletes nothing, -/
theorem deletePost_foreign (h : ¬s.Owns authorPubkey id) : s.deletePost id authorPubkey = (.ok false, s) := by
  rw [deletePost, if_neg (mt owns_iff.mp h)]

/-- the author neither if a reply elsewhere would lose its parent, -/
theorem deletePost_refused (h : s.Owns authorPubkey id) (hr : s.RepliedElsewhere id) :
    s.deletePost id authorPubkey = (.error "delete post failed: FOREIGN KEY constraint failed", s) := by
  rw [deletePost, if_pos (owns_iff.mpr h), if_pos ((cutsReplies_iff h.mem).mpr hr)]

/-- and else the post goes with the comments under it. -/
theorem deletePost_deletes (h : s.Owns authorPubkey id) (hr : ¬s.RepliedElsewhere id) : s.deletePost id authorPubkey =
    (.ok true, { s with posts := s.posts.remove id, comments := s.keptComments id }) := by
  rw [deletePost, if_pos (owns_iff.mpr h), if_neg (mt (cutsReplies_iff h.mem).mp hr)]

/-! ## The foreign keys -/

theorem ForeignKeys.upsertUser (h : s.ForeignKeys) (now : Int) (pubkey displayName bio avatarUrl : String) :
    (s.upsertUser now pubkey displayName bio avatarUrl).ForeignKeys :=
  ⟨fun k r hr => Table.mem_put.mpr (.inr (h.postAuthors k r hr)),
    fun k c hc => Table.mem_put.mpr (.inr (h.authors k c hc)), h.posts, h.parents⟩

theorem ForeignKeys.deletePost (h : s.ForeignKeys) (id authorPubkey : String) :
    (s.deletePost id authorPubkey).2.ForeignKeys := by
  by_cases howns : s.Owns authorPubkey id
  swap
  · rw [deletePost_foreign howns]
    exact h
  by_cases hr : s.RepliedElsewhere id
  · rw [deletePost_refused howns hr]
    exact h
  rw [deletePost_deletes howns hr]
  have hkept := fun k c => lookup_keptComments (k := k) (c := c) howns.mem
  refine ⟨fun k r hk => ?_, fun k c hc => h.authors k c ((hkept k c).mp hc).1, fun k c hc => ?_,
    fun k c hc p hp => ?_⟩
  · rw [Table.lookup_remove] at hk
    split at hk
    · cases hk
    · exact h.postAuthors k r hk
  · obtain ⟨hstored, helse⟩ := (hkept k c).mp hc
    exact Table.mem_remove.mpr ⟨helse, h.posts k c hstored⟩
  · -- the parent stays, or the reply is one elsewhere
    obtain ⟨hstored, helse⟩ := (hkept k c).mp hc
    obtain ⟨d, hd⟩ := Finmap.mem_iff.mp (h.parents k c hstored p hp)
    exact (mem_keptComments howns.mem).mpr ⟨d, hd, fun hunder => hr ⟨k, c, p, d, hstored, helse, hp, hd, hunder⟩⟩

theorem ForeignKeys.write (h : s.ForeignKeys) (w : Int × StoreWrite) : (s.write w).ForeignKeys := by
  obtain ⟨now, c | ⟨pubkey, displayName, bio, avatarUrl⟩ | ⟨id, authorPubkey⟩⟩ := w
  · exact h.call (now, c)
  · exact h.upsertUser now pubkey displayName bio avatarUrl
  · exact h.deletePost id authorPubkey

/-- **The foreign keys hold in every state that the writes reach.** -/
theorem foreignKeys_writes (h : s.ForeignKeys) (ws : List (Int × StoreWrite)) : (s.writeAll ws).ForeignKeys := by
  induction ws generalizing s with
  | nil => exact h
  | cons w ws ih => exact ih (h.write w)

/-! ## Replies under one post -/

/-- Every comment id belongs to a post: the comment is under it, and so is the one it answers. -/
def UnderPost (postOf : String → String) (id : String) (row : OrphanRow) : Prop :=
  postOf id = row.postId ∧ ∀ p, row.parentId = some p → postOf p = row.postId

/-- A comment that is written replies under one post. -/
def RepliesWithin (postOf : String → String) : StoreWrite → Prop
  | .call (.comment c) => UnderPost postOf c.id (c.orphanRow 0)
  | _ => True

/-- The rows of a store are of such comments. -/
def Threaded (postOf : String → String) (s : SocialStore) : Prop := s.AllRows (fun _ _ => True) (UnderPost postOf)

/-- Then no reply is elsewhere. -/
theorem Threaded.not_replied {postOf : String → String} (h : s.Threaded postOf) (id : String) :
    ¬s.RepliedElsewhere id := by
  rintro ⟨k, c, p, d, hc, helse, hparent, hd, hunder⟩
  have hreply : postOf p = c.postId := (h.comments k c hc).2 p hparent
  have hanswered : postOf p = d.postId := (h.comments p d hd).1
  exact helse (hreply.symm.trans (hanswered.trans hunder))

/-- A deletion keeps the rows that it leaves. -/
theorem deletePost_addsNothing (s : SocialStore) (id authorPubkey : String) :
    s.AddsNothing (s.deletePost id authorPubkey).2 := by
  by_cases howns : s.Owns authorPubkey id
  swap
  · rw [deletePost_foreign howns]
    exact addsNothing_of_eq rfl rfl rfl
  by_cases hr : s.RepliedElsewhere id
  · rw [deletePost_refused howns hr]
    exact addsNothing_of_eq rfl rfl rfl
  rw [deletePost_deletes howns hr]
  refine ⟨fun k r hk => ⟨r, ?_, rfl⟩, fun k c hc => ⟨c, ((lookup_keptComments howns.mem).mp hc).1, rfl⟩,
    fun k o ho => ⟨o, ho, rfl⟩⟩
  rw [Table.lookup_remove] at hk
  split at hk
  · cases hk
  · exact hk

theorem Threaded.write {postOf : String → String} (h : s.Threaded postOf) {w : Int × StoreWrite}
    (hw : RepliesWithin postOf w.2) : (s.write w).Threaded postOf := by
  obtain ⟨now, (pubkey | p | c | ⟨voter, target, direction, table⟩) | ⟨pubkey, displayName, bio, avatarUrl⟩ |
    ⟨id, authorPubkey⟩⟩ := w
  · exact AllRows.ensureUser h now pubkey
  · exact AllRows.insertPost h fun _ => trivial
  · exact AllRows.insertComment h fun _ => hw
  · exact AllRows.of_addsNothing h (vote_addsNothing voter target table direction)
  · exact AllRows.of_addsNothing h (addsNothing_of_eq rfl rfl rfl)
  · exact AllRows.of_addsNothing h (s.deletePost_addsNothing id authorPubkey)

theorem threaded_writes {postOf : String → String} (h : s.Threaded postOf) {ws : List (Int × StoreWrite)}
    (hws : ∀ w ∈ ws, RepliesWithin postOf w.2) : (s.writeAll ws).Threaded postOf := by
  induction ws generalizing s with
  | nil => exact h
  | cons w ws ih =>
    exact ih (h.write (hws w List.mem_cons_self)) fun v hv => hws v (List.mem_cons_of_mem w hv)

/-! ## Deletion -/

/-- The post is gone with the comments under it, no comment answers one of these, and all else is as it was. -/
structure Deleted (s s' : SocialStore) (id : String) : Prop where
  posts : ∀ k, s'.posts.lookup k = if k = id then none else s.posts.lookup k
  comments : ∀ k c, s'.comments.lookup k = some c ↔ s.comments.lookup k = some c ∧ c.postId ≠ id
  rest : s' = { s with posts := s'.posts, comments := s'.comments }
  foreignKeys : s'.ForeignKeys

/-- **In every state that the writes reach**, a deletion succeeds exactly for the author of a post under which nobody
answered from elsewhere; then it deletes the post and the comments under it, and else it changes nothing. If all
comments that were written reply under their post, the author always succeeds. -/
theorem deletion_sound (ws : List (Int × StoreWrite)) (id authorPubkey : String) :
    let s := empty.writeAll ws
    let r := s.deletePost id authorPubkey
    (r.1 = .ok true ↔ s.Owns authorPubkey id ∧ ¬s.RepliedElsewhere id) ∧ (r.1 = .ok true → Deleted s r.2 id) ∧
      (r.1 ≠ .ok true → r.2 = s) ∧
      ∀ postOf : String → String, (∀ w ∈ ws, RepliesWithin postOf w.2) → s.Owns authorPubkey id → r.1 = .ok true := by
  intro s r
  have hkeys : r.2.ForeignKeys := (foreignKeys_writes foreignKeys_empty ws).deletePost id authorPubkey
  have hiff : r.1 = .ok true ↔ s.Owns authorPubkey id ∧ ¬s.RepliedElsewhere id := by
    by_cases howns : s.Owns authorPubkey id
    swap
    · simp [r, deletePost_foreign howns, howns]
    by_cases hr : s.RepliedElsewhere id
    · simp [r, deletePost_refused howns hr, hr]
    · simp [r, deletePost_deletes howns hr, howns, hr]
  refine ⟨hiff, fun hok => ?_, fun hno => ?_, fun postOf hws howns => ?_⟩
  · obtain ⟨howns, hr⟩ := hiff.mp hok
    have hr2 : r.2 = { s with posts := s.posts.remove id, comments := s.keptComments id } :=
      congrArg Prod.snd (deletePost_deletes howns hr)
    rw [hr2] at hkeys ⊢
    exact ⟨fun k => Table.lookup_remove _ _ _, fun k c => lookup_keptComments howns.mem, rfl, hkeys⟩
  · by_cases howns : s.Owns authorPubkey id
    swap
    · exact congrArg Prod.snd (deletePost_foreign howns)
    · have hr : s.RepliedElsewhere id := by_contra fun hr => hno (hiff.mpr ⟨howns, hr⟩)
      exact congrArg Prod.snd (deletePost_refused howns hr)
  · exact hiff.mpr ⟨howns, (threaded_writes allRows_empty hws).not_replied id⟩

end SocialStore

end Onde.Social

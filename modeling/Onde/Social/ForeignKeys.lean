import Onde.Social.Scores

/-!
# The foreign keys

The tables declare that authors, posts and parents are stored. Here these keys hold in every state that the calls reach
(`foreignKeys_run`): the statements that the model lets through break none of them.
-/

namespace Onde.Social.SocialStore

open Onde.Lib

/-- The authors of posts and comments, the posts and the parents of comments are stored. -/
structure ForeignKeys (s : SocialStore) : Prop where
  postAuthors : ∀ k r, s.posts.lookup k = some r → r.authorPubkey ∈ s.users
  authors : ∀ k c, s.comments.lookup k = some c → c.authorPubkey ∈ s.users
  posts : ∀ k c, s.comments.lookup k = some c → c.postId ∈ s.posts
  parents : ∀ k c, s.comments.lookup k = some c → ∀ p, c.parentId = some p → p ∈ s.comments

theorem foreignKeys_empty : empty.ForeignKeys :=
  ⟨fun _ _ h => (nomatch h), fun _ _ h => (nomatch h), fun _ _ h => (nomatch h), fun _ _ h => (nomatch h)⟩

variable {now : Int} {s : SocialStore} {postId id : String} {row : OrphanRow} {post : SocialPost}
  {comment : SocialComment}

/-! ## Promotion -/

/-- What every promotion of a row whose parent is stored keeps, a turn keeps, -/
theorem promoteTurn_keeps {I : SocialStore → Prop} {ids : List String}
    (hstep : ∀ (s : SocialStore) (id : String) (row : OrphanRow), I s → row.postId = postId →
      s.parentStored row.parentId = true → I (s.promote now id row))
    (hids : ∀ id ∈ ids, ∀ row, s.orphans.lookup id = some row → row.postId = postId) (hI : I s) :
    I (promoteTurn now s ids).1 := by
  induction ids generalizing s with
  | nil => exact hI
  | cons id ids ih =>
    have hrest : ∀ k ∈ ids, ∀ row, s.orphans.lookup k = some row → row.postId = postId :=
      fun k hk => hids k (List.mem_cons_of_mem id hk)
    simp only [promoteTurn, promoteRow]
    cases hrow : s.orphans.lookup id with
    | none => exact ih hrest hI
    | some row =>
      dsimp only
      by_cases hparent : s.parentStored row.parentId = true
      · rw [if_pos hparent]
        refine ih (fun k hk r hr => ?_) (hstep s id row hI (hids id List.mem_cons_self row hrow) hparent)
        rw [lookup_promote_orphans] at hr
        split at hr
        · cases hr
        · exact hrest k hk r hr
      · rw [if_neg hparent]
        exact ih hrest hI

/-- and so does the whole promotion. -/
theorem promoteOrphanComments_keeps {I : SocialStore → Prop}
    (hstep : ∀ (s : SocialStore) (id : String) (row : OrphanRow), I s → row.postId = postId →
      s.parentStored row.parentId = true → I (s.promote now id row)) (hI : I s) :
    I (s.promoteOrphanComments now postId) := by
  have hpending : ∀ (s : SocialStore), ∀ id ∈ s.pendingOrphans postId, ∀ row,
      s.orphans.lookup id = some row → row.postId = postId :=
    fun s id hid row hrow => ((Promotes.refl now postId s).pending_within id hid row hrow).1
  induction s using promoteOrphanComments.induct now postId with
  | case1 s r hr ih =>
    rw [promoteOrphanComments, dif_pos hr]
    exact ih (promoteTurn_keeps hstep (hpending s) hI)
  | case2 s r hr =>
    rw [promoteOrphanComments, dif_neg hr]
    exact promoteTurn_keeps hstep (hpending s) hI

namespace ForeignKeys

/-! ## Statements -/

theorem ensureUser (h : s.ForeignKeys) (now : Int) (pubkey : String) : (s.ensureUser now pubkey).ForeignKeys :=
  ⟨fun k r hr => Table.mem_putNew.mpr (.inr (h.postAuthors k r hr)),
    fun k c hc => Table.mem_putNew.mpr (.inr (h.authors k c hc)), h.posts, h.parents⟩

/-- A comment is promoted under a stored post and a stored parent. -/
theorem promote (h : s.ForeignKeys) (hpost : row.postId ∈ s.posts) (hparent : s.parentStored row.parentId = true) :
    (s.promote now id row).ForeignKeys := by
  have hu := h.ensureUser now row.authorPubkey
  have hmem : ∀ k, k ∈ (s.promote now id row).comments ↔ k = id ∨ k ∈ s.comments := fun k => Table.mem_putNew
  -- a row of the new table is an old one or the promoted one
  have hrows : ∀ k c, (s.promote now id row).comments.lookup k = some c →
      s.comments.lookup k = some c ∨ c = row.promoted now := by
    intro k c hc
    rw [lookup_promote_comments] at hc
    split at hc
    case isFalse => exact .inl hc
    case isTrue hk =>
      rw [hk]
      cases hold : s.comments.lookup id with
      | none =>
        rw [hold] at hc
        exact .inr (Option.some.inj hc).symm
      | some c' =>
        rw [hold] at hc
        exact .inl hc
  refine ⟨hu.postAuthors, fun k c hc => ?_, fun k c hc => ?_, fun k c hc p hp => (hmem p).mpr (.inr ?_)⟩ <;>
    rcases hrows k c hc with hold | rfl
  · exact hu.authors k c hold
  · exact Table.mem_putNew.mpr (.inl rfl)
  · exact h.posts k c hold
  · exact hpost
  · exact h.parents k c hold p hp
  · exact parentStored_iff.mp hparent p hp

theorem promoteOrphanComments (h : s.ForeignKeys) (now : Int) (hpost : postId ∈ s.posts) :
    (s.promoteOrphanComments now postId).ForeignKeys := by
  refine (promoteOrphanComments_keeps (I := fun s => postId ∈ s.posts ∧ s.ForeignKeys) ?_ ⟨hpost, h⟩).2
  rintro s id row ⟨hin, hs⟩ rfl hparent
  exact ⟨hin, hs.promote hin hparent⟩

/-- A post that is not refused cuts no reply off. -/
theorem replacePost (h : s.ForeignKeys) (hr : ¬s.refuses post) : (s.replacePost now post).ForeignKeys := by
  obtain ⟨hauthor, hcuts⟩ := not_or.mp hr
  have hkept : ∀ k c, (s.keptComments post.id).lookup k = some c → s.comments.lookup k = some c :=
    fun k c hc => (Table.lookup_filter_some.mp hc).1
  refine ⟨fun k r hrow => ?_, fun k c hc => h.authors k c (hkept k c hc), fun k c hc => ?_, fun k c hc p hp => ?_⟩
  · change (s.posts.put post.id (post.row now)).lookup k = some r at hrow
    rw [Table.lookup_put] at hrow
    split at hrow
    case isTrue =>
      rw [← Option.some.inj hrow]
      exact not_not.mp hauthor
    case isFalse => exact h.postAuthors k r hrow
  · exact Table.mem_put.mpr (.inr (h.posts k c (hkept k c hc)))
  · by_contra hgone
    refine hcuts (decide_eq_true ⟨k, Finmap.mem_keys.mpr (Table.mem_of_lookup hc), ?_⟩)
    have hc' : (s.keptComments post.id).lookup k = some c := hc
    have hgone' : p ∉ s.keptComments post.id := hgone
    simp [hc', hp, h.parents k c (hkept k c hc) p hp, hgone']

theorem storeComment (h : s.ForeignKeys) (hr : s.ready comment) : (s.storeComment now comment).ForeignKeys := by
  have hu := h.ensureUser now comment.authorPubkey
  have hmem : ∀ k, k ∈ (s.storeComment now comment).comments ↔ k = comment.id ∨ k ∈ s.comments :=
    fun k => Table.mem_put
  have hrows : ∀ k c, (s.storeComment now comment).comments.lookup k = some c →
      s.comments.lookup k = some c ∨ c = comment.row now := by
    intro k c hc
    rw [storeComment_comments] at hc
    split at hc
    · exact .inr (Option.some.inj hc).symm
    · exact .inl hc
  refine ⟨hu.postAuthors, fun k c hc => ?_, fun k c hc => ?_, fun k c hc p hp => (hmem p).mpr (.inr ?_)⟩ <;>
    rcases hrows k c hc with hold | rfl
  · exact hu.authors k c hold
  · exact Table.mem_putNew.mpr (.inl rfl)
  · exact h.posts k c hold
  · exact hr.1
  · exact h.parents k c hold p hp
  · exact parentStored_iff.mp hr.2 p hp

/-! ## Calls -/

theorem insertPost (h : s.ForeignKeys) (now : Int) (post : SocialPost) : (s.insertPost now post).2.ForeignKeys := by
  by_cases hr : s.refuses post
  · rw [insertPost_refused hr]
    exact h
  · rw [insertPost_stored hr]
    exact (h.replacePost hr).promoteOrphanComments now (Table.mem_put.mpr (.inl rfl))

theorem insertComment (h : s.ForeignKeys) (now : Int) (comment : SocialComment) :
    (s.insertComment now comment).2.ForeignKeys := by
  by_cases hr : s.ready comment
  · rw [insertComment_ready hr]
    exact (h.storeComment hr).promoteOrphanComments now hr.1
  · rw [insertComment_waits hr]
    exact ⟨h.postAuthors, h.authors, h.posts, h.parents⟩

/-- No key is in a score. -/
theorem addScore (h : s.ForeignKeys) (table target : String) (delta : Int) :
    (s.addScore table target delta).1.ForeignKeys := by
  have hposts : ∀ k r, (s.addScore table target delta).1.posts.lookup k = some r →
      ∃ r₀, s.posts.lookup k = some r₀ ∧ r.authorPubkey = r₀.authorPubkey := by
    intro k r hr
    rw [addScore_posts] at hr
    split at hr
    case isTrue hk =>
      obtain ⟨r₀, hr₀, rfl⟩ := Option.map_eq_some_iff.mp hr
      exact ⟨r₀, hk.2 ▸ hr₀, rfl⟩
    case isFalse => exact ⟨r, hr, rfl⟩
  have hcomments : ∀ k c, (s.addScore table target delta).1.comments.lookup k = some c →
      ∃ c₀, s.comments.lookup k = some c₀ ∧ c.authorPubkey = c₀.authorPubkey ∧ c.postId = c₀.postId ∧
        c.parentId = c₀.parentId := by
    intro k c hc
    rw [addScore_comments] at hc
    split at hc
    case isTrue hk =>
      obtain ⟨c₀, hc₀, rfl⟩ := Option.map_eq_some_iff.mp hc
      exact ⟨c₀, hk.2 ▸ hc₀, rfl, rfl, rfl⟩
    case isFalse => exact ⟨c, hc, rfl, rfl, rfl⟩
  refine ⟨fun k r hr => ?_, fun k c hc => ?_, fun k c hc => ?_, fun k c hc p hp => ?_⟩
  · obtain ⟨r₀, hr₀, hauthor⟩ := hposts k r hr
    rw [addScore_users, hauthor]
    exact h.postAuthors k r₀ hr₀
  · obtain ⟨c₀, hc₀, hauthor, -, -⟩ := hcomments k c hc
    rw [addScore_users, hauthor]
    exact h.authors k c₀ hc₀
  · obtain ⟨c₀, hc₀, -, hunder, -⟩ := hcomments k c hc
    rw [hunder]
    exact (mem_addScore_posts s table target delta).mpr (h.posts k c₀ hc₀)
  · obtain ⟨c₀, hc₀, -, -, hparent⟩ := hcomments k c hc
    exact (mem_addScore_comments s table target delta).mpr (h.parents k c₀ hc₀ p (hparent ▸ hp))

theorem vote (h : s.ForeignKeys) (now : Int) (voter target : String) (direction : Int) (table : String) :
    (s.vote now voter target direction table).2.ForeignKeys := by
  by_cases hd : direction ≠ -1 ∧ direction ≠ 1
  · rw [vote_refused s hd]
    exact h
  · rw [vote_counts s hd]
    have hrecorded : { s with votes := s.votes.put (voter, target) ⟨direction, now⟩ }.ForeignKeys :=
      ⟨h.postAuthors, h.authors, h.posts, h.parents⟩
    exact hrecorded.addScore table target _

/-- A call keeps the keys. -/
theorem call (h : s.ForeignKeys) (c : Int × StoreCall) : (s.call c).ForeignKeys := by
  obtain ⟨now, pubkey | p | c | ⟨voter, target, direction, table⟩⟩ := c
  · exact h.ensureUser now pubkey
  · exact h.insertPost now p
  · exact h.insertComment now c
  · exact h.vote now voter target direction table

end ForeignKeys

/-- **The foreign keys hold in every state that the calls reach.** -/
theorem foreignKeys_run (h : s.ForeignKeys) (cs : List (Int × StoreCall)) : (s.callAll cs).ForeignKeys := by
  induction cs generalizing s with
  | nil => exact h
  | cons c cs ih => exact ih (h.call c)

end Onde.Social.SocialStore

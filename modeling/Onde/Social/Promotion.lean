import Onde.Lib.Drain
import Onde.Social.Store

/-!
# Promotion of buffered comments

A turn of the promotion settles comments one by one through a window (`Promotes`, `promotes_promoteOrphanComments`), so
that the comments it leaves in the buffer are the members of the traps of the store before it, whatever the order of
the turns (`promoteOrphanComments_orphans`, `promoteOrphanComments_comments`).
-/

namespace Onde.Social.SocialStore

open Onde.Lib

/-- The comments buffered for a post. -/
def waitingFor (s : SocialStore) (postId : String) : Finset String :=
  (s.orphans.filter fun _ r => r.postId = postId).keys

def storedIds (s : SocialStore) : Set String := {id | id ∈ s.comments}

/-- The window of the promotion over the buffered comments. -/
def scan (s : SocialStore) : Scan String (Int ×ₗ String) where
  age := s.orphans.age OrphanRow.createdAt
  need id := (s.orphans.lookup id).bind OrphanRow.parentId
  width := orphanScanLimit

variable {now : Int} {postId id : String} {s s' s₀ : SocialStore} {row : OrphanRow}

theorem mem_waitingFor : id ∈ s.waitingFor postId ↔ ∃ row, s.orphans.lookup id = some row ∧ row.postId = postId := by
  rw [waitingFor, Finmap.mem_keys, Finmap.mem_iff]
  simp only [Table.lookup_filter_some, decide_eq_true_eq]

@[simp] theorem mem_storedIds : id ∈ s.storedIds ↔ id ∈ s.comments := Iff.rfl

theorem parentStored_iff {parent : Option String} :
    s.parentStored parent = true ↔ ∀ p, parent = some p → p ∈ s.comments := by
  cases parent <;> simp [parentStored]

theorem lookup_promote_comments (now : Int) (s : SocialStore) (id : String) (row : OrphanRow) (k : String) :
    (s.promote now id row).comments.lookup k =
      if k = id then some ((s.comments.lookup id).getD (row.promoted now)) else s.comments.lookup k :=
  Table.lookup_putNew _ _ _ _

theorem lookup_promote_orphans (now : Int) (s : SocialStore) (id : String) (row : OrphanRow) (k : String) :
    (s.promote now id row).orphans.lookup k = if k = id then none else s.orphans.lookup k :=
  Table.lookup_remove _ _ _

theorem promote_waitingFor : (s.promote now id row).waitingFor postId = (s.waitingFor postId).erase id := by
  ext k
  rw [mem_waitingFor, Finset.mem_erase, mem_waitingFor, lookup_promote_orphans]
  by_cases hk : k = id <;> simp [hk]

theorem promote_storedIds : (s.promote now id row).storedIds = insert id s.storedIds := by
  ext k
  rw [mem_storedIds, Set.mem_insert_iff, mem_storedIds]
  exact Table.mem_putNew

/-- **What promotion may do**: some comments that waited for the post were settled, one after the other through the
window; they are stored as they were buffered, unless a comment of their id is stored. -/
structure Promotes (now : Int) (postId : String) (s s' : SocialStore) : Prop where
  drains : s.scan.Drains (s.waitingFor postId) s.storedIds (s'.waitingFor postId) s'.storedIds
  orphans : ∀ id, s'.orphans.lookup id =
    if id ∈ s.waitingFor postId ∧ id ∉ s'.waitingFor postId then none else s.orphans.lookup id
  comments : ∀ id, s'.comments.lookup id =
    if id ∉ s.comments ∧ id ∈ s.waitingFor postId ∧ id ∉ s'.waitingFor postId then
      (s.orphans.lookup id).map (OrphanRow.promoted now)
    else s.comments.lookup id
  users : ∀ k r, s.users.lookup k = some r → s'.users.lookup k = some r
  posts : s'.posts = s.posts
  votes : s'.votes = s.votes
  follows : s'.follows = s.follows
  messages : s'.messages = s.messages
  reports : s'.reports = s.reports

namespace Promotes

theorem refl (now : Int) (postId : String) (s : SocialStore) : Promotes now postId s s where
  drains := .nil _ _
  orphans id := by rw [if_neg fun h => h.2 h.1]
  comments id := by rw [if_neg fun h => h.2.2 h.2.1]
  users _ _ h := h
  posts := rfl
  votes := rfl
  follows := rfl
  messages := rfl
  reports := rfl

/-- A comment that still waits is buffered as it was. -/
theorem lookup_orphans (h : Promotes now postId s₀ s) (hid : id ∈ s.waitingFor postId) :
    s.orphans.lookup id = s₀.orphans.lookup id := by rw [h.orphans, if_neg fun hg => hg.2 hid]

/-- One more comment is promoted. -/
theorem promote (h : Promotes now postId s₀ s) (hrow : s.orphans.lookup id = some row) (hpost : row.postId = postId)
    (hrank : s₀.scan.rank (s.waitingFor postId) id < orphanScanLimit)
    (hparent : s.parentStored row.parentId = true) : Promotes now postId s₀ (s.promote now id row) := by
  have hid : id ∈ s.waitingFor postId := mem_waitingFor.mpr ⟨row, hrow, hpost⟩
  have hid₀ : id ∈ s₀.waitingFor postId := h.drains.subset hid
  have hrow₀ : s₀.orphans.lookup id = some row := by rw [← h.lookup_orphans hid, hrow]
  have hready : s₀.scan.Ready s.storedIds id := by
    intro p hp
    simp only [scan, hrow₀, Option.bind_some] at hp
    exact parentStored_iff.mp hparent p hp
  have hstep := Scan.Drains.cons hid hrank hready (.nil _ _)
  constructor
  case drains =>
    rw [promote_waitingFor, promote_storedIds]
    exact h.drains.trans hstep
  case orphans =>
    intro k
    simp only [lookup_promote_orphans, promote_waitingFor, Finset.mem_erase]
    by_cases hk : k = id
    · simp [hk, hid₀]
    · simp [hk, h.orphans k]
  case comments =>
    intro k
    simp only [lookup_promote_comments, promote_waitingFor, Finset.mem_erase]
    by_cases hk : k = id
    · have hcid := h.comments id
      rw [if_neg fun hg => hg.2.2 hid] at hcid
      rw [hk, hcid]
      by_cases hin : id ∈ s₀.comments
      · obtain ⟨r, hr⟩ := Finmap.mem_iff.mp hin
        simp [hin, hr]
      · simp [hin, hid₀, hrow₀, Finmap.lookup_eq_none.mpr hin]
    · simp [hk, h.comments k]
  case users =>
    intro k r hr
    have hold := h.users k r hr
    change (s.users.putNew row.authorPubkey _).lookup k = _
    rw [Table.lookup_putNew]
    by_cases hk : k = row.authorPubkey
    · rw [if_pos hk, ← hk, hold, Option.getD_some]
    · rw [if_neg hk, hold]
  case posts => exact h.posts
  case votes => exact h.votes
  case follows => exact h.follows
  case messages => exact h.messages
  case reports => exact h.reports

/-- A turn over ids within the window, and what it says when it promotes none. -/
theorem turn {ids : List String} (h : Promotes now postId s₀ s)
    (hids : ∀ id ∈ ids, ∀ row, s.orphans.lookup id = some row → row.postId = postId ∧
      s₀.scan.rank (s.waitingFor postId) id < orphanScanLimit) :
    Promotes now postId s₀ (promoteTurn now s ids).1 ∧
      ((promoteTurn now s ids).2 = false → (promoteTurn now s ids).1 = s ∧
        ∀ id ∈ ids, ∀ row, s.orphans.lookup id = some row → s.parentStored row.parentId = false) := by
  induction ids generalizing s with
  | nil => exact ⟨h, fun _ => ⟨rfl, fun _ hid => absurd hid List.not_mem_nil⟩⟩
  | cons id ids ih =>
    have hrest : ∀ s₁ : SocialStore, (∀ k row, s₁.orphans.lookup k = some row → s.orphans.lookup k = some row) →
        s₁.waitingFor postId ⊆ s.waitingFor postId → ∀ k ∈ ids, ∀ row, s₁.orphans.lookup k = some row →
          row.postId = postId ∧ s₀.scan.rank (s₁.waitingFor postId) k < orphanScanLimit := by
      intro s₁ hsub hwait k hk row hrow
      obtain ⟨hpost, hrank⟩ := hids k (List.mem_cons_of_mem _ hk) row (hsub k row hrow)
      exact ⟨hpost, (s₀.scan.rank_mono hwait k).trans_lt hrank⟩
    simp only [promoteTurn, promoteRow]
    cases hrow : s.orphans.lookup id with
    | none =>
      obtain ⟨hturn, hnone⟩ := ih h (hrest s (fun _ _ hr => hr) (Finset.Subset.refl _))
      refine ⟨hturn, fun hf => ⟨(hnone (by simpa using hf)).1, ?_⟩⟩
      rintro k (_ | ⟨_, hk⟩) row hk'
      · rw [hrow] at hk'
        cases hk'
      · exact (hnone (by simpa using hf)).2 k hk row hk'
    | some row =>
      dsimp only
      obtain ⟨hpost, hrank⟩ := hids id List.mem_cons_self row hrow
      by_cases hparent : s.parentStored row.parentId = true
      · simp only [if_pos hparent, Bool.true_or, Bool.true_eq_false, false_imp_iff, and_true]
        have hpromote := h.promote hrow hpost hrank hparent
        refine (ih hpromote (hrest _ ?_ ?_)).1
        · intro k r hr
          rw [lookup_promote_orphans] at hr
          split at hr
          · cases hr
          · exact hr
        · rw [promote_waitingFor]
          exact Finset.erase_subset _ _
      · simp only [if_neg hparent, Bool.false_or]
        obtain ⟨hturn, hnone⟩ := ih h (hrest s (fun _ _ hr => hr) (Finset.Subset.refl _))
        refine ⟨hturn, fun hf => ⟨(hnone hf).1, ?_⟩⟩
        rintro k (_ | ⟨_, hk⟩) r hr
        · rw [hrow] at hr
          cases hr
          exact Bool.eq_false_iff.mpr hparent
        · exact (hnone hf).2 k hk r hr

/-- The ids a turn looks at are those within the window. -/
theorem mem_pendingOrphans (h : Promotes now postId s₀ s) :
    id ∈ s.pendingOrphans postId ↔
      id ∈ s.waitingFor postId ∧ s₀.scan.rank (s.waitingFor postId) id < orphanScanLimit := by
  rw [pendingOrphans, Table.mem_oldest, ← Finmap.mem_keys]
  refine and_congr_right fun hid => ?_
  have hage : ∀ k ∈ s.waitingFor postId,
      (s.orphans.filter fun _ r => r.postId = postId).age OrphanRow.createdAt k = s₀.scan.age k := by
    intro k hk
    obtain ⟨row, hrow, hpost⟩ := mem_waitingFor.mp hk
    have hfilter : (s.orphans.filter fun _ r => r.postId = postId).lookup k = some row :=
      Table.lookup_filter_some.mpr ⟨hrow, decide_eq_true hpost⟩
    simp only [scan, Table.age, hfilter, ← h.lookup_orphans hk, hrow]
  have hrank : (s.orphans.filter fun _ r => r.postId = postId).rank OrphanRow.createdAt (s.waitingFor postId) id =
      s₀.scan.rank (s.waitingFor postId) id := by
    refine congrArg Finset.card (Finset.filter_congr fun k hk => ?_)
    rw [hage k hk, hage id hid]
  exact hrank ▸ Iff.rfl

theorem pending_within (h : Promotes now postId s₀ s) : ∀ id ∈ s.pendingOrphans postId, ∀ row,
    s.orphans.lookup id = some row → row.postId = postId ∧
      s₀.scan.rank (s.waitingFor postId) id < orphanScanLimit := by
  intro k hk row hrow
  obtain ⟨hwait, hrank⟩ := h.mem_pendingOrphans.mp hk
  obtain ⟨row', hrow', hpost⟩ := mem_waitingFor.mp hwait
  rw [hrow] at hrow'
  cases hrow'
  exact ⟨hpost, hrank⟩

end Promotes

/-- **Promotion settles through the window until it is stuck.** -/
theorem promotes_promoteOrphanComments (h : Promotes now postId s₀ s) :
    Promotes now postId s₀ (s.promoteOrphanComments now postId) ∧
      s₀.scan.Stuck ((s.promoteOrphanComments now postId).waitingFor postId)
        (s.promoteOrphanComments now postId).storedIds := by
  induction s using promoteOrphanComments.induct now postId with
  | case1 s r hr ih =>
    rw [promoteOrphanComments, dif_pos hr]
    exact ih (h.turn (h.pending_within)).1
  | case2 s r hr =>
    rw [promoteOrphanComments, dif_neg hr]
    obtain ⟨hturn, hnone⟩ := h.turn h.pending_within
    obtain ⟨hsame, hblocked⟩ := hnone (Bool.eq_false_iff.mpr hr)
    refine ⟨hturn, ?_⟩
    rw [hsame]
    intro k hk hrank hready
    obtain ⟨row, hrow, -⟩ := mem_waitingFor.mp hk
    have hneed : s₀.scan.need k = row.parentId := by
      simp only [scan, ← h.lookup_orphans hk, hrow, Option.bind_some]
    have hparent := hblocked k (h.mem_pendingOrphans.mpr ⟨hk, hrank⟩) row hrow
    exact Bool.eq_false_iff.mp hparent (parentStored_iff.mpr fun p hp => hready p (hneed.trans hp))

/-! ## The store after the promotion -/

/-- A buffered comment is held back: it is in a trap. -/
def Waits (s : SocialStore) (postId id : String) : Prop :=
  ∃ trapped, s.scan.Trap (s.waitingFor postId) s.storedIds trapped ∧ id ∈ trapped

/-- A buffered comment is let through. -/
def Promoted (s : SocialStore) (postId id : String) : Prop := id ∈ s.waitingFor postId ∧ ¬s.Waits postId id

theorem promotes (now : Int) (s : SocialStore) (postId : String) :
    Promotes now postId s (s.promoteOrphanComments now postId) :=
  (promotes_promoteOrphanComments (.refl now postId s)).1

theorem waits_iff : id ∈ (s.promoteOrphanComments now postId).waitingFor postId ↔ s.Waits postId id :=
  (promotes now s postId).drains.mem_stuck_iff (promotes_promoteOrphanComments (.refl now postId s)).2

theorem promoted_iff :
    id ∈ s.waitingFor postId ∧ id ∉ (s.promoteOrphanComments now postId).waitingFor postId ↔ s.Promoted postId id := by
  rw [waits_iff, Promoted]

/-- **A comment let through leaves the buffer**, -/
theorem Promoted.lookup_orphans (h : s.Promoted postId id) (now : Int) :
    (s.promoteOrphanComments now postId).orphans.lookup id = none := by
  rw [(promotes now s postId).orphans, if_pos (promoted_iff.mpr h)]

/-- and is stored, unless one of its id is. -/
theorem Promoted.lookup_comments (h : s.Promoted postId id) (hrow : s.orphans.lookup id = some row) (now : Int) :
    (s.promoteOrphanComments now postId).comments.lookup id =
      some ((s.comments.lookup id).getD (row.promoted now)) := by
  have hp : id ∈ s.waitingFor postId ∧ id ∉ (s.promoteOrphanComments now postId).waitingFor postId :=
    promoted_iff.mpr h
  rw [(promotes now s postId).comments]
  by_cases hin : id ∈ s.comments
  · obtain ⟨r, hr⟩ := Finmap.mem_iff.mp hin
    rw [if_neg fun hg => hg.1 hin, hr, Option.getD_some]
  · rw [if_pos ⟨hin, hp⟩, hrow, Option.map_some, Finmap.lookup_eq_none.mpr hin, Option.getD_none]

/-- **Any other stays as it was**, in the buffer -/
theorem lookup_orphans_of_not_promoted (h : ¬s.Promoted postId id) (now : Int) :
    (s.promoteOrphanComments now postId).orphans.lookup id = s.orphans.lookup id := by
  rw [(promotes now s postId).orphans, if_neg fun hp => h (promoted_iff.mp hp)]

/-- and among the stored ones. -/
theorem lookup_comments_of_not_promoted (h : ¬s.Promoted postId id) (now : Int) :
    (s.promoteOrphanComments now postId).comments.lookup id = s.comments.lookup id := by
  rw [(promotes now s postId).comments, if_neg fun hp => h (promoted_iff.mp hp.2)]

/-- A stored comment stays in any case. -/
theorem promote_keeps_stored {c : CommentRow} (hc : s.comments.lookup id = some c) :
    (s.promoteOrphanComments now postId).comments.lookup id = some c := by
  by_cases hp : s.Promoted postId id
  · obtain ⟨o, ho, -⟩ := mem_waitingFor.mp hp.1
    rw [hp.lookup_comments ho, hc, Option.getD_some]
  · rw [lookup_comments_of_not_promoted hp, hc]

@[simp] theorem insertComment_posts (now : Int) (s : SocialStore) (c : SocialComment) :
    (s.insertComment now c).2.posts = s.posts := by
  by_cases hr : s.ready c
  · rw [insertComment_ready hr, (promotes now _ _).posts]
    rfl
  · rw [insertComment_waits hr]
    rfl

/-! ## Where rows come from -/

section Origin

variable {k : String} {comment : SocialComment} {post : SocialPost} {stored : CommentRow}

theorem promoteOrphanComments_orphans (h : (s.promoteOrphanComments now postId).orphans.lookup k = some row) :
    s.orphans.lookup k = some row := by
  by_cases hp : s.Promoted postId k
  · rw [hp.lookup_orphans] at h
    cases h
  · rwa [lookup_orphans_of_not_promoted hp] at h

theorem promoteOrphanComments_comments
    (h : (s.promoteOrphanComments now postId).comments.lookup k = some stored) :
    s.comments.lookup k = some stored ∨ ∃ o, s.orphans.lookup k = some o ∧ stored = o.promoted now := by
  by_cases hp : s.Promoted postId k
  · obtain ⟨o, ho, -⟩ := mem_waitingFor.mp hp.1
    rw [hp.lookup_comments ho] at h
    cases hc : s.comments.lookup k with
    | none =>
      rw [hc] at h
      exact .inr ⟨o, ho, (Option.some.inj h).symm⟩
    | some c =>
      rw [hc] at h
      exact .inl h
  · rw [lookup_comments_of_not_promoted hp] at h
    exact .inl h

/-- A comment that can be stored is there afterwards with its row, -/
theorem insertComment_own (now : Int) (hr : s.ready comment) :
    (s.insertComment now comment).2.comments.lookup comment.id = some (comment.row now) := by
  rw [insertComment_ready hr]
  refine promote_keeps_stored ?_
  rw [storeComment_comments, if_pos rfl]

/-- and waits no more. -/
theorem insertComment_unbuffered (now : Int) (hr : s.ready comment) :
    (s.insertComment now comment).2.orphans.lookup comment.id = none := by
  rw [insertComment_ready hr]
  refine Option.eq_none_iff_forall_ne_some.mpr fun o ho => ?_
  have hold := promoteOrphanComments_orphans ho
  rw [storeComment_orphans, if_pos rfl] at hold
  cases hold

/-- A buffered row is old or the comment that could not be stored. -/
theorem insertComment_orphans (h : (s.insertComment now comment).2.orphans.lookup k = some row) :
    s.orphans.lookup k = some row ∨ k = comment.id ∧ row = comment.orphanRow now := by
  by_cases hr : s.ready comment
  · rw [insertComment_ready hr] at h
    have hold := promoteOrphanComments_orphans h
    rw [storeComment_orphans] at hold
    split at hold
    · cases hold
    · exact .inl hold
  · rw [insertComment_waits hr, bufferComment, Table.lookup_keepNewest] at h
    split at h
    · rw [Table.lookup_put] at h
      split at h
      case isTrue hk => exact .inr ⟨hk, (Option.some.inj h).symm⟩
      case isFalse => exact .inl h
    · cases h

/-- A stored comment is old, the comment itself, or one that was buffered. -/
theorem insertComment_comments (h : (s.insertComment now comment).2.comments.lookup k = some stored) :
    s.comments.lookup k = some stored ∨ (k = comment.id ∧ stored = comment.row now) ∨
      ∃ o, s.orphans.lookup k = some o ∧ stored = o.promoted now := by
  by_cases hr : s.ready comment
  · rw [insertComment_ready hr] at h
    rcases promoteOrphanComments_comments h with hc | ⟨o, ho, hrow⟩
    · rw [storeComment_comments] at hc
      split at hc
      case isTrue hk => exact .inr (.inl ⟨hk, (Option.some.inj hc).symm⟩)
      case isFalse => exact .inl hc
    · rw [storeComment_orphans] at ho
      split at ho
      · cases ho
      · exact .inr (.inr ⟨o, ho, hrow⟩)
  · rw [insertComment_waits hr] at h
    exact .inl h

theorem insertPost_orphans (h : (s.insertPost now post).2.orphans.lookup k = some row) :
    s.orphans.lookup k = some row := by
  by_cases hr : s.refuses post
  · rwa [insertPost_refused hr] at h
  · rw [insertPost_stored hr] at h
    exact promoteOrphanComments_orphans (s := s.replacePost now post) h

theorem insertPost_comments (h : (s.insertPost now post).2.comments.lookup k = some stored) :
    s.comments.lookup k = some stored ∨ ∃ o, s.orphans.lookup k = some o ∧ stored = o.promoted now := by
  by_cases hr : s.refuses post
  · rw [insertPost_refused hr] at h
    exact .inl h
  · rw [insertPost_stored hr] at h
    rcases promoteOrphanComments_comments h with hc | ho
    · exact .inl (Table.lookup_filter_some.mp hc).1
    · exact .inr ho

theorem insertPost_posts {r : PostRow} (h : (s.insertPost now post).2.posts.lookup k = some r) :
    s.posts.lookup k = some r ∨ k = post.id ∧ r = post.row now := by
  by_cases hr : s.refuses post
  · rw [insertPost_refused hr] at h
    exact .inl h
  · rw [insertPost_stored hr, (promotes now _ _).posts, replacePost, Table.lookup_put] at h
    split at h
    case isTrue hk => exact .inr ⟨hk, (Option.some.inj h).symm⟩
    case isFalse => exact .inl h

end Origin

end Onde.Social.SocialStore

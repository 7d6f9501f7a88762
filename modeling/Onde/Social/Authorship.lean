import Onde.Social.Promotion

/-!
# Where the content of the rows comes from

The columns a payload fills (`payload`) stay with a row for as long as it is there, buffered or stored. What holds of
all payloads written to the store holds of all rows (`AllRows`): the inserts keep it if it holds of their payload
(`AllRows.insertPost`, `AllRows.insertComment`), and everything else adds no content (`AddsNothing`).
-/

namespace Onde.Social

open Onde.Lib

/-! ## Payloads -/

/-- The columns a post fills. -/
def PostRow.payload (r : PostRow) : PostRow := { r with voteScore := 0, createdAt := 0, updatedAt := 0 }

/-- The columns a comment fills, stored -/
def CommentRow.payload (r : CommentRow) : OrphanRow := ⟨r.platform, r.authorPubkey, r.postId, r.parentId, r.body, 0⟩

/-- or buffered. -/
def OrphanRow.payload (r : OrphanRow) : OrphanRow := { r with createdAt := 0 }

namespace SocialStore

variable {now : Int} {s s' : SocialStore} {post : SocialPost} {comment : SocialComment}
  {P : String → PostRow → Prop} {C : String → OrphanRow → Prop}

/-- Something holds of the payloads of all rows, with their ids. -/
structure AllRows (P : String → PostRow → Prop) (C : String → OrphanRow → Prop) (s : SocialStore) : Prop where
  posts : ∀ k r, s.posts.lookup k = some r → P k r.payload
  comments : ∀ k c, s.comments.lookup k = some c → C k c.payload
  orphans : ∀ k o, s.orphans.lookup k = some o → C k o.payload

theorem AllRows.mono {P' : String → PostRow → Prop} {C' : String → OrphanRow → Prop} (ha : s.AllRows P C)
    (hP : ∀ k r, P k r → P' k r) (hC : ∀ k r, C k r → C' k r) : s.AllRows P' C' :=
  ⟨fun k r hr => hP _ _ (ha.posts k r hr), fun k c hc => hC _ _ (ha.comments k c hc),
    fun k o ho => hC _ _ (ha.orphans k o ho)⟩

theorem allRows_empty : empty.AllRows P C :=
  ⟨fun _ _ h => (nomatch h), fun _ _ h => (nomatch h), fun _ _ h => (nomatch h)⟩

theorem AllRows.ensureUser (ha : s.AllRows P C) (now : Int) (pubkey : String) : (s.ensureUser now pubkey).AllRows P C :=
  ⟨ha.posts, ha.comments, ha.orphans⟩

/-! ## Inserts -/

/-- and every row was there before, or has its payload. -/
theorem AllRows.insertPost (ha : s.AllRows P C) (hp : ¬s.refuses post → P post.id (post.row 0)) :
    (s.insertPost now post).2.AllRows P C := by
  refine ⟨fun k r hr => ?_, fun k c hc => ?_, fun k o ho => ?_⟩
  · rcases insertPost_posts hr with hold | ⟨hk, hrow⟩
    · exact ha.posts k r hold
    · by_cases href : s.refuses post
      · rw [insertPost_refused href] at hr
        exact ha.posts k r hr
      · rw [hk, hrow]
        exact hp href
  · rcases insertPost_comments hc with hold | ⟨o, ho, rfl⟩
    · exact ha.comments k c hold
    · exact ha.orphans k o ho
  · exact ha.orphans k o (insertPost_orphans ho)

/-- A comment is stored, or finds a place in the buffer. -/
def Places (now : Int) (s : SocialStore) (comment : SocialComment) : Prop :=
  s.ready comment ∨ (s.orphans.put comment.id (comment.orphanRow now)).rankDesc OrphanRow.createdAt
    (s.orphans.put comment.id (comment.orphanRow now)).keys comment.id < maxOrphanComments

/-- and every row was there before, or has its payload. -/
theorem AllRows.insertComment (ha : s.AllRows P C) (hc : s.Places now comment → C comment.id (comment.orphanRow 0)) :
    (s.insertComment now comment).2.AllRows P C := by
  refine ⟨fun k r hr => ?_, fun k c hrow => ?_, fun k o ho => ?_⟩
  · rw [insertComment_posts] at hr
    exact ha.posts k r hr
  · rcases insertComment_comments hrow with hold | ⟨hk, hnew⟩ | ⟨o, ho, rfl⟩
    · exact ha.comments k c hold
    · by_cases hr : s.ready comment
      · rw [hk, hnew]
        exact hc (.inl hr)
      · rw [insertComment_waits hr] at hrow
        exact ha.comments k c hrow
    · exact ha.orphans k o ho
  · by_cases hr : s.ready comment
    · rw [insertComment_ready hr] at ho
      have hold := promoteOrphanComments_orphans ho
      rw [storeComment_orphans] at hold
      split at hold
      · cases hold
      · exact ha.orphans k o hold
    · rw [insertComment_waits hr, bufferComment, Table.lookup_keepNewest] at ho
      split at ho
      case isFalse => cases ho
      case isTrue hrank =>
        rw [Table.lookup_put] at ho
        split at ho
        case isTrue hk =>
          obtain rfl := Option.some.inj ho
          rw [hk] at hrank ⊢
          exact hc (.inr hrank)
        case isFalse => exact ha.orphans k o ho

/-! ## Everything else -/

/-- No row has a payload that was not there under its id. -/
structure AddsNothing (s s' : SocialStore) : Prop where
  posts : ∀ k r', s'.posts.lookup k = some r' → ∃ r, s.posts.lookup k = some r ∧ r'.payload = r.payload
  comments : ∀ k c', s'.comments.lookup k = some c' → ∃ c, s.comments.lookup k = some c ∧ c'.payload = c.payload
  orphans : ∀ k o', s'.orphans.lookup k = some o' → ∃ o, s.orphans.lookup k = some o ∧ o'.payload = o.payload

theorem AllRows.of_addsNothing (ha : s.AllRows P C) (hn : s.AddsNothing s') : s'.AllRows P C := by
  refine ⟨fun k r' hr' => ?_, fun k c' hc' => ?_, fun k o' ho' => ?_⟩
  · obtain ⟨r, hr, heq⟩ := hn.posts k r' hr'
    exact heq ▸ ha.posts k r hr
  · obtain ⟨c, hc, heq⟩ := hn.comments k c' hc'
    exact heq ▸ ha.comments k c hc
  · obtain ⟨o, ho, heq⟩ := hn.orphans k o' ho'
    exact heq ▸ ha.orphans k o ho

theorem addsNothing_of_eq (hp : s'.posts = s.posts) (hc : s'.comments = s.comments) (ho : s'.orphans = s.orphans) :
    s.AddsNothing s' :=
  ⟨fun _ r hr => ⟨r, hp ▸ hr, rfl⟩, fun _ c hc' => ⟨c, hc ▸ hc', rfl⟩, fun _ o ho' => ⟨o, ho ▸ ho', rfl⟩⟩

/-- A vote changes scores only. -/
theorem vote_addsNothing (voter target table : String) (direction : Int) :
    s.AddsNothing (s.vote now voter target direction table).2 := by
  by_cases hd : direction ≠ -1 ∧ direction ≠ 1
  · rw [vote_refused s hd]
    exact addsNothing_of_eq rfl rfl rfl
  rw [vote_counts s hd]
  refine ⟨fun k r' hr => ?_, fun k c' hc => ?_, fun k o ho => ⟨o, ?_, rfl⟩⟩
  · rw [addScore_posts] at hr
    split at hr
    case isTrue hk =>
      obtain ⟨r, hold, rfl⟩ := Option.map_eq_some_iff.mp hr
      exact ⟨r, hk.2 ▸ hold, rfl⟩
    case isFalse => exact ⟨r', hr, rfl⟩
  · rw [addScore_comments] at hc
    split at hc
    case isTrue hk =>
      obtain ⟨c, hold, rfl⟩ := Option.map_eq_some_iff.mp hc
      exact ⟨c, hk.2 ▸ hold, rfl⟩
    case isFalse => exact ⟨c', hc, rfl⟩
  · rw [addScore_orphans] at ho
    exact ho

end SocialStore

end Onde.Social

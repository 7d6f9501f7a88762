import Onde.Social.Promotion

/-!
# Vote scores

A score is kept by differences: `vote` adds the change of a direction, and every insert starts a row at zero. Each call
keeps the scores equal to the sums of the recorded votes exactly if the rows it stores anew have no votes and a vote
names the table of its target (`consistent_call_iff`), so a run does exactly if all its calls do (`consistent_iff`).
-/

namespace Onde.Social

open Onde.Lib

/-- A call on the store. -/
inductive StoreCall where
  | user (pubkey : String)
  | post (p : SocialPost)
  | comment (c : SocialComment)
  | vote (voter target : String) (direction : Int) (table : String)
  deriving DecidableEq

namespace SocialStore

/-- The store after a call, and the time of it. -/
def call (s : SocialStore) : Int × StoreCall → SocialStore
  | (now, .user pubkey) => s.ensureUser now pubkey
  | (now, .post p) => (s.insertPost now p).2
  | (now, .comment c) => (s.insertComment now c).2
  | (now, .vote voter target direction table) => (s.vote now voter target direction table).2

def callAll (s : SocialStore) (cs : List (Int × StoreCall)) : SocialStore := cs.foldl call s

/-- The sum of the directions recorded for a target, one for each voter. -/
def tally (s : SocialStore) (target : String) : Int :=
  s.votes.total fun k r => if k.2 = target then r.direction else 0

/-- Every score is the sum of the votes. -/
structure Consistent (s : SocialStore) : Prop where
  posts : ∀ id r, s.posts.lookup id = some r → r.voteScore = s.tally id
  comments : ∀ id r, s.comments.lookup id = some r → r.voteScore = s.tally id

/-- What a call must find: the rows it stores anew have no votes, and a vote that counts names the table where its
target is, if it is stored. -/
def Keeps (s : SocialStore) : Int × StoreCall → Prop
  | (_, .user _) => True
  | (now, .post p) => s.refuses p ∨ s.tally p.id = 0 ∧
      ∀ id, (s.replacePost now p).Promoted p.id id → id ∉ s.keptComments p.id → s.tally id = 0
  | (now, .comment c) => ¬s.ready c ∨ s.tally c.id = 0 ∧
      ∀ id, (s.storeComment now c).Promoted c.postId id → id ≠ c.id → id ∉ s.comments → s.tally id = 0
  | (_, .vote voter target direction table) => (direction ≠ -1 ∧ direction ≠ 1) ∨ direction = s.voteOf voter target ∨
      (target ∈ s.posts → table = "posts") ∧ (target ∈ s.comments → table = "comments")

variable {now : Int} {s : SocialStore} {postId : String}

theorem tally_congr {s' : SocialStore} (h : s'.votes = s.votes) (id : String) : s'.tally id = s.tally id := by
  rw [tally, tally, h]

/-! ## Inserts -/

/-- Promotion starts rows at zero and keeps the others. -/
theorem consistent_promote_iff : (s.promoteOrphanComments now postId).Consistent ↔
    s.Consistent ∧ ∀ id, s.Promoted postId id → id ∉ s.comments → s.tally id = 0 := by
  have hspec := promotes now s postId
  have htally : ∀ id, (s.promoteOrphanComments now postId).tally id = s.tally id := tally_congr hspec.votes
  constructor
  · intro h
    refine ⟨⟨fun id r hr => ?_, fun id r hr => ?_⟩, fun id hp hnew => ?_⟩
    · rw [← htally]
      exact h.posts id r (hspec.posts ▸ hr)
    · rw [← htally]
      exact h.comments id r (promote_keeps_stored hr)
    · obtain ⟨o, ho, -⟩ := mem_waitingFor.mp hp.1
      have hrow := hp.lookup_comments ho now
      rw [Finmap.lookup_eq_none.mpr hnew, Option.getD_none] at hrow
      rw [← htally]
      exact (h.comments id _ hrow).symm
  · rintro ⟨h, hzero⟩
    refine ⟨fun id r hr => ?_, fun id r hr => ?_⟩
    · rw [htally]
      exact h.posts id r (hspec.posts ▸ hr)
    · rw [htally]
      by_cases hp : s.Promoted postId id
      · obtain ⟨o, ho, -⟩ := mem_waitingFor.mp hp.1
        rw [hp.lookup_comments ho] at hr
        cases hc : s.comments.lookup id with
        | none =>
          rw [hc, Option.getD_none] at hr
          cases hr
          exact (hzero id hp (Finmap.lookup_eq_none.mp hc)).symm
        | some c =>
          rw [hc, Option.getD_some] at hr
          cases hr
          exact h.comments id _ hc
      · rw [lookup_comments_of_not_promoted hp] at hr
        exact h.comments id r hr

/-- A new post starts at zero. -/
theorem consistent_replacePost_iff (h : s.Consistent) (post : SocialPost) :
    (s.replacePost now post).Consistent ↔ s.tally post.id = 0 := by
  have htally : ∀ id, (s.replacePost now post).tally id = s.tally id := tally_congr rfl
  have hposts : ∀ id, (s.replacePost now post).posts.lookup id =
      if id = post.id then some (post.row now) else s.posts.lookup id := Table.lookup_put _ _ _
  refine ⟨fun h' => ?_, fun hzero => ⟨fun id r hr => ?_, fun id r hr => ?_⟩⟩
  · rw [← htally]
    exact (h'.posts post.id _ (by rw [hposts, if_pos rfl])).symm
  · rw [hposts] at hr
    rw [htally]
    split at hr
    case isTrue hid =>
      cases hr
      rw [hid]
      exact hzero.symm
    case isFalse => exact h.posts id r hr
  · rw [htally]
    exact h.comments id r (Table.lookup_filter_some.mp hr).1

/-- A new comment starts at zero. -/
theorem consistent_storeComment_iff (h : s.Consistent) (comment : SocialComment) :
    (s.storeComment now comment).Consistent ↔ s.tally comment.id = 0 := by
  have htally : ∀ id, (s.storeComment now comment).tally id = s.tally id := tally_congr rfl
  have hcomments := storeComment_comments now s comment
  refine ⟨fun h' => ?_, fun hzero => ⟨fun id r hr => ?_, fun id r hr => ?_⟩⟩
  · rw [← htally]
    exact (h'.comments comment.id _ (by rw [hcomments, if_pos rfl])).symm
  · rw [htally]
    exact h.posts id r hr
  · rw [hcomments] at hr
    rw [htally]
    split at hr
    case isTrue hid =>
      cases hr
      rw [hid]
      exact hzero.symm
    case isFalse => exact h.comments id r hr

/-! ## Votes -/

section Vote

variable {voter target table : String} {direction : Int}

/-- What a vote that counts does to the sum, -/
theorem tally_vote (hd : ¬(direction ≠ -1 ∧ direction ≠ 1)) (id : String) :
    (s.vote now voter target direction table).2.tally id =
      s.tally id + if id = target then direction - s.voteOf voter target else 0 := by
  rw [vote_counts s hd, tally, addScore_votes, Table.total_put, tally]
  by_cases hid : id = target
  · simp only [hid, if_true, voteOf]
    cases s.votes.lookup (voter, target) with
    | none => simp
    | some r =>
      simp only [Option.elim_some, Option.map_some, Option.getD_some]
      omega
  · have hid' : ¬target = id := fun h => hid h.symm
    simp only [hid, hid', if_false]
    cases s.votes.lookup (voter, target) <;> simp

/-- to the posts and to the comments. -/
theorem vote_posts (hd : ¬(direction ≠ -1 ∧ direction ≠ 1)) (id : String) :
    (s.vote now voter target direction table).2.posts.lookup id =
      if table = "posts" ∧ id = target then
        (s.posts.lookup target).map (PostRow.addScore (direction - s.voteOf voter target))
      else s.posts.lookup id := by
  rw [vote_counts s hd]
  exact addScore_posts _ _ _ _ _

theorem vote_comments (hd : ¬(direction ≠ -1 ∧ direction ≠ 1)) (id : String) :
    (s.vote now voter target direction table).2.comments.lookup id =
      if table = "comments" ∧ id = target then
        (s.comments.lookup target).map (CommentRow.addScore (direction - s.voteOf voter target))
      else s.comments.lookup id := by
  rw [vote_counts s hd]
  exact addScore_comments _ _ _ _ _

/-- In one table, scores follow the sum if nothing changes or the table is the one named. -/
theorem follows_iff {V : Type} (score : V → Int) (add : Int → V → V) (hadd : ∀ d r, score (add d r) = score r + d)
    {rows : Table String V} {sum : String → Int} (h : ∀ id r, rows.lookup id = some r → score r = sum id)
    (named : Prop) [Decidable named] (target : String) (delta : Int) :
    (∀ id r, (if named ∧ id = target then (rows.lookup target).map (add delta) else rows.lookup id) = some r →
      score r = sum id + if id = target then delta else 0) ↔ delta = 0 ∨ (target ∈ rows → named) := by
  constructor
  · intro h'
    by_cases hdelta : delta = 0
    · exact .inl hdelta
    · refine .inr fun hin => ?_
      obtain ⟨r, hr⟩ := Finmap.mem_iff.mp hin
      by_contra hne
      have hnew := h' target r (by rw [if_neg fun hg => hne hg.1, hr])
      rw [if_pos rfl, h target r hr] at hnew
      omega
  · intro hok id r hr
    by_cases hmoved : named ∧ id = target
    · rw [if_pos hmoved, Option.map_eq_some_iff] at hr
      obtain ⟨r₀, hr₀, rfl⟩ := hr
      rw [if_pos hmoved.2, hadd, h target r₀ hr₀, hmoved.2]
    · rw [if_neg hmoved] at hr
      rw [h id r hr]
      by_cases hid : id = target
      · have hzero : delta = 0 := hok.resolve_right fun hn =>
          hmoved ⟨hn (hid ▸ Table.mem_of_lookup hr), hid⟩
        rw [if_pos hid, hzero, Int.add_zero]
      · rw [if_neg hid, Int.add_zero]

/-- A vote keeps the scores if it changes none, or names the table of its target. -/
theorem consistent_vote_iff (h : s.Consistent) (hd : ¬(direction ≠ -1 ∧ direction ≠ 1)) :
    (s.vote now voter target direction table).2.Consistent ↔ direction = s.voteOf voter target ∨
      (target ∈ s.posts → table = "posts") ∧ (target ∈ s.comments → table = "comments") := by
  have hposts := follows_iff PostRow.voteScore PostRow.addScore (fun _ _ => rfl) h.posts (table = "posts") target
    (direction - s.voteOf voter target)
  have hcomments := follows_iff CommentRow.voteScore CommentRow.addScore (fun _ _ => rfl) h.comments
    (table = "comments") target (direction - s.voteOf voter target)
  have htally : ∀ id, (s.vote now voter target direction table).2.tally id = _ := tally_vote hd
  have hrows : ∀ id, (s.vote now voter target direction table).2.posts.lookup id = _ := vote_posts hd
  have hrows' : ∀ id, (s.vote now voter target direction table).2.comments.lookup id = _ := vote_comments hd
  simp only [← hrows, ← htally] at hposts
  simp only [← hrows', ← htally] at hcomments
  rw [← Int.sub_eq_zero, or_and_left, ← hposts, ← hcomments]
  exact ⟨fun h' => ⟨h'.posts, h'.comments⟩, fun h' => ⟨h'.1, h'.2⟩⟩

end Vote

/-! ## Runs -/

/-- **A call keeps the scores exactly if it finds what it must.** -/
theorem consistent_call_iff (h : s.Consistent) (c : Int × StoreCall) : (s.call c).Consistent ↔ s.Keeps c := by
  obtain ⟨now, pubkey | p | comment | ⟨voter, target, direction, table⟩⟩ := c
  · exact ⟨fun _ => trivial, fun _ => ⟨h.posts, h.comments⟩⟩
  · rw [Keeps, call]
    by_cases hr : s.refuses p
    · rw [insertPost_refused hr]
      exact ⟨fun _ => .inl hr, fun _ => h⟩
    · rw [insertPost_stored hr, consistent_promote_iff, consistent_replacePost_iff h, or_iff_right hr]
      exact Iff.rfl
  · rw [Keeps, call]
    by_cases hr : s.ready comment
    · rw [insertComment_ready hr, consistent_promote_iff, consistent_storeComment_iff h,
        or_iff_right (not_not.mpr hr)]
      refine and_congr_right fun _ => forall_congr' fun id => imp_congr_right fun _ => ?_
      have hmem : id ∈ (s.storeComment now comment).comments ↔ id = comment.id ∨ id ∈ s.comments := Table.mem_put
      rw [hmem, not_or, and_imp]
      exact Iff.rfl
    · rw [insertComment_waits hr]
      exact ⟨fun _ => .inl hr, fun _ => ⟨h.posts, h.comments⟩⟩
  · rw [Keeps, call]
    by_cases hd : direction ≠ -1 ∧ direction ≠ 1
    · rw [vote_refused s hd]
      exact ⟨fun _ => .inl hd, fun _ => h⟩
    · rw [consistent_vote_iff h hd, or_iff_right hd]

theorem consistent_empty : empty.Consistent := ⟨fun _ _ hr => (nomatch hr), fun _ _ hr => (nomatch hr)⟩

/-- **The scores are right along a run exactly if every call of it finds what it must.** -/
theorem consistent_iff (cs : List (Int × StoreCall)) :
    (∀ past, past <+: cs → (empty.callAll past).Consistent) ↔
      ∀ past c, past ++ [c] <+: cs → (empty.callAll past).Keeps c := by
  have hstep : ∀ past c, empty.callAll (past ++ [c]) = (empty.callAll past).call c := fun past c => by
    rw [callAll, List.foldl_append]
    rfl
  constructor
  · intro h past c hpre
    have hpast := h past ((List.prefix_append past [c]).trans hpre)
    exact (consistent_call_iff hpast c).mp (hstep past c ▸ h _ hpre)
  · intro h past
    induction past using List.reverseRecOn with
    | nil => exact fun _ => consistent_empty
    | append_singleton past c ih =>
      intro hpre
      have hpast := ih ((List.prefix_append past [c]).trans hpre)
      rw [hstep]
      exact (consistent_call_iff hpast c).mpr (h past c hpre)

/-- A vote that arrives before the post it is for. -/
def earlyVote : List (Int × StoreCall) :=
  [(0, .user "author"), (0, .vote "voter" "post" 1 "posts"),
    (0, .post ⟨"post", .tuitter, "author", none, "news", none, []⟩)]

/-- **The score of a post voted before it arrives does not count the vote.** -/
theorem earlyVote_inconsistent : ¬(empty.callAll earlyVote).Consistent := by
  let s₁ := empty.call (0, .user "author")
  let s₂ := s₁.call (0, .vote "voter" "post" 1 "posts")
  have hd : ¬((1 : Int) ≠ -1 ∧ (1 : Int) ≠ 1) := fun h => h.2 rfl
  have h₁ : s₁.Consistent := (consistent_call_iff consistent_empty _).mpr trivial
  have h₂ : s₂.Consistent := (consistent_call_iff h₁ _).mpr (.inr (.inr ⟨fun _ => rfl, fun hin =>
    absurd hin Finmap.notMem_empty⟩))
  have htally : s₂.tally "post" = 1 := tally_vote hd "post"
  have hnew : "post" ∉ s₂.posts := by
    rw [← Finmap.lookup_eq_none]
    exact (vote_posts hd "post").trans (ite_self _)
  have hauthor : "author" ∈ s₂.users := by
    have husers : s₂.users = s₁.users := by
      rw [show s₂ = _ from vote_counts s₁ hd]
      rfl
    rw [husers]
    exact Table.mem_putNew.mpr (.inl rfl)
  intro h
  rcases (consistent_call_iff h₂ (0, .post ⟨"post", .tuitter, "author", none, "news", none, []⟩)).mp h with hr | ⟨hz, -⟩
  · exact (refuses_new hnew).mp hr hauthor
  · rw [htally] at hz
    cases hz

end SocialStore

end Onde.Social

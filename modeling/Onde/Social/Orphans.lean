import Onde.Social.Promotion

/-!
# Threads delivered in any order

A post and the comments of a tree under it reach a store one by one, in any order (`Thread.Order`). The buffer stays
within its cap (`deliverAll_bounded`), and every comment delivered is stored or buffered as it was sent (`Kept`). At the
end all are stored exactly if the last delivery can be stored at once and no set of comments in the buffer closes the
window of the promotion (`Thread.settled_iff`); none does if what waits fits in it (`Thread.settles_of_few`).
-/

namespace Onde.Social

open Onde.Lib

/-- A post or a comment that reaches the store. -/
inductive Delivery where
  | post (p : SocialPost)
  | comment (c : SocialComment)
  deriving DecidableEq

namespace SocialStore

/-- The store after a delivery, and the time of it. -/
def deliver (s : SocialStore) : Int × Delivery → SocialStore
  | (now, .post p) => (s.insertPost now p).2
  | (now, .comment c) => (s.insertComment now c).2

def deliverAll (s : SocialStore) (ds : List (Int × Delivery)) : SocialStore := ds.foldl deliver s

variable {now : Int} {postId id : String} {s : SocialStore}

/-- What waits, and for what, is read off the buffer. -/
theorem waiting_congr {s' : SocialStore} (postId : String) (h : s'.orphans = s.orphans) :
    s'.scan = s.scan ∧ s'.waitingFor postId = s.waitingFor postId := by
  rw [scan, scan, waitingFor, waitingFor, h]
  exact ⟨rfl, rfl⟩

/-! ## The cap of the buffer -/

theorem promoteOrphanComments_keys_subset :
    (s.promoteOrphanComments now postId).orphans.keys ⊆ s.orphans.keys := by
  intro k hk
  obtain ⟨row, hrow⟩ := Finmap.mem_iff.mp (Finmap.mem_keys.mp hk)
  by_cases hp : s.Promoted postId k
  · rw [hp.lookup_orphans] at hrow
    cases hrow
  · rw [lookup_orphans_of_not_promoted hp] at hrow
    exact Finmap.mem_keys.mpr (Table.mem_of_lookup hrow)

/-- **A delivery leaves the buffer within its cap.** -/
theorem deliver_bounded (h : s.orphans.keys.card ≤ maxOrphanComments) (d : Int × Delivery) :
    (s.deliver d).orphans.keys.card ≤ maxOrphanComments := by
  rcases d with ⟨now, p | c⟩
  · by_cases hr : s.refuses p
    · rw [deliver, insertPost_refused hr]
      exact h
    · rw [deliver, insertPost_stored hr]
      exact (Finset.card_le_card promoteOrphanComments_keys_subset).trans h
  · by_cases hr : s.ready c
    · rw [deliver, insertComment_ready hr]
      refine (Finset.card_le_card promoteOrphanComments_keys_subset).trans (le_trans ?_ h)
      rw [storeComment, Table.keys_remove]
      exact Finset.card_le_card (Finset.erase_subset _ _)
    · rw [deliver, insertComment_waits hr]
      exact Table.card_keepNewest_le

theorem deliverAll_bounded (h : s.orphans.keys.card ≤ maxOrphanComments) (ds : List (Int × Delivery)) :
    (s.deliverAll ds).orphans.keys.card ≤ maxOrphanComments := by
  induction ds generalizing s with
  | nil => exact h
  | cons d ds ih => exact ih (deliver_bounded h d)

end SocialStore

/-! ## Threads -/

open SocialStore

/-- A post and a tree of comments under it: the parent of each is none or another comment of the tree. -/
structure Thread where
  post : SocialPost
  comments : List SocialComment
  small : comments.length ≤ maxOrphanComments
  nodup : (comments.map SocialComment.id).Nodup
  under : ∀ c ∈ comments, c.postId = post.id
  closed : ∀ c ∈ comments, ∀ p, c.parent = some p → ∃ d ∈ comments, d.id = p
  rooted : ∃ depth : String → Nat, ∀ c ∈ comments, ∀ p, c.parent = some p → depth p < depth c.id

def Delivery.asComment : Delivery → Option SocialComment
  | .post _ => none
  | .comment c => some c

def Delivery.asPost : Delivery → Option SocialPost
  | .post p => some p
  | .comment _ => none

/-- The comments among some deliveries. -/
def commentsOf (ds : List (Int × Delivery)) : List SocialComment := ds.filterMap fun d => d.2.asComment

/-- The posts among them. -/
def postsOf (ds : List (Int × Delivery)) : List SocialPost := ds.filterMap fun d => d.2.asPost

/-- A comment is stored or waits, as it was sent. -/
def SocialComment.Placed (c : SocialComment) (s : SocialStore) : Prop :=
  (c.id ∉ s.orphans ∧ ∃ at₀, s.comments.lookup c.id = some (c.row at₀)) ∨
    c.id ∉ s.comments ∧ ∃ at₀, s.orphans.lookup c.id = some (c.orphanRow at₀)

namespace Thread

/-- The post and the comments, each delivered once, in some order and at some times. -/
structure Order (t : Thread) where
  before : List (Int × Delivery)
  last : Int × Delivery
  perm : ((before ++ [last]).map Prod.snd).Perm (.post t.post :: t.comments.map .comment)

variable {t : Thread}

def Order.all (o : t.Order) : List (Int × Delivery) := o.before ++ [o.last]

/-- A store that has seen none of the thread, with an empty buffer. -/
structure Unseen (t : Thread) (s : SocialStore) : Prop where
  buffer : s.orphans = ∅
  post : t.post.id ∉ s.posts
  comments : ∀ c ∈ t.comments, c.id ∉ s.comments

/-- All comments are stored as they were sent and none waits. -/
def Settled (t : Thread) (s : SocialStore) : Prop :=
  (∀ c ∈ t.comments, ∃ at₀, s.comments.lookup c.id = some (c.row at₀)) ∧ s.orphans = ∅

/-- Where the comments delivered so far are. -/
structure Kept (t : Thread) (seen : List SocialComment) (s : SocialStore) : Prop where
  subset : ∀ c ∈ seen, c ∈ t.comments
  placed : ∀ c ∈ seen, c.Placed s
  ahead : ∀ c ∈ t.comments, c ∉ seen → c.id ∉ s.comments
  buffered : ∀ k ∈ s.orphans, ∃ c ∈ seen, c.id = k

variable {s : SocialStore} {seen : List SocialComment} {c d : SocialComment} {now : Int}

theorem eq_of_id (hc : c ∈ t.comments) (hd : d ∈ t.comments) (h : c.id = d.id) : c = d :=
  List.inj_on_of_nodup_map t.nodup hc hd h

theorem card_le_of_ids {keys : Finset String} (h : ∀ k ∈ keys, ∃ c ∈ t.comments, c.id = k) :
    keys.card ≤ maxOrphanComments := by
  have hsub : keys ⊆ (t.comments.map SocialComment.id).toFinset := by
    intro k hk
    obtain ⟨c, hc, rfl⟩ := h k hk
    exact List.mem_toFinset.mpr (List.mem_map_of_mem hc)
  refine (Finset.card_le_card hsub).trans ((List.toFinset_card_le _).trans ?_)
  rw [List.length_map]
  exact t.small

theorem kept_nil (h : t.Unseen s) : t.Kept [] s where
  subset _ hc := absurd hc List.not_mem_nil
  placed _ hc := absurd hc List.not_mem_nil
  ahead c hc _ := h.comments c hc
  buffered _ hk := absurd hk (h.buffer ▸ Finmap.notMem_empty)

namespace Kept

/-- A comment that waits for the post of the thread is in its buffer, and the other way round. -/
theorem mem_waitingFor (h : t.Kept seen s) {id : String} : id ∈ s.waitingFor t.post.id ↔ id ∈ s.orphans := by
  rw [SocialStore.mem_waitingFor, Finmap.mem_iff]
  refine ⟨fun ⟨row, hrow, _⟩ => ⟨row, hrow⟩, fun ⟨row, hrow⟩ => ⟨row, hrow, ?_⟩⟩
  obtain ⟨c, hc, rfl⟩ := h.buffered id (Table.mem_of_lookup hrow)
  rcases h.placed c hc with ⟨hno, -⟩ | ⟨-, at₀, hat⟩
  · exact absurd (Table.mem_of_lookup hrow) hno
  · rw [hat] at hrow
    cases hrow
    exact t.under c (h.subset c hc)

/-- Promotion keeps every comment stored or buffered. -/
theorem promote (h : t.Kept seen s) (now : Int) : t.Kept seen (s.promoteOrphanComments now t.post.id) := by
  have hwaiting : ∀ {k}, s.Promoted t.post.id k → k ∈ s.orphans := fun hp => h.mem_waitingFor.mp hp.1
  constructor
  case subset => exact h.subset
  case placed =>
    intro c hc
    rcases h.placed c hc with ⟨hno, at₀, hat⟩ | ⟨hno, at₀, hat⟩
    · have hp : ¬s.Promoted t.post.id c.id := fun hp => hno (hwaiting hp)
      refine .inl ⟨?_, at₀, by rw [lookup_comments_of_not_promoted hp, hat]⟩
      rw [← Finmap.lookup_eq_none, lookup_orphans_of_not_promoted hp, Finmap.lookup_eq_none]
      exact hno
    · by_cases hp : s.Promoted t.post.id c.id
      · refine .inl ⟨Finmap.lookup_eq_none.mp (hp.lookup_orphans now), now, ?_⟩
        rw [hp.lookup_comments hat, Finmap.lookup_eq_none.mpr hno]
        rfl
      · refine .inr ⟨?_, at₀, by rw [lookup_orphans_of_not_promoted hp, hat]⟩
        rw [← Finmap.lookup_eq_none, lookup_comments_of_not_promoted hp, Finmap.lookup_eq_none]
        exact hno
  case ahead =>
    intro c hc hnew
    have hp : ¬s.Promoted t.post.id c.id := by
      intro hp
      obtain ⟨d, hd, hid⟩ := h.buffered c.id (hwaiting hp)
      exact hnew (eq_of_id (h.subset d hd) hc hid ▸ hd)
    rw [← Finmap.lookup_eq_none, lookup_comments_of_not_promoted hp, Finmap.lookup_eq_none]
    exact h.ahead c hc hnew
  case buffered =>
    intro id hid
    exact h.buffered id (Finmap.mem_keys.mp (promoteOrphanComments_keys_subset (Finmap.mem_keys.mpr hid)))

/-- A comment stored at once. -/
theorem store (h : t.Kept seen s) (hc : c ∈ t.comments) (hnew : c ∉ seen) (now : Int) :
    t.Kept (c :: seen) (s.storeComment now c) := by
  have hcomments := storeComment_comments now s c
  have horphans := storeComment_orphans now s c
  have hne : ∀ d ∈ t.comments, d ≠ c → d.id ≠ c.id := fun d hd hdc hid => hdc (eq_of_id hd hc hid)
  constructor
  case subset => exact List.forall_mem_cons.mpr ⟨hc, h.subset⟩
  case placed =>
    intro d hd
    rcases List.mem_cons.mp hd with rfl | hold
    · refine .inl ⟨?_, now, by rw [hcomments, if_pos rfl]⟩
      rw [← Finmap.lookup_eq_none, horphans, if_pos rfl]
    · have hid := hne d (h.subset d hold) fun he => hnew (he ▸ hold)
      simp only [SocialComment.Placed, ← Finmap.lookup_eq_none, hcomments, horphans, if_neg hid]
      simpa only [SocialComment.Placed, ← Finmap.lookup_eq_none] using h.placed d hold
  case ahead =>
    intro d hd hdn
    have hid := hne d hd fun he => hdn (he ▸ List.mem_cons_self)
    rw [← Finmap.lookup_eq_none, hcomments, if_neg hid, Finmap.lookup_eq_none]
    exact h.ahead d hd fun hin => hdn (List.mem_cons_of_mem _ hin)
  case buffered =>
    intro k hk
    obtain ⟨d, hd, hid⟩ := h.buffered k (Table.mem_remove.mp hk).2
    exact ⟨d, List.mem_cons_of_mem _ hd, hid⟩

/-- A comment that waits. -/
theorem buffer (h : t.Kept seen s) (hc : c ∈ t.comments) (hnew : c ∉ seen) (now : Int) :
    t.Kept (c :: seen) (s.bufferComment now c) := by
  have hseen : ∀ d ∈ c :: seen, d ∈ t.comments := List.forall_mem_cons.mpr ⟨hc, h.subset⟩
  have hkeys : ∀ k ∈ s.orphans.put c.id (c.orphanRow now), ∃ d ∈ c :: seen, d.id = k := by
    intro k hk
    rcases Table.mem_put.mp hk with rfl | hold
    · exact ⟨c, List.mem_cons_self, rfl⟩
    · obtain ⟨d, hd, hid⟩ := h.buffered k hold
      exact ⟨d, List.mem_cons_of_mem _ hd, hid⟩
  have hroom : (s.bufferComment now c).orphans = s.orphans.put c.id (c.orphanRow now) := by
    refine Table.keepNewest_eq_self (t.card_le_of_ids fun k hk => ?_)
    obtain ⟨d, hd, hid⟩ := hkeys k (Finmap.mem_keys.mp hk)
    exact ⟨d, hseen d hd, hid⟩
  constructor
  case subset => exact hseen
  case placed =>
    intro d hd
    rcases List.mem_cons.mp hd with rfl | hold
    · exact .inr ⟨h.ahead d hc hnew, now, by rw [hroom, Table.lookup_put, if_pos rfl]⟩
    · have hid : d.id ≠ c.id := fun hid => hnew (eq_of_id (h.subset d hold) hc hid ▸ hold)
      have hsame : (s.bufferComment now c).comments = s.comments := rfl
      simp only [SocialComment.Placed, ← Finmap.lookup_eq_none, hroom, hsame, Table.lookup_put, if_neg hid]
      simpa only [SocialComment.Placed, ← Finmap.lookup_eq_none] using h.placed d hold
  case ahead => exact fun d hd hdn => h.ahead d hd fun hin => hdn (List.mem_cons_of_mem _ hin)
  case buffered =>
    rw [hroom]
    exact hkeys

/-- A comment delivered. -/
theorem insertComment (h : t.Kept seen s) (hc : c ∈ t.comments) (hnew : c ∉ seen) (now : Int) :
    t.Kept (c :: seen) (s.insertComment now c).2 := by
  by_cases hr : s.ready c
  · rw [insertComment_ready hr, t.under c hc]
    exact (h.store hc hnew now).promote now
  · rw [insertComment_waits hr]
    exact h.buffer hc hnew now

/-- The post written for the first time. -/
theorem replacePost (h : t.Kept seen s) (hnew : t.post.id ∉ s.posts) (now : Int) :
    t.Kept seen (s.replacePost now t.post) := by
  refine ⟨h.subset, ?_, ?_, h.buffered⟩
  · simpa only [SocialComment.Placed, SocialStore.replacePost, keptComments_new hnew] using h.placed
  · simpa only [SocialStore.replacePost, keptComments_new hnew] using h.ahead

/-- The post delivered, for the first time. -/
theorem insertPost (h : t.Kept seen s) (hnew : t.post.id ∉ s.posts) (now : Int) :
    t.Kept seen (s.insertPost now t.post).2 := by
  by_cases hr : s.refuses t.post
  · rw [insertPost_refused hr]
    exact h
  · rw [insertPost_stored hr]
    exact (h.replacePost hnew now).promote now

/-- Once all comments are delivered, they are settled if the buffer is empty. -/
theorem settled_iff_empty (h : t.Kept seen s) (hall : ∀ c ∈ t.comments, c ∈ seen) : t.Settled s ↔ s.orphans = ∅ := by
  refine ⟨fun hs => hs.2, fun hempty => ⟨fun c hc => ?_, hempty⟩⟩
  rcases h.placed c (hall c hc) with ⟨-, hstored⟩ | ⟨-, at₀, hat⟩
  · exact hstored
  · rw [hempty, Finmap.lookup_empty] at hat
    cases hat

/-- A comment that waits has the parent it was sent with. -/
theorem need_eq (h : t.Kept seen s) {k : String} (hk : k ∈ s.orphans) :
    ∃ c ∈ seen, c.id = k ∧ s.scan.need k = c.parent ∧ k ∉ s.comments := by
  obtain ⟨c, hc, rfl⟩ := h.buffered k hk
  rcases h.placed c hc with ⟨hno, -⟩ | ⟨hno, at₀, hat⟩
  · exact absurd hk hno
  · exact ⟨c, hc, rfl, by simp only [scan, hat, Option.bind_some]; rfl, hno⟩

/-- **Once all comments are delivered, promotion settles them if no set of them closes the window.** -/
theorem settled_promote_iff (h : t.Kept seen s) (hall : ∀ c ∈ t.comments, c ∈ seen) (now : Int) :
    t.Settled (s.promoteOrphanComments now t.post.id) ↔ s.scan.Open (s.waitingFor t.post.id) := by
  obtain ⟨hpromotes, hstuck⟩ := promotes_promoteOrphanComments (.refl now t.post.id s)
  have hmem : ∀ {k}, k ∈ s.waitingFor t.post.id → k ∈ s.orphans := h.mem_waitingFor.mp
  have hdisj : ∀ k ∈ s.waitingFor t.post.id, k ∉ s.storedIds := by
    intro k hk
    obtain ⟨-, -, -, -, hno⟩ := h.need_eq (hmem hk)
    exact hno
  have hclosed : ∀ k ∈ s.waitingFor t.post.id, ∀ p, s.scan.need k = some p →
      p ∈ s.storedIds ∨ p ∈ s.waitingFor t.post.id := by
    intro k hk p hp
    obtain ⟨c, hc, -, hneed, -⟩ := h.need_eq (hmem hk)
    obtain ⟨d, hd, rfl⟩ := t.closed c (h.subset c hc) p (hneed ▸ hp)
    rcases h.placed d (hall d hd) with ⟨-, at₀, hat⟩ | ⟨-, at₀, hat⟩
    · exact .inl (Table.mem_of_lookup hat)
    · exact .inr (h.mem_waitingFor.mpr (Table.mem_of_lookup hat))
  rw [(h.promote now).settled_iff_empty hall, ← hpromotes.drains.eq_empty_iff hstuck hdisj hclosed,
    Finset.eq_empty_iff_forall_notMem]
  refine ⟨fun hempty k hk => ?_, fun hempty => Finmap.ext_lookup fun k => ?_⟩
  · have hin := (h.promote now).mem_waitingFor.mp hk
    rw [hempty] at hin
    exact Finmap.notMem_empty hin
  · rw [Finmap.lookup_empty, Finmap.lookup_eq_none]
    exact fun hin => hempty k ((h.promote now).mem_waitingFor.mpr hin)

/-! ### The run -/

/-- **Along every run each comment delivered is stored or waits.** -/
theorem deliverAll (h : t.Kept seen s) {ds : List (Int × Delivery)} (hnodup : (seen ++ commentsOf ds).Nodup)
    (hsub : ∀ c ∈ commentsOf ds, c ∈ t.comments)
    (hposts : postsOf ds = [] ∨ postsOf ds = [t.post] ∧ t.post.id ∉ s.posts) :
    t.Kept ((commentsOf ds).reverse ++ seen) (s.deliverAll ds) := by
  induction ds generalizing s seen with
  | nil => exact h
  | cons d ds ih =>
    obtain ⟨now, p | c⟩ := d
    · rcases hposts with hnone | ⟨hone, hnew⟩
      · cases hnone
      · obtain ⟨rfl, hrest⟩ : p = t.post ∧ postsOf ds = [] := List.cons_eq_cons.mp hone
        exact ih (h.insertPost hnew now) hnodup hsub (.inl hrest)
    · have hc : c ∈ t.comments := hsub c List.mem_cons_self
      have hperm : (seen ++ c :: commentsOf ds).Perm (c :: (seen ++ commentsOf ds)) := List.perm_middle
      have hnodup' : (c :: seen ++ commentsOf ds).Nodup := hperm.nodup_iff.mp hnodup
      have hnew : c ∉ seen := fun hin =>
        (List.nodup_cons.mp hnodup').1 (List.mem_append_left _ hin)
      have hposts' : postsOf ds = [] ∨ postsOf ds = [t.post] ∧ t.post.id ∉ (s.insertComment now c).2.posts := by
        rw [insertComment_posts]
        exact hposts
      have hrest := ih (h.insertComment hc hnew now) hnodup' (fun d hd => hsub d (List.mem_cons_of_mem _ hd)) hposts'
      have heq : (commentsOf ((now, .comment c) :: ds)).reverse ++ seen = (commentsOf ds).reverse ++ c :: seen := by
        rw [show commentsOf ((now, .comment c) :: ds) = c :: commentsOf ds from rfl, List.reverse_cons,
          List.append_assoc, List.singleton_append]
      rw [heq]
      exact hrest

end Kept

/-- Before the post arrives, comments are only buffered. -/
theorem deliverAll_unposted {ds : List (Int × Delivery)} (hposts : postsOf ds = []) (hnew : t.post.id ∉ s.posts)
    (hsub : ∀ c ∈ commentsOf ds, c ∈ t.comments) :
    (s.deliverAll ds).posts = s.posts ∧ (s.deliverAll ds).comments = s.comments := by
  induction ds generalizing s with
  | nil => exact ⟨rfl, rfl⟩
  | cons d ds ih =>
    obtain ⟨now, p | c⟩ := d
    · cases hposts
    · have hwaits : ¬s.ready c := fun hr => hnew (t.under c (hsub c List.mem_cons_self) ▸ hr.1)
      have hsub' : ∀ d ∈ commentsOf ds, d ∈ t.comments := fun d hd => hsub d (List.mem_cons_of_mem _ hd)
      obtain ⟨hp, hc⟩ := ih (s := (s.insertComment now c).2) hposts
        (by rw [insertComment_waits hwaits]; exact hnew) hsub'
      rw [insertComment_waits hwaits] at hp hc
      rw [SocialStore.deliverAll, List.foldl_cons, deliver, insertComment_waits hwaits]
      exact ⟨hp, hc⟩

/-- The last delivery can be stored at once. -/
def Order.Lands (o : t.Order) (s : SocialStore) : Prop :=
  match o.last.2 with
  | .post p => p.authorPubkey ∈ s.users ∨ t.comments = []
  | .comment c => s.ready c

/-- The deliveries of a thread are its comments and its post. -/
theorem Order.parts (o : t.Order) : (commentsOf o.all).Perm t.comments ∧ postsOf o.all = [t.post] := by
  have hcomments := o.perm.filterMap Delivery.asComment
  have hposts := o.perm.filterMap Delivery.asPost
  rw [List.filterMap_map] at hcomments hposts
  have hall : (t.comments.map Delivery.comment).filterMap Delivery.asComment = t.comments := by
    rw [List.filterMap_map]
    exact List.filterMap_some
  have hnone : (t.comments.map Delivery.comment).filterMap Delivery.asPost = [] := by
    rw [List.filterMap_map]
    exact List.filterMap_eq_nil_iff.mpr fun _ _ => rfl
  rw [List.filterMap_cons_none rfl, hall] at hcomments
  simp only [List.filterMap_cons, Delivery.asPost, hnone] at hposts
  exact ⟨hcomments, List.perm_singleton.mp hposts⟩

/-- The post comes last. -/
theorem Kept.settled_post_iff (h : t.Kept seen s) (hall : ∀ c ∈ t.comments, c ∈ seen) (hnew : t.post.id ∉ s.posts)
    (hwait : ∀ c ∈ t.comments, c.id ∉ s.comments) (now : Int) :
    t.Settled (s.insertPost now t.post).2 ↔
      (t.post.authorPubkey ∈ s.users ∨ t.comments = []) ∧ s.scan.Open (s.waitingFor t.post.id) := by
  by_cases hr : s.refuses t.post
  · have hauthor := (refuses_new hnew).mp hr
    rw [insertPost_refused hr, or_iff_right hauthor]
    constructor
    · intro hs
      have hnil : t.comments = [] := by
        refine List.eq_nil_iff_forall_not_mem.mpr fun c hc => hwait c hc ?_
        obtain ⟨at₀, hat⟩ := hs.1 c hc
        exact Table.mem_of_lookup hat
      refine ⟨hnil, fun T hT hne => ?_⟩
      obtain ⟨k, hk⟩ := hne
      obtain ⟨row, hrow, -⟩ := SocialStore.mem_waitingFor.mp (hT hk)
      rw [hs.2, Finmap.lookup_empty] at hrow
      cases hrow
    · rintro ⟨hnil, -⟩
      rw [h.settled_iff_empty hall]
      refine Finmap.ext_lookup fun k => ?_
      rw [Finmap.lookup_empty, Finmap.lookup_eq_none]
      intro hk
      obtain ⟨c, hc, -⟩ := h.buffered k hk
      exact absurd (h.subset c hc) (hnil ▸ List.not_mem_nil)
  · have hauthor : t.post.authorPubkey ∈ s.users := by
      rw [refuses_new hnew, not_not] at hr
      exact hr
    rw [insertPost_stored hr, (h.replacePost hnew now).settled_promote_iff hall]
    exact (and_iff_right (.inl hauthor)).symm

/-- A comment comes last. -/
theorem Kept.settled_comment_iff (h : t.Kept seen s) (hc : c ∈ t.comments) (hnew : c ∉ seen)
    (hall : ∀ d ∈ t.comments, d ∈ c :: seen) (now : Int) :
    t.Settled (s.insertComment now c).2 ↔ s.ready c ∧ s.scan.Open (s.waitingFor t.post.id) := by
  by_cases hr : s.ready c
  · have hout : c.id ∉ s.orphans := by
      intro hin
      obtain ⟨d, hd, hid⟩ := h.buffered c.id hin
      exact hnew (eq_of_id (h.subset d hd) hc hid ▸ hd)
    have hsame : (s.storeComment now c).orphans = s.orphans := Table.remove_of_notMem hout
    obtain ⟨hscan, hwaiting⟩ := waiting_congr t.post.id hsame
    rw [insertComment_ready hr, t.under c hc, (h.store hc hnew now).settled_promote_iff hall, hscan, hwaiting,
      and_iff_right hr]
  · rw [insertComment_waits hr, (h.buffer hc hnew now).settled_iff_empty hall]
    refine ⟨fun hempty => ?_, fun hs => absurd hs.1 hr⟩
    rcases (h.buffer hc hnew now).placed c List.mem_cons_self with ⟨-, at₀, hat⟩ | ⟨-, at₀, hat⟩
    · exact absurd (Table.mem_of_lookup hat) (h.ahead c hc hnew)
    · rw [hempty, Finmap.lookup_empty] at hat
      cases hat

/-- What the store holds when the last delivery comes. -/
theorem Order.kept (o : t.Order) (hs : t.Unseen s) : t.Kept (commentsOf o.before).reverse (s.deliverAll o.before) := by
  obtain ⟨hcomments, hposts⟩ := o.parts
  have hc : commentsOf o.all = commentsOf o.before ++ commentsOf [o.last] := List.filterMap_append
  have hp : postsOf o.all = postsOf o.before ++ postsOf [o.last] := List.filterMap_append
  have hnodup : (commentsOf o.all).Nodup := hcomments.nodup_iff.mpr t.nodup.of_map
  have hsub : ∀ c ∈ commentsOf o.before, c ∈ t.comments := fun c hin =>
    hcomments.subset (hc ▸ List.mem_append_left _ hin)
  have honce : postsOf o.before = [] ∨ postsOf o.before = [t.post] ∧ t.post.id ∉ s.posts := by
    rw [hp, List.append_eq_singleton_iff] at hposts
    rcases hposts with ⟨hnone, -⟩ | ⟨hone, -⟩
    · exact .inl hnone
    · exact .inr ⟨hone, hs.post⟩
  have hkept := (kept_nil hs).deliverAll ((hc ▸ hnodup).of_append_left) hsub honce
  rwa [List.append_nil] at hkept

/-- If the post comes last, all comments come before it. -/
theorem Order.post_last (o : t.Order) (hlast : o.last.2 = .post t.post) :
    (commentsOf o.before).Perm t.comments ∧ postsOf o.before = [] := by
  obtain ⟨hcomments, hposts⟩ := o.parts
  obtain ⟨before, ⟨now, _⟩, hperm⟩ := o
  cases hlast
  have hc : commentsOf (before ++ [(now, .post t.post)]) = commentsOf before := by
    rw [commentsOf, List.filterMap_append]
    exact List.append_nil _
  have hp : postsOf (before ++ [(now, .post t.post)]) = postsOf before ++ [t.post] := List.filterMap_append
  rw [Order.all, hc] at hcomments
  rw [Order.all, hp] at hposts
  exact ⟨hcomments, by simpa using hposts⟩

/-- Once all is delivered, the whole thread is stored exactly if the last delivery could be stored at once and no set of
the comments that waited then closed the window. -/
theorem settled_all_iff (o : t.Order) (hs : t.Unseen s) : t.Settled (s.deliverAll o.all) ↔
    o.Lands (s.deliverAll o.before) ∧
      (s.deliverAll o.before).scan.Open ((s.deliverAll o.before).waitingFor t.post.id) := by
  obtain ⟨hcomments, hposts⟩ := o.parts
  have hlast : s.deliverAll o.all = (s.deliverAll o.before).deliver o.last := by
    rw [SocialStore.deliverAll, Order.all, List.foldl_append]
    rfl
  have hkept := o.kept hs
  have hnodup : (commentsOf o.all).Nodup := hcomments.nodup_iff.mpr t.nodup.of_map
  have hpost := o.post_last
  obtain ⟨before, ⟨now, p | c⟩, hperm⟩ := o
  · obtain rfl : p = t.post := by
      have hp : p ∈ postsOf (before ++ [(now, .post p)]) :=
        List.mem_filterMap.mpr ⟨_, List.mem_append_right _ List.mem_cons_self, rfl⟩
      exact List.mem_singleton.mp (hposts ▸ hp)
    obtain ⟨hall, hnone⟩ := hpost rfl
    obtain ⟨hsame, hwait⟩ := deliverAll_unposted hnone hs.post fun c hin => hall.subset hin
    rw [hlast]
    exact hkept.settled_post_iff (fun c hin => List.mem_reverse.mpr (hall.symm.subset hin)) (hsame ▸ hs.post)
      (fun c hin => hwait ▸ hs.comments c hin) now
  · have hc : commentsOf (before ++ [(now, .comment c)]) = commentsOf before ++ [c] := List.filterMap_append
    rw [Order.all, hc] at hcomments hnodup
    have hct : c ∈ t.comments := hcomments.subset (List.mem_append_right _ List.mem_cons_self)
    have hnew : c ∉ (commentsOf before).reverse := fun hin =>
      (List.nodup_append.mp hnodup).2.2 c (List.mem_reverse.mp hin) c List.mem_cons_self rfl
    have hall : ∀ d ∈ t.comments, d ∈ c :: (commentsOf before).reverse := by
      intro d hd
      rcases List.mem_append.mp (hcomments.symm.subset hd) with hin | hin
      · exact List.mem_cons_of_mem _ (List.mem_reverse.mpr hin)
      · exact List.mem_singleton.mp hin ▸ List.mem_cons_self
    rw [hlast]
    exact hkept.settled_comment_iff hct hnew hall now

/-- **When a thread settles.** The buffer stays within its cap in every order; once all is delivered, the whole thread
is stored exactly if the last delivery could be stored at once and no set of the comments that waited then closed the
window of the promotion. -/
theorem settled_iff (o : t.Order) (hs : t.Unseen s) :
    ((∀ ds, ds <+: o.all → (s.deliverAll ds).orphans.keys.card ≤ maxOrphanComments) ∧ t.Settled (s.deliverAll o.all)) ↔
      o.Lands (s.deliverAll o.before) ∧
        (s.deliverAll o.before).scan.Open ((s.deliverAll o.before).waitingFor t.post.id) := by
  have hcap : s.orphans.keys.card ≤ maxOrphanComments := by
    rw [hs.buffer]
    exact Nat.zero_le _
  rw [and_iff_right fun ds _ => deliverAll_bounded hcap ds]
  exact settled_all_iff o hs

/-- **A thread settles if the last delivery lands and what waits fits in the window.** -/
theorem settles_of_few (o : t.Order) (hs : t.Unseen s) (hlands : o.Lands (s.deliverAll o.before))
    (hfew : (s.deliverAll o.before).orphans.keys.card ≤ orphanScanLimit) : t.Settled (s.deliverAll o.all) := by
  have hkept := o.kept hs
  obtain ⟨depth, hdepth⟩ := t.rooted
  have hsub : (s.deliverAll o.before).waitingFor t.post.id ⊆ (s.deliverAll o.before).orphans.keys :=
    fun k hk => Finmap.mem_keys.mpr (hkept.mem_waitingFor.mp hk)
  have hrooted : ∀ k ∈ (s.deliverAll o.before).waitingFor t.post.id, ∀ p,
      (s.deliverAll o.before).scan.need k = some p → depth p < depth k := by
    intro k hk p hp
    obtain ⟨c, hc, rfl, hneed, -⟩ := hkept.need_eq (hkept.mem_waitingFor.mp hk)
    exact hdepth c (hkept.subset c hc) p (hneed ▸ hp)
  exact (settled_all_iff o hs).mpr
    ⟨hlands, Scan.open_of_card_le ((Finset.card_le_card hsub).trans hfew) hrooted⟩

end Thread

/-- What is delivered in one second waits since then. -/
theorem deliverAll_stamp {s : SocialStore} {now : Int} {ds : List (Int × Delivery)} (hds : ∀ d ∈ ds, d.1 = now)
    (hs : ∀ k row, s.orphans.lookup k = some row → row.createdAt = now) {k : String} {row : OrphanRow}
    (h : (s.deliverAll ds).orphans.lookup k = some row) : row.createdAt = now := by
  induction ds generalizing s with
  | nil => exact hs k row h
  | cons d ds ih =>
    refine ih (s := s.deliver d) (fun e he => hds e (List.mem_cons_of_mem _ he)) (fun j r hr => ?_) h
    have hnow : d.1 = now := hds d List.mem_cons_self
    obtain ⟨t, p | c⟩ := d
    · exact hs j r (insertPost_orphans hr)
    · rcases insertComment_orphans hr with hold | ⟨-, rfl⟩
      · exact hs j r hold
      · exact hnow

namespace Thread

variable {t : Thread} {s : SocialStore} {now : Int} {root : SocialComment}

/-- What waits before the post comes, if all came in one second. -/
theorem Order.waits (o : t.Order) (hs : t.Unseen s) (hlast : o.last.2 = .post t.post) (hnow : ∀ d ∈ o.before, d.1 = now)
    {c : SocialComment} (hc : c ∈ t.comments) :
    (s.deliverAll o.before).orphans.lookup c.id = some (c.orphanRow now) := by
  obtain ⟨hall, hnone⟩ := o.post_last hlast
  obtain ⟨-, hwait⟩ := deliverAll_unposted hnone hs.post fun c hin => hall.subset hin
  rcases (o.kept hs).placed c (List.mem_reverse.mpr (hall.symm.subset hc)) with ⟨-, at₀, hat⟩ | ⟨-, at₀, hat⟩
  · rw [hwait] at hat
    exact absurd (Table.mem_of_lookup hat) (hs.comments c hc)
  · have hempty : ∀ k row, s.orphans.lookup k = some row → row.createdAt = now := by
      intro k row hrow
      rw [hs.buffer] at hrow
      cases hrow
    have hstamp : at₀ = now := deliverAll_stamp hnow hempty hat
    rw [hat, hstamp]

/-- The window of a post with replies that came in the same second and before a comment in the order of the ids. -/
theorem Order.shut (o : t.Order) (hs : t.Unseen s) (hlast : o.last.2 = .post t.post) (hnow : ∀ d ∈ o.before, d.1 = now)
    (hroot : root ∈ t.comments)
    (hreplies : ∀ c ∈ t.comments, c ≠ root → c.parent = some root.id ∧ c.id < root.id)
    (hmany : orphanScanLimit < t.comments.length) :
    ¬(s.deliverAll o.before).scan.Open ((s.deliverAll o.before).waitingFor t.post.id) := by
  let w := (s.deliverAll o.before).waitingFor t.post.id
  have hkept := o.kept hs
  have hrow : ∀ c ∈ t.comments, (s.deliverAll o.before).orphans.lookup c.id = some (c.orphanRow now) :=
    fun c hc => o.waits hs hlast hnow hc
  have hmem : ∀ c ∈ t.comments, c.id ∈ w := fun c hc => hkept.mem_waitingFor.mpr (Table.mem_of_lookup (hrow c hc))
  have hrank : orphanScanLimit ≤ (s.deliverAll o.before).scan.rank w root.id := by
    let others := (t.comments.erase root).map SocialComment.id
    have hnodup : others.Nodup := t.nodup.sublist (List.Sublist.map _ List.erase_sublist)
    have hsub : others.toFinset ⊆ w.filter fun k =>
        (s.deliverAll o.before).scan.age k < (s.deliverAll o.before).scan.age root.id := by
      intro k hk
      obtain ⟨c, hc, rfl⟩ := List.mem_map.mp (List.mem_toFinset.mp hk)
      obtain ⟨hne, hct⟩ := (List.Nodup.mem_erase_iff t.nodup.of_map).mp hc
      refine Finset.mem_filter.mpr ⟨hmem c hct, ?_⟩
      simp only [scan, Table.age, hrow c hct, hrow root hroot]
      exact Prod.Lex.toLex_lt_toLex.mpr (.inr ⟨rfl, (hreplies c hct hne).2⟩)
    calc orphanScanLimit ≤ others.length := by
          rw [List.length_map, List.length_erase_of_mem hroot]
          omega
      _ = others.toFinset.card := (List.toFinset_card_of_nodup hnodup).symm
      _ ≤ _ := Finset.card_le_card hsub
  intro hopen
  obtain ⟨k, hk, hlt, hout⟩ := hopen w (Finset.Subset.refl _) ⟨_, hmem root hroot⟩
  obtain ⟨c, hc, rfl⟩ := hkept.buffered k (hkept.mem_waitingFor.mp hk)
  have hct := hkept.subset c hc
  by_cases hne : c = root
  · rw [hne] at hlt
    exact absurd hlt (Nat.not_lt.mpr hrank)
  · refine hout root.id ?_ (hmem root hroot)
    simp only [scan, hrow c hct, Option.bind_some]
    exact (hreplies c hct hne).1

/-- **Enough replies that arrive before a comment keep it in the buffer for good.** -/
theorem Order.starved (o : t.Order) (hs : t.Unseen s) (hlast : o.last = (now, .post t.post))
    (hnow : ∀ d ∈ o.before, d.1 = now) (hroot : root ∈ t.comments)
    (hreplies : ∀ c ∈ t.comments, c ≠ root → c.parent = some root.id ∧ c.id < root.id)
    (hmany : orphanScanLimit < t.comments.length) : ¬t.Settled (s.deliverAll o.all) := by
  intro hsettled
  have hpost : o.last.2 = .post t.post := by rw [hlast]
  obtain ⟨hall, hnone⟩ := o.post_last hpost
  obtain ⟨hsame, hwait⟩ := deliverAll_unposted hnone hs.post fun c hin => hall.subset hin
  have hend : s.deliverAll o.all = ((s.deliverAll o.before).insertPost now t.post).2 := by
    rw [deliverAll, Order.all, List.foldl_append, hlast]
    rfl
  rw [hend] at hsettled
  refine o.shut hs hpost hnow hroot hreplies hmany ((((o.kept hs).settled_post_iff ?_ ?_ ?_ now).mp hsettled).2)
  · exact fun c hin => List.mem_reverse.mpr (hall.symm.subset hin)
  · exact hsame ▸ hs.post
  · exact fun c hin => hwait ▸ hs.comments c hin

end Thread

/-! ## A thread that does not settle -/

def burstAuthor : String := String.ofList (List.replicate 64 'a')

def burstRoot : SocialComment := ⟨"root", .tuitter, burstAuthor, "post", none, "hello"⟩

/-- Two hexadecimal digits. -/
def burstId (i : Nat) : String := String.ofList [hexDigit (i / 16), hexDigit (i % 16)]

def burstReply (i : Nat) : SocialComment := ⟨burstId i, .tuitter, burstAuthor, "post", some "root", "hi"⟩

theorem hexDigit_inj {i j : Nat} (hi : i < 16) (hj : j < 16) (h : hexDigit i = hexDigit j) : i = j := by
  have hval := hexVal_hexDigit i hi
  rw [h, hexVal_hexDigit j hj] at hval
  exact (Option.some.inj hval).symm

theorem hexDigit_lt {i : Nat} (hi : i < 16) : hexDigit i < 'r' := by
  revert i
  decide

theorem burstId_inj {i j : Nat} (hi : i < 256) (hj : j < 256) (h : burstId i = burstId j) : i = j := by
  have hlist := String.ofList_injective h
  simp only [List.cons.injEq, and_true] at hlist
  have h₁ := hexDigit_inj (by omega) (by omega) hlist.1
  have h₂ := hexDigit_inj (by omega) (by omega) hlist.2
  omega

theorem burstId_lt_root {i : Nat} (hi : i < 256) : burstId i < "root" := by
  rw [String.lt_iff_toList_lt, burstId, String.toList_ofList]
  exact List.Lex.rel (hexDigit_lt (by omega))

theorem burstReply_parent (i : Nat) : (burstReply i).parent = some "root" := by simp [burstReply, SocialComment.parent]

/-- A comment with 256 replies. -/
def burst : Thread where
  post := ⟨"post", .tuitter, burstAuthor, none, "news", none, []⟩
  comments := (List.range 256).map burstReply ++ [burstRoot]
  small := by simp [maxOrphanComments]
  nodup := by
    rw [List.map_append, List.map_map]
    refine List.nodup_append.mpr ⟨List.nodup_range.map_on fun i hi j hj h => ?_, List.nodup_singleton _, ?_⟩
    · exact burstId_inj (List.mem_range.mp hi) (List.mem_range.mp hj) h
    · intro a ha b hb
      obtain ⟨i, hi, rfl⟩ := List.mem_map.mp ha
      obtain rfl := List.mem_singleton.mp hb
      exact (burstId_lt_root (List.mem_range.mp hi)).ne
  under := by
    intro c hc
    rcases List.mem_append.mp hc with hr | hr
    · obtain ⟨i, -, rfl⟩ := List.mem_map.mp hr
      rfl
    · obtain rfl := List.mem_singleton.mp hr
      rfl
  closed := by
    intro c hc p hp
    refine ⟨burstRoot, List.mem_append_right _ List.mem_cons_self, ?_⟩
    rcases List.mem_append.mp hc with hr | hr
    · obtain ⟨i, -, rfl⟩ := List.mem_map.mp hr
      rw [burstReply_parent] at hp
      exact Option.some.inj hp
    · obtain rfl := List.mem_singleton.mp hr
      cases hp
  rooted := by
    refine ⟨fun k => if k = "root" then 0 else 1, fun c hc p hp => ?_⟩
    rcases List.mem_append.mp hc with hr | hr
    · obtain ⟨i, hi, rfl⟩ := List.mem_map.mp hr
      rw [burstReply_parent] at hp
      obtain rfl := Option.some.inj hp
      dsimp only
      rw [if_pos rfl, if_neg (show (burstReply i).id ≠ "root" from (burstId_lt_root (List.mem_range.mp hi)).ne)]
      exact Nat.one_pos
    · obtain rfl := List.mem_singleton.mp hr
      cases hp

theorem burstRoot_mem : burstRoot ∈ burst.comments := List.mem_append_right _ List.mem_cons_self

/-- The replies come first, then the comment, then the post, all in the same second. -/
def burstOrder : burst.Order where
  before := burst.comments.map fun c => (0, .comment c)
  last := (0, .post burst.post)
  perm := by
    rw [List.map_append, List.map_map]
    exact List.perm_append_singleton _ _

/-- A store that knows the author. -/
def burstStore : SocialStore := SocialStore.empty.ensureUser 0 burstAuthor

theorem burst_unseen : burst.Unseen burstStore where
  buffer := rfl
  post := Finmap.notMem_empty
  comments _ _ := Finmap.notMem_empty

/-- When this thread settles. -/
theorem burst_settled_iff : ((∀ ds, ds <+: burstOrder.all →
    (burstStore.deliverAll ds).orphans.keys.card ≤ maxOrphanComments) ∧
      burst.Settled (burstStore.deliverAll burstOrder.all)) ↔
    burstOrder.Lands (burstStore.deliverAll burstOrder.before) ∧
      (burstStore.deliverAll burstOrder.before).scan.Open
        ((burstStore.deliverAll burstOrder.before).waitingFor burst.post.id) :=
  Thread.settled_iff burstOrder burst_unseen

/-- **A comment whose 256 replies arrived before it is never stored.** -/
theorem burst_unsettled : burst.Unseen burstStore ∧ ¬burst.Settled (burstStore.deliverAll burstOrder.all) := by
  refine ⟨burst_unseen, burstOrder.starved burst_unseen rfl (fun d hd => ?_) burstRoot_mem (fun c hc hne => ?_) ?_⟩
  · obtain ⟨e, -, rfl⟩ := List.mem_map.mp hd
    rfl
  · rcases List.mem_append.mp hc with hr | hr
    · obtain ⟨i, hi, rfl⟩ := List.mem_map.mp hr
      exact ⟨burstReply_parent i, burstId_lt_root (List.mem_range.mp hi)⟩
    · exact absurd (List.mem_singleton.mp hr) hne
  · simp [burst, orphanScanLimit]

end Onde.Social

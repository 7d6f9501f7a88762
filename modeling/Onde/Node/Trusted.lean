import Onde.Node.Receptions
import Onde.Node.SocialCache

/-!
# What a trusted author sends

* `takes_of_room`: a social event that is taken whatever the rest of the node;
* `Welcomes`: a node asks no proof of work of an author, holds nothing against it and has room for its events;
* `Welcomes.takes`, `Welcomes.after`: such a node takes its social events, one after the other;
* `cacheNode`: a node with an empty store that trusts itself and another author, and events of both.
-/

namespace Onde

open Lib Crypto Reputation Protocol Social Storage

variable {h : Host}

namespace Node

variable {env : Env} {now : Nat} {n : Node h} {event : MeshEvent} {a : SocialAction} {author : String} {room : Nat}

/-- No proof of work is asked of the author, nothing is held against it, and some of its events fit in the window. -/
structure Welcomes (author : String) (room : Nat) (n : Node h) : Prop where
  floor : n.reputation.requiredPowDifficulty author = 0
  clean : n.reputation.abuse.lookup author = none
  stamps : (n.spamGuard.stamps author).length + room ≤ spamBudgetPerWindow

/-- Signed events of an author with a clean record and room pass the gate, new or known. -/
theorem verdict_passes (hclean : n.reputation.abuse.lookup event.pubkey = none) (hroom : n.HasRoom now event.pubkey)
    (hs : event.signatureValid h.toPrimitives = true) : (n.verdict now event).passes = true := by
  have haccept : n.reputation.actionFor event.pubkey now ≠ .ignore := by
    rw [ReputationSystem.actionFor_none hclean]
    decide
  unfold verdict
  rw [hs, if_neg (by decide)]
  split
  · rfl
  · -- the two remaining refusals are excluded by `haccept` and `hroom`
    split <;> rfl

/-- They are taken if they read as an action. -/
theorem takes_of_room (hfloor : n.reputation.requiredPowDifficulty event.pubkey = 0)
    (hclean : n.reputation.abuse.lookup event.pubkey = none) (hroom : n.HasRoom now event.pubkey)
    (hd : Decodes h event a) (hs : event.checkSigned h.toPrimitives env.clock = .ok ())
    (hp : event.checkPow h.toPrimitives 0 = .ok ()) : Takes env now n event a := by
  refine ⟨verdict_passes hclean hroom (checkSigned_ok.mp hs).2.2.2, hd, ?_⟩
  rw [MeshEvent.validateWithReputation, hfloor]
  exact validateWithPowMin_ok.mpr ⟨hs, hp⟩

theorem Welcomes.takes (hw : n.Welcomes event.pubkey (room + 1)) (hd : Decodes h event a)
    (hs : event.checkSigned h.toPrimitives env.clock = .ok ()) (hp : event.checkPow h.toPrimitives 0 = .ok ()) :
    Takes env now n event a := by
  have hroom : n.HasRoom now event.pubkey := by
    have hlt : (n.spamGuard.stamps event.pubkey).length < spamBudgetPerWindow := by
      have := hw.stamps
      omega
    exact ((SpamGuard.purge_sublist _ _ _).length_le.trans_lt hlt).trans_le (budget_le_budgetAt n now)
  exact takes_of_room hw.floor hw.clean hroom hd hs hp

/-- A social event that is taken changes no reputation. -/
theorem Takes.reputation (ht : Takes env now n event a) :
    (n.receivePeerEvent env now event).node.reputation = n.reputation := by
  have hk := ht.decodes.isSocial
  have hroute : n.routeViolation env event = none := by
    refine routeViolation_none.mpr ⟨fun hk' => ?_, fun hk' => ?_, fun _ => ⟨?_, ht.valid⟩⟩
    · rw [hk'] at hk
      cases hk
    · rw [hk'] at hk
      cases hk
    · exact ⟨_, (socialPayload_ok_iff hk).mpr ⟨a, ht.decodes, rfl⟩⟩
  have hviol : (n.receivePeerEvent env now event).violation = none := by
    have hfull : n.verdict now event ≠ .full := fun hf => by
      have hpass := ht.passes
      rw [hf] at hpass
      cases hpass
    rw [(receivePeerEvent_spec env now n event).violation, if_neg hfull, if_pos ht.passes, hroute]
  have hrep : (n.receivePeerEvent env now event).node.reputation = _ :=
    receivePeerEvent_reputation (fun hk' => by rw [hk'] at hk; cases hk) (fun hk' => by rw [hk'] at hk; cases hk)
  rwa [hviol] at hrep

/-- **One more event of anyone leaves room for one event less.** -/
theorem Welcomes.after (hw : n.Welcomes author (room + 1)) (ht : Takes env now n event a) :
    (n.receivePeerEvent env now event).node.Welcomes author room := by
  refine ⟨ht.reputation ▸ hw.floor, ht.reputation ▸ hw.clean, ?_⟩
  have hstamps := hw.stamps
  have hle := (stamps_receive env now n event author).length_le
  split at hle
  · rw [List.length_append, List.length_singleton] at hle
    omega
  · omega

/-! The same with the clock of the file. -/

section

variable {n : Node h.withSocialStore}

theorem Welcomes.receive (hw : n.Welcomes author (room + 1)) (ht : Takes env now n event a) :
    (n.receive env now event).node.Welcomes author room := by
  have hw' : (n.atClock env).Welcomes author (room + 1) := ⟨hw.floor, hw.clean, hw.stamps⟩
  exact hw'.after (takes_atClock.mpr ht)

end

end Node

/-! ## Known values -/

def messageText : String :=
  "\x7b\"recipient\":\"ed4928c628d1c2c6eae90338905995612959273a5c63f93636c14614ac8737d1\",\"body\":\"OK\"\x7d"

def followText : String :=
  "\x7b\"followed\":\"ed4928c628d1c2c6eae90338905995612959273a5c63f93636c14614ac8737d1\"\x7d"

def unfollowText : String :=
  "\x7b\"followed\":\"ed4928c628d1c2c6eae90338905995612959273a5c63f93636c14614ac8737d1\",\"unfollow\":true\x7d"

def voteText : String := "\x7b\"target_id\":\"p\",\"direction\":1,\"target_table\":\"posts\"\x7d"

/-- The key of the node, -/
def knownNode : String := "8139770ea87d175f56a35466c34c7ecccb8d8a91b4ee37a25df60f5b8fc9b394"

/-- its post, -/
def nodePost : SocialPost := ⟨"p", .tuitter, knownNode, none, "mine", none, []⟩

/-- and a post of the author under the same id. -/
def authorPost : SocialPost := ⟨"p", .tuitter, knownAuthor, none, "taken", none, []⟩

def nodePostText : String :=
  "\x7b\"id\":\"p\",\"platform\":\"Tuitter\",\"author_pubkey\":" ++
    "\"8139770ea87d175f56a35466c34c7ecccb8d8a91b4ee37a25df60f5b8fc9b394\"," ++
    "\"title\":null,\"body\":\"mine\",\"community_slug\":null,\"media_urls\":[]\x7d"

def authorPostText : String :=
  "\x7b\"id\":\"p\",\"platform\":\"Tuitter\",\"author_pubkey\":" ++
    "\"8a88e3dd7409f195fd52db2d3cba5d72ca6709bf1d94121bf3748801b40f6f5c\"," ++
    "\"title\":null,\"body\":\"taken\",\"community_slug\":null,\"media_urls\":[]\x7d"

/-- The values behind the events below. -/
def socialValues : KnownValues where
  keys := knownKeys
  digests :=
    [((canonical knownAuthor 1700000000 .socialMessage [] messageText).render,
      "e66b486c5b3c709e1638f7e6d2ba40378d9699ee0f8cf0f68828dfaaac4d6665"),
     ((canonical knownAuthor 1700000000 .socialFollow [] followText).render,
      "318e016b3b3a4bd30de8a7384b3e394ec78eef24723fe5038d0e1ef0af93916d"),
     ((canonical knownAuthor 1700000001 .socialFollow [] unfollowText).render,
      "8e780a52f811a5eae602f7aa46a0733ea7db3640b71418da6311c6bb1410f75e"),
     ((canonical knownAuthor 1700000001 .socialVote [] voteText).render,
      "1306881210013024aa99912032ef41a17f942f5eae81ffdeb575b63891cbe9bc"),
     ((canonical knownNode 1700000000 .socialPost [] nodePostText).render,
      "e75fde060d382865ac5af074ae1712c87b3f35cb2b00254e4499cda547bee1ff"),
     ((canonical knownAuthor 1700000000 .socialPost [] authorPostText).render,
      "01a973c2dba19e55923835a42b89c052ce48baa3d216867155fca5ba69c04532"),
     ((canonical knownAuthor 1700000000 .socialPost [] nodePostText).render,
      "f0080d63b8b29743c56efde514474c53fce7dcd9e695045e192ae36af1dcac89")]
  signatures :=
    [(knownAuthor, "e66b486c5b3c709e1638f7e6d2ba40378d9699ee0f8cf0f68828dfaaac4d6665",
      "18eb4f94b430922ad85e9e20404a63c3ff88e5af92b250aa5af7002d0d076284" ++
      "1554bc292b98ebce64eafcd5ed37a7883ad1195d1592ebba8e6a777fff06c205"),
     (knownAuthor, "318e016b3b3a4bd30de8a7384b3e394ec78eef24723fe5038d0e1ef0af93916d",
      "0cb10241e2164bb1522a2cf5c824255d04d5361ebbd0b8448b85831eaae900b8" ++
      "e1bee33dcd2c7d27e3c9f3f67722ff4bfdffe95423c26210842da99e50e1aa00"),
     (knownAuthor, "8e780a52f811a5eae602f7aa46a0733ea7db3640b71418da6311c6bb1410f75e",
      "33672535b2d5776593ee219025b00e99d6ee1799e9a9dc3325f42c0a6030b894" ++
      "0a79a541c64005193e8b46c43deed579bc355c26f49e953565dc7ba03d63d50d"),
     (knownAuthor, "1306881210013024aa99912032ef41a17f942f5eae81ffdeb575b63891cbe9bc",
      "093f2c955d9c6a7e74c8694ec35a9cd531a8b3b778afb436b69b874d6e8681d4" ++
      "c499d738a805bae7281f353a14b81b6287455c35ea3a55ead2965d0f2fb2ff01"),
     (knownNode, "e75fde060d382865ac5af074ae1712c87b3f35cb2b00254e4499cda547bee1ff",
      "8cd6adec82a806846203805dcde74124eafe313e3650b20dbdc28b452324d7f7" ++
      "e99e85fae24bd06770efcb7b6818ea9a4b34d2e98a8fb80226174e5b53c59709"),
     (knownAuthor, "01a973c2dba19e55923835a42b89c052ce48baa3d216867155fca5ba69c04532",
      "2e2891c6bf50f47e689cafc7a5fffc8901766ca24aa1e3ad5d3200cd94537668" ++
      "1c26166b6d443dc27444a659196422cdd6f288f080ca09a742c72572d855b60b"),
     (knownAuthor, "f0080d63b8b29743c56efde514474c53fce7dcd9e695045e192ae36af1dcac89",
      "1d1d0ff06771e55bd15e840709f459695ddcc281d8ba3f7df08516ff56a305c7" ++
      "6b2b1206341831d3ba040176016b8f1e1a93cbb97a084e93f5b7281d35159d0e")]

/-- What the texts of a value read as. -/
def knownValue (text : String) : Except String Json :=
  if text = messageText then .ok (.obj [("recipient", .str knownBeneficiary), ("body", .str "OK")])
  else if text = followText then .ok (.obj [("followed", .str knownBeneficiary)])
  else if text = unfollowText then .ok (.obj [("followed", .str knownBeneficiary), ("unfollow", .bool true)])
  else if text = voteText then
    .ok (.obj [("target_id", .str "p"), ("direction", .num (.posInt 1)), ("target_table", .str "posts")])
  else .error "EOF while parsing a value at line 1 column 0"

/-- What the texts of a post read as. -/
def knownPost (text : String) : Except String SocialPost :=
  if text = nodePostText then .ok nodePost
  else if text = authorPostText then .ok authorPost
  else .error "EOF while parsing a value at line 1 column 0"

/-- The host that reads these texts. -/
def socialHost : Host := { Host.ofKnown socialValues [] [] with
  valueFromStr := knownValue
  postFromStr := knownPost }

/-- A signed event, without proof of work. -/
def signedBy (byte : UInt8) (kind : OndeMessageType) (content : String) (t : UInt64) : MeshEvent :=
  (MeshEvent.newSigned socialHost.toPrimitives (.ofByte byte) kind content [] t).withPowDifficulty 0

/-- The node, with an empty store; it trusts itself and the author. -/
def cacheNode : Node socialHost.withSocialStore :=
  let file : SocialFile := ⟨0, .empty⟩
  let n := Node.new (h := socialHost.withSocialStore) .default (.ofByte 2) none (some file)
  { n with reputation := n.reputation.bootstrap [knownAuthor] }

theorem node_pubkey : (Identity.ofByte 2).pubkeyHex socialHost.toPrimitives = knownNode :=
  knownKeys_two (k := socialValues) rfl

theorem author_pubkey : (Identity.ofByte 1).pubkeyHex socialHost.toPrimitives = knownAuthor :=
  knownKeys_one (k := socialValues) rfl

section

variable (byte : UInt8) (kind : OndeMessageType) (content : String) (t : UInt64)

theorem signedBy_pubkey :
    (signedBy byte kind content t).pubkey = (Identity.ofByte byte).pubkeyHex socialHost.toPrimitives := rfl

theorem signedBy_content : (signedBy byte kind content t).content = content := rfl

end

theorem socialHost_postFromStr (text : String) : socialHost.withSocialStore.postFromStr text = knownPost text := rfl

theorem signedBy_checkSigned {clock : Nat} {byte : UInt8} {kind : OndeMessageType} {content : String} {t : UInt64}
    (hk : kind ≠ .alert) (htime : t.toNat ≤ clock + maxClockSkewSecs) :
    (signedBy byte kind content t).checkSigned socialHost.toPrimitives clock = .ok () := by
  rw [signedBy, checkSigned_withPowDifficulty]
  exact newSigned_checkSigned (Primitives.ofKnown_lawful _) _ [] (fun hk' => absurd hk' hk) htime

theorem signedBy_checkPow (byte : UInt8) (kind : OndeMessageType) (content : String) (t : UInt64) :
    (signedBy byte kind content t).checkPow socialHost.toPrimitives 0 = .ok () :=
  checkPow_ok.mpr ⟨UInt8.le_refl 0, verifyPow_zero _ _ 0⟩

theorem cacheNode_welcomes {author : String} (ha : author = knownAuthor ∨ author = knownNode) :
    cacheNode.Welcomes author 12 := by
  refine ⟨ReputationSystem.requiredPowDifficulty_trusted (ReputationSystem.bootstrap_trusted ?_) rfl, rfl,
    Nat.le_refl 12⟩
  rcases ha with rfl | rfl
  · exact .inl List.mem_cons_self
  · exact .inr (ReputationSystem.bootstrap_trusted (.inl (List.mem_singleton.mpr node_pubkey.symm)))

/-- It takes what the two sign. -/
theorem signedBy_taken {n : Node socialHost.withSocialStore} (env : Env) (now : Nat) {room : Nat} {byte : UInt8}
    {kind : OndeMessageType} {content : String} {t : UInt64} {a : SocialAction}
    (hw : n.Welcomes (signedBy byte kind content t).pubkey (room + 1))
    (hd : Decodes socialHost.withSocialStore (signedBy byte kind content t) a)
    (htime : t.toNat ≤ env.clock + maxClockSkewSecs) : Node.Takes env now n (signedBy byte kind content t) a := by
  have hkind : kind ≠ .alert := by
    rintro rfl
    exact absurd hd.isSocial Bool.false_ne_true
  exact hw.takes hd (signedBy_checkSigned hkind htime) (signedBy_checkPow byte kind content t)

/-! What the events read as. -/

theorem validate_beneficiary (field : String) : validateSocialPubkeyRef knownBeneficiary field = .ok () :=
  if_pos (isHex64_of_lowerHex (lowerHex_ofList rfl rfl))

theorem message_decodes (t : UInt64) : Decodes socialHost.withSocialStore (signedBy 1 .socialMessage messageText t)
    (.message knownBeneficiary "OK") := by
  have hsize : messageText.utf8ByteSize ≤ socialMessageMaxBytes := utf8ByteSize_ofList_le (by decide)
  have hread : knownValue messageText = .ok (.obj [("recipient", .str knownBeneficiary), ("body", .str "OK")]) :=
    if_pos rfl
  exact ⟨rfl, hsize, _, hread, rfl, rfl, validate_beneficiary _, by decide, by decide⟩

theorem follow_decodes (t : UInt64) : Decodes socialHost.withSocialStore (signedBy 1 .socialFollow followText t)
    (.follow knownBeneficiary false) := by
  have hsize : followText.utf8ByteSize ≤ socialFollowMaxBytes := utf8ByteSize_ofList_le (by decide)
  have hread : knownValue followText = .ok (.obj [("followed", .str knownBeneficiary)]) := by
    have hne : followText ≠ messageText := mt String.ofList_inj.mp (by decide)
    rw [knownValue, if_neg hne, if_pos rfl]
  exact ⟨rfl, hsize, _, hread, rfl, rfl, validate_beneficiary _⟩

/-- A short post of a known key is valid. -/
theorem tuitter_valid {key body : String} (hkey : LowerHex 32 key) (hblank : blank body = false)
    (hbody : body.length ≤ maxTuitterBody) :
    (⟨"p", .tuitter, key, none, body, none, []⟩ : SocialPost).validate = .ok () := by
  have hid : ¬("p" = "" ∨ 128 < "p".length) := by decide
  unfold SocialPost.validate SocialPost.validateTuitter
  dsimp only
  rw [if_neg hid, isPubkeyHex_of_lowerHex hkey, hblank, if_neg (Nat.not_lt.mpr hbody)]
  rfl

theorem nodePost_decodes (byte : UInt8) (t : UInt64) :
    Decodes socialHost.withSocialStore (signedBy byte .socialPost nodePostText t) (.post nodePost) := by
  have hsize : nodePostText.utf8ByteSize ≤ socialPostMaxBytes :=
    (utf8ByteSize_append_le (utf8ByteSize_append_le (utf8ByteSize_bounds _).2 (utf8ByteSize_bounds _).2)
      (utf8ByteSize_bounds _).2).trans (by decide)
  have hread : knownPost nodePostText = .ok nodePost := if_pos rfl
  have hvalid : nodePost.validate = .ok () := tuitter_valid (lowerHex_ofList rfl rfl) rfl (by decide)
  refine ⟨rfl, ?_, ?_, hvalid⟩ <;> rw [signedBy_content]
  · exact hsize
  · rw [socialHost_postFromStr, hread]

theorem authorPost_decodes (byte : UInt8) (t : UInt64) :
    Decodes socialHost.withSocialStore (signedBy byte .socialPost authorPostText t) (.post authorPost) := by
  have hsize : authorPostText.utf8ByteSize ≤ socialPostMaxBytes :=
    (utf8ByteSize_append_le (utf8ByteSize_append_le (utf8ByteSize_bounds _).2 (utf8ByteSize_bounds _).2)
      (utf8ByteSize_bounds _).2).trans (by decide)
  have hread : knownPost authorPostText = .ok authorPost := by
    rw [knownPost, if_neg (by decide +kernel), if_pos rfl]
  have hvalid : authorPost.validate = .ok () := tuitter_valid (lowerHex_ofList rfl rfl) rfl (by decide)
  refine ⟨rfl, ?_, ?_, hvalid⟩ <;> rw [signedBy_content]
  · exact hsize
  · rw [socialHost_postFromStr, hread]

end Onde

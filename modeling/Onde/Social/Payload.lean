import Onde.Lib.Bytes

/-!
# Posts and comments

The payloads of the social layer and their checks. Lengths are in characters, except where the text says bytes.
-/

namespace Onde.Social

open Onde.Lib

def maxTuitterBody : Nat := 500
def maxReditTitle : Nat := 300
def maxReditBody : Nat := 40000
def maxCommunitySlug : Nat := 50
def maxPrivateMessageBody : Nat := 2000
def maxModerationReason : Nat := 500
def maxSocialId : Nat := 128

inductive SocialPlatform where
  | tuitter | redit
  deriving DecidableEq

/-- The name in a tag. -/
def SocialPlatform.name : SocialPlatform → String
  | .tuitter => "Tuitter"
  | .redit => "Redit"

structure SocialPost where
  id : String
  platform : SocialPlatform
  authorPubkey : String
  title : Option String
  body : String
  communitySlug : Option String
  mediaUrls : List String
  deriving DecidableEq

structure SocialComment where
  id : String
  platform : SocialPlatform
  authorPubkey : String
  postId : String
  parentId : Option String
  body : String
  deriving DecidableEq

/-- White space, in the sense of Unicode. -/
def isWhitespace (c : Char) : Bool :=
  let n := c.toNat
  (9 ≤ n && n ≤ 13) || n = 0x20 || n = 0x85 || n = 0xa0 || n = 0x1680 || (0x2000 ≤ n && n ≤ 0x200a) || n = 0x2028 ||
    n = 0x2029 || n = 0x202f || n = 0x205f || n = 0x3000

/-- Nothing is left once trimmed. -/
def blank (s : String) : Bool := s.toList.all isWhitespace

/-- A key that is 64 bytes of hexadecimal text. -/
def isPubkeyHex (s : String) : Bool := s.utf8ByteSize = 64 && (hexDecode s).isSome

theorem isPubkeyHex_of_lowerHex {s : String} (h : LowerHex 32 s) : isPubkeyHex s = true := by
  obtain ⟨bs, hdecode, _, _⟩ := hexEncode_hexDecode h
  rw [isPubkeyHex, h.utf8ByteSize, hdecode]
  rfl

/-- A character of a community slug. -/
def isSlugChar (c : Char) : Bool := c.isLower || c.isDigit || c = '-'

namespace SocialPost

/-- What a Tuitter post may carry. -/
def validateTuitter (p : SocialPost) : Except String Unit :=
  if p.title.isSome then .error "Tuitter posts cannot have a title"
  else if maxTuitterBody < p.body.length then .error s!"Tuitter body exceeds {maxTuitterBody} characters"
  else if p.communitySlug.isSome then .error "Tuitter posts cannot target a Redit community"
  else .ok ()

/-- What a Redit post must carry. -/
def validateRedit (p : SocialPost) : Except String Unit :=
  match p.title with
  | none => .error "Redit posts require a title"
  | some title =>
    if blank title ∨ maxReditTitle < title.length then
      .error s!"Redit title must contain 1..={maxReditTitle} characters"
    else if maxReditBody < p.body.length then .error s!"Redit body exceeds {maxReditBody} characters"
    else match p.communitySlug with
      | none => .error "Redit posts require a community"
      | some slug =>
        if slug = "" ∨ maxCommunitySlug < slug.length then
          .error s!"community slug must contain 1..={maxCommunitySlug} characters"
        else if !slug.toList.all isSlugChar then .error "community slug contains invalid characters"
        else .ok ()

def validate (p : SocialPost) : Except String Unit :=
  if p.id = "" ∨ 128 < p.id.length then .error "social post id must contain 1..=128 characters"
  else if !isPubkeyHex p.authorPubkey then .error "social post author_pubkey must be a 32-byte hex key"
  else if blank p.body then .error "social post body cannot be empty"
  else if 4 < p.mediaUrls.length then .error "social post cannot contain more than 4 media URLs"
  else match p.platform with
    | .tuitter => p.validateTuitter
    | .redit => p.validateRedit

end SocialPost

def SocialComment.validate (c : SocialComment) : Except String Unit :=
  if c.id = "" ∨ 128 < c.id.length then .error "comment id must contain 1..=128 characters"
  else if c.postId = "" ∨ 128 < c.postId.length then .error "comment post_id must contain 1..=128 characters"
  else if c.parentId = some c.id then .error "comment cannot be its own parent"
  else if blank c.body ∨ maxReditBody < c.body.length then .error "comment body must contain 1..=40000 characters"
  else if !isPubkeyHex c.authorPubkey then .error "comment author_pubkey must be a 32-byte hex key"
  else .ok ()

end Onde.Social

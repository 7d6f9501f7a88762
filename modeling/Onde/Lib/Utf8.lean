import Onde.Lib.Bytes

/-!
# Reading text that may not be valid

`fromUtf8Lossy` reads a character where the bytes encode one, and otherwise puts the replacement character in the place
of the bytes that could still have begun one (`badPrefix`). It gives a valid text back as it is
(`fromUtf8Lossy_utf8Bytes`).
-/

namespace Onde.Lib

/-- What may follow the first byte of a character of three or four bytes. -/
def secondRange (b : UInt8) : UInt8 × UInt8 :=
  if b = 0xe0 then (0xa0, 0xbf)
  else if b = 0xed then (0x80, 0x9f)
  else if b = 0xf0 then (0x90, 0xbf)
  else if b = 0xf4 then (0x80, 0x8f)
  else (0x80, 0xbf)

def isContinuation (b : UInt8) : Bool := 0x80 ≤ b && b ≤ 0xbf

/-- How many bytes are replaced where no character is encoded. -/
def badPrefix : Bytes → Nat
  | b :: c :: rest =>
    if 0xe0 ≤ b ∧ b ≤ 0xf4 ∧ (secondRange b).1 ≤ c ∧ c ≤ (secondRange b).2 then
      if 0xf0 ≤ b ∧ (rest.head?.any isContinuation) then 3 else 2
    else 1
  | _ => 1

/-- The characters, at most one for each unit of fuel. -/
def lossyChars : Nat → Bytes → List Char
  | 0, _ => []
  | _ + 1, [] => []
  | n + 1, b :: bs =>
    match (b :: bs).toByteArray.utf8DecodeChar? 0 with
    | some c => c :: lossyChars n ((b :: bs).drop c.utf8Size)
    | none => Char.ofNat 0xfffd :: lossyChars n ((b :: bs).drop (badPrefix (b :: bs)))

def fromUtf8Lossy (bs : Bytes) : String := String.ofList (lossyChars bs.length bs)

/-- The bytes of a text are those of its characters. -/
theorem utf8Bytes_ofList (cs : List Char) : utf8Bytes (String.ofList cs) = cs.flatMap String.utf8EncodeChar := by
  rw [utf8Bytes, String.toByteArray_ofList, List.utf8Encode]
  simp

theorem lossyChars_encode (cs : List Char) : ∀ n, (cs.flatMap String.utf8EncodeChar).length ≤ n →
    lossyChars n (cs.flatMap String.utf8EncodeChar) = cs := by
  induction cs with
  | nil =>
    intro n _
    cases n <;> rfl
  | cons c cs ih =>
    intro n hn
    have hsize := String.length_utf8EncodeChar c
    have hpos := c.utf8Size_pos
    rw [List.flatMap_cons] at hn ⊢
    rw [List.length_append] at hn
    obtain ⟨n, rfl⟩ : ∃ m, n = m + 1 := ⟨n - 1, by omega⟩
    obtain ⟨b, bs, hb⟩ : ∃ b bs, String.utf8EncodeChar c ++ cs.flatMap String.utf8EncodeChar = b :: bs := by
      cases h : String.utf8EncodeChar c with
      | nil =>
        rw [h] at hsize
        exact absurd hsize (by simp only [List.length_nil]; omega)
      | cons b bs => exact ⟨b, _, rfl⟩
    have hread : (b :: bs).toByteArray.utf8DecodeChar? 0 = some c := by
      rw [← hb, List.toByteArray_append]
      exact ByteArray.utf8DecodeChar?_utf8EncodeChar_append
    rw [hb, lossyChars, hread]
    dsimp only
    rw [← hb, ← hsize, List.drop_left, ih n (by omega)]

/-- **A valid text is read as it is.** -/
theorem fromUtf8Lossy_utf8Bytes (s : String) : fromUtf8Lossy (utf8Bytes s) = s := by
  have hs : utf8Bytes s = s.toList.flatMap String.utf8EncodeChar := by
    rw [← utf8Bytes_ofList, String.ofList_toList]
  rw [fromUtf8Lossy, hs, lossyChars_encode _ _ (Nat.le_refl _), String.ofList_toList]

/-- A byte that begins nothing, a character cut short, one too long and one that is a surrogate. -/
example : lossyChars 9 [0x61, 0xff, 0xe2, 0x82, 0x62] = ['a', '\uFFFD', '\uFFFD', 'b'] ∧
    lossyChars 9 [0xc0, 0xaf] = ['\uFFFD', '\uFFFD'] ∧
    lossyChars 9 [0xed, 0xa0, 0x80] = ['\uFFFD', '\uFFFD', '\uFFFD'] := by decide +kernel

end Onde.Lib

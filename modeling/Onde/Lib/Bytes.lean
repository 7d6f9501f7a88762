import Mathlib.Data.List.Basic
import Mathlib.Data.Nat.Basic
import Mathlib.Tactic.Ring

/-!
# Fixed-width numbers and hexadecimal text

* `leBytes n v` / `ofLe`: the `n` little-endian bytes of `v` and back (`ofLe_leBytes`, `leBytes_ofLe`); the
  big-endian forms are their reversals;
* `hexEncode` / `hexDecode`: lower-case encoding, decoding that accepts both cases (`hexDecode_hexEncode`), and the
  text that is its own encoding (`LowerHex`, `hexEncode_hexDecode`);
* `utf8Bytes` / `fromUtf8`: the bytes of a text and back.
-/

namespace Onde.Lib

/-- A byte string. -/
abbrev Bytes := List UInt8

/-! ## Little and big endian -/

/-- The `n` low bytes of `v`, least significant first. -/
def leBytes : Nat → Nat → Bytes
  | 0, _ => []
  | n + 1, v => UInt8.ofNat (v % 256) :: leBytes n (v / 256)

/-- The number whose little-endian bytes are the list. -/
def ofLe : Bytes → Nat
  | [] => 0
  | b :: bs => b.toNat + 256 * ofLe bs

/-- The `n` low bytes of `v`, most significant first. -/
def beBytes (n v : Nat) : Bytes := (leBytes n v).reverse

/-- The number whose big-endian bytes are the list. -/
def ofBe (bs : Bytes) : Nat := ofLe bs.reverse

@[simp] theorem length_leBytes : ∀ n v, (leBytes n v).length = n
  | 0, _ => rfl
  | n + 1, v => by simp [leBytes, length_leBytes n]

theorem ofLe_leBytes : ∀ {n v : Nat}, v < 256 ^ n → ofLe (leBytes n v) = v
  | 0, v, h => by
    have : v = 0 := by simpa using h
    simp [leBytes, ofLe, this]
  | n + 1, v, h => by
    have hq : v / 256 < 256 ^ n := by
      rw [Nat.div_lt_iff_lt_mul (by decide), ← Nat.pow_succ]; exact h
    simp only [leBytes, ofLe, ofLe_leBytes hq, UInt8.toNat_ofNat']
    omega

theorem ofLe_lt : ∀ bs : Bytes, ofLe bs < 256 ^ bs.length
  | [] => by simp [ofLe]
  | b :: bs => by
    have ih := ofLe_lt bs
    have hb := b.toNat_lt
    simp only [ofLe, List.length_cons, Nat.pow_succ]
    omega

theorem leBytes_ofLe : ∀ bs : Bytes, leBytes bs.length (ofLe bs) = bs
  | [] => rfl
  | b :: bs => by
    have hb := b.toNat_lt
    have h1 : (b.toNat + 256 * ofLe bs) % 256 = b.toNat := by omega
    have h2 : (b.toNat + 256 * ofLe bs) / 256 = ofLe bs := by omega
    simp only [List.length_cons, leBytes, ofLe, h1, h2, leBytes_ofLe bs, UInt8.ofNat_toNat]

@[simp] theorem length_beBytes (n v : Nat) : (beBytes n v).length = n := by simp [beBytes]

theorem ofBe_beBytes {n v : Nat} (h : v < 256 ^ n) : ofBe (beBytes n v) = v := by
  simp [ofBe, beBytes, ofLe_leBytes h]

/-! ## Hexadecimal text -/

/-- The lower-case digit of a nibble. -/
def hexDigit (n : Nat) : Char := if n < 10 then Char.ofNat (48 + n) else Char.ofNat (87 + n)

/-- The value of a digit, in either case. -/
def hexVal (c : Char) : Option Nat :=
  if 48 ≤ c.toNat ∧ c.toNat ≤ 57 then some (c.toNat - 48)
  else if 97 ≤ c.toNat ∧ c.toNat ≤ 102 then some (c.toNat - 87)
  else if 65 ≤ c.toNat ∧ c.toNat ≤ 70 then some (c.toNat - 55)
  else none

/-- A lower-case digit. -/
def IsLowerHex (c : Char) : Prop := (48 ≤ c.toNat ∧ c.toNat ≤ 57) ∨ (97 ≤ c.toNat ∧ c.toNat ≤ 102)

instance (c : Char) : Decidable (IsLowerHex c) := inferInstanceAs (Decidable (_ ∨ _))

/-- Two digits a byte. -/
def hexChars (bs : Bytes) : List Char := bs.flatMap fun b => [hexDigit (b.toNat / 16), hexDigit (b.toNat % 16)]

/-- The bytes of the digits; an odd digit or any other character is an error. -/
def unhexChars : List Char → Option Bytes
  | [] => some []
  | [_] => none
  | c :: d :: cs => do
    let hi ← hexVal c
    let lo ← hexVal d
    let bs ← unhexChars cs
    pure (UInt8.ofNat (16 * hi + lo) :: bs)

def hexEncode (bs : Bytes) : String := String.ofList (hexChars bs)

def hexDecode (s : String) : Option Bytes := unhexChars s.toList

theorem hexVal_hexDigit : ∀ n < 16, hexVal (hexDigit n) = some n := by decide

theorem isLowerHex_hexDigit : ∀ n < 16, IsLowerHex (hexDigit n) := by decide

theorem hexVal_lower_code : ∀ k < 103, (48 ≤ k ∧ k ≤ 57) ∨ (97 ≤ k ∧ k ≤ 102) →
    ∃ n < 16, hexVal (Char.ofNat k) = some n ∧ hexDigit n = Char.ofNat k := by decide

theorem hexVal_lower {c : Char} (h : IsLowerHex c) : ∃ n < 16, hexVal c = some n ∧ hexDigit n = c := by
  obtain ⟨n, hn, hv, hd⟩ := hexVal_lower_code c.toNat (by unfold IsLowerHex at h; omega) h
  rw [Char.ofNat_toNat] at hv hd
  exact ⟨n, hn, hv, hd⟩

theorem unhexChars_hexChars : ∀ bs : Bytes, unhexChars (hexChars bs) = some bs
  | [] => rfl
  | b :: bs => by
    have hb := b.toNat_lt
    have h16 : 16 * (b.toNat / 16) + b.toNat % 16 = b.toNat := by omega
    have ih := unhexChars_hexChars bs
    simp only [hexChars] at ih
    simp only [hexChars, List.flatMap_cons, List.cons_append, List.nil_append, unhexChars,
      hexVal_hexDigit _ (show b.toNat / 16 < 16 by omega), hexVal_hexDigit _ (show b.toNat % 16 < 16 by omega),
      ih, Option.bind_eq_bind, Option.bind_some, Option.pure_def, h16, UInt8.ofNat_toNat]

theorem hexDecode_hexEncode (bs : Bytes) : hexDecode (hexEncode bs) = some bs := by
  simp [hexDecode, hexEncode, unhexChars_hexChars]

theorem length_hexChars : ∀ bs : Bytes, (hexChars bs).length = 2 * bs.length
  | [] => rfl
  | b :: bs => by
    have ih := length_hexChars bs
    simp only [hexChars] at ih
    simp only [hexChars, List.flatMap_cons, List.length_append, List.length_cons, List.length_nil, ih]
    omega

theorem hexChars_lower : ∀ bs : Bytes, ∀ c ∈ hexChars bs, IsLowerHex c := by
  intro bs c hc
  simp only [hexChars, List.mem_flatMap, List.mem_cons, List.not_mem_nil, or_false] at hc
  obtain ⟨b, _, rfl | rfl⟩ := hc
  · exact isLowerHex_hexDigit _ (by have := b.toNat_lt; omega)
  · exact isLowerHex_hexDigit _ (by omega)

/-- The text of `n` bytes in lower case. -/
def LowerHex (n : Nat) (s : String) : Prop := s.toList.length = 2 * n ∧ ∀ c ∈ s.toList, IsLowerHex c

instance (n : Nat) (s : String) : Decidable (LowerHex n s) := inferInstanceAs (Decidable (_ ∧ _))

theorem lowerHex_hexEncode (bs : Bytes) : LowerHex bs.length (hexEncode bs) := by
  simpa [LowerHex, hexEncode, length_hexChars] using hexChars_lower bs

/-- The digits of a literal. -/
theorem lowerHex_ofList {n : Nat} {cs : List Char} (hlen : cs.length = 2 * n)
    (h : cs.all (fun c => decide (IsLowerHex c)) = true) : LowerHex n (String.ofList cs) := by
  rw [LowerHex, String.toList_ofList]
  exact ⟨hlen, by simpa using h⟩

/-- Lower-case digits decode, and encoding gives them back. -/
theorem unhexChars_lower : ∀ (n : Nat) (cs : List Char), cs.length = 2 * n → (∀ c ∈ cs, IsLowerHex c) →
    ∃ bs, unhexChars cs = some bs ∧ bs.length = n ∧ hexChars bs = cs
  | 0, [], _, _ => ⟨[], rfl, rfl, rfl⟩
  | 0, _ :: _, h, _ => by simp at h
  | _ + 1, [], h, _ => by simp at h
  | _ + 1, [_], h, _ => by simp only [List.length_cons, List.length_nil] at h; omega
  | n + 1, c :: d :: cs, h, hc => by
    obtain ⟨hi, hhi, hcv, hcd⟩ := hexVal_lower (hc c (by simp))
    obtain ⟨lo, hlo, hdv, hdd⟩ := hexVal_lower (hc d (by simp))
    obtain ⟨bs, hbs, hl, hbc⟩ := unhexChars_lower n cs (by simp only [List.length_cons] at h; omega)
      (fun x hx => hc x (by simp [hx]))
    refine ⟨UInt8.ofNat (16 * hi + lo) :: bs, ?_, by simp [hl], ?_⟩
    · simp [unhexChars, hcv, hdv, hbs]
    · have h256 : (16 * hi + lo) % 256 = 16 * hi + lo := by omega
      have hq : (16 * hi + lo) / 16 = hi := by omega
      have hr : (16 * hi + lo) % 16 = lo := by omega
      simp only [hexChars] at hbc
      simp only [hexChars, List.flatMap_cons, UInt8.toNat_ofNat', h256, hq, hr, hcd, hdd, hbc]
      rfl

theorem hexEncode_hexDecode {n : Nat} {s : String} (h : LowerHex n s) :
    ∃ bs, hexDecode s = some bs ∧ bs.length = n ∧ hexEncode bs = s := by
  obtain ⟨bs, hd, hl, he⟩ := unhexChars_lower n s.toList h.1 h.2
  exact ⟨bs, hd, hl, by simp [hexEncode, he]⟩

/-! ## UTF-8 text -/

/-- The bytes of a text. -/
def utf8Bytes (s : String) : Bytes := s.toByteArray.data.toList

@[simp] theorem length_utf8Bytes (s : String) : (utf8Bytes s).length = s.utf8ByteSize := rfl

/-- A character takes one to four bytes. -/
theorem utf8ByteSize_bounds (cs : List Char) :
    cs.length ≤ (String.ofList cs).utf8ByteSize ∧ (String.ofList cs).utf8ByteSize ≤ 4 * cs.length := by
  induction cs with
  | nil => exact ⟨Nat.zero_le _, Nat.le_refl _⟩
  | cons c cs ih =>
    have hc : (String.ofList [c]).utf8ByteSize = c.utf8Size := String.utf8ByteSize_singleton
    have hpos := c.utf8Size_pos
    have hle := c.utf8Size_le_four
    rw [← List.singleton_append, String.ofList_append, String.utf8ByteSize_append, List.length_append,
      List.length_singleton]
    omega

/-- A literal is bounded by its characters, and none of its bytes is looked at. -/
theorem utf8ByteSize_ofList_le {cs : List Char} {n : Nat} (h : 4 * cs.length ≤ n) :
    (String.ofList cs).utf8ByteSize ≤ n :=
  (utf8ByteSize_bounds cs).2.trans h

theorem utf8ByteSize_append_le {s t : String} {m n : Nat} (hs : s.utf8ByteSize ≤ m) (ht : t.utf8ByteSize ≤ n) :
    (s ++ t).utf8ByteSize ≤ m + n := by
  rw [String.utf8ByteSize_append]
  exact Nat.add_le_add hs ht

/-- An ASCII text has a byte for each character. -/
theorem utf8ByteSize_ascii (cs : List Char) (h : ∀ c ∈ cs, c.toNat ≤ 127) :
    (String.ofList cs).utf8ByteSize = cs.length := by
  induction cs with
  | nil => rfl
  | cons c cs ih =>
    have hc : (String.ofList [c]).utf8ByteSize = c.utf8Size := String.utf8ByteSize_singleton
    have hone : c.utf8Size = 1 := Char.utf8Size_eq_one_iff.mpr (UInt32.le_iff_toNat_le.mpr (h c List.mem_cons_self))
    have ih' := ih fun d hd => h d (List.mem_cons_of_mem _ hd)
    rw [← List.singleton_append, String.ofList_append, String.utf8ByteSize_append, List.length_append,
      List.length_singleton]
    omega

theorem utf8ByteSize_hexEncode (bs : Bytes) : (hexEncode bs).utf8ByteSize = 2 * bs.length := by
  rw [hexEncode, utf8ByteSize_ascii, length_hexChars]
  intro c hc
  rcases hexChars_lower bs c hc with h | h <;> omega

theorem LowerHex.utf8ByteSize {n : Nat} {s : String} (h : LowerHex n s) : s.utf8ByteSize = 2 * n := by
  obtain ⟨bs, _, rfl, rfl⟩ := hexEncode_hexDecode h
  exact utf8ByteSize_hexEncode bs

/-- The text whose bytes are the list, if they are valid. -/
def fromUtf8 (bs : Bytes) : Option String := String.fromUTF8? ⟨bs.toArray⟩

theorem fromUtf8_utf8Bytes (s : String) : fromUtf8 (utf8Bytes s) = some s := by
  have h : (⟨(utf8Bytes s).toArray⟩ : ByteArray) = s.toByteArray := by simp [utf8Bytes]
  rw [fromUtf8, h, String.fromUTF8?, dif_pos s.isValidUTF8]
  rfl

theorem utf8Bytes_injective : Function.Injective utf8Bytes := by
  intro s t h
  have hs := fromUtf8_utf8Bytes s
  rw [h, fromUtf8_utf8Bytes] at hs
  exact (Option.some.inj hs).symm

theorem utf8Bytes_fromUtf8 {bs : Bytes} {s : String} (h : fromUtf8 bs = some s) : utf8Bytes s = bs := by
  unfold fromUtf8 String.fromUTF8? at h
  split at h
  · cases h
    simp [utf8Bytes, String.fromUTF8]
  · cases h

/-! ## Texts in texts -/

/-- Does a list occur in another? -/
def occursIn (part : List Char) : List Char → Bool
  | [] => part.isEmpty
  | c :: cs => part.isPrefixOf (c :: cs) || occursIn part cs

/-- Does a text occur in another? -/
def contains (s part : String) : Bool := occursIn part.toList s.toList

theorem occursIn_append (part b : List Char) : ∀ a : List Char, occursIn part (a ++ (part ++ b)) = true
  | [] => by
    cases part with
    | nil => cases b <;> simp [occursIn]
    | cons c part =>
      have hp : (c :: part).isPrefixOf (c :: part ++ b) = true := List.isPrefixOf_iff_prefix.mpr ⟨b, rfl⟩
      rw [List.nil_append, List.cons_append, occursIn, ← List.cons_append, hp, Bool.true_or]
  | c :: a => by rw [List.cons_append, occursIn, occursIn_append part b a, Bool.or_true]

theorem contains_append (a part b : String) : contains (a ++ (part ++ b)) part = true := by
  rw [contains, String.toList_append, String.toList_append]
  exact occursIn_append _ _ _

/-- Does no occurrence of a list start in a head, whatever follows the head? -/
def clearOf (part : List Char) : List Char → Bool
  | [] => true
  | c :: cs => !part.isPrefixOf (c :: cs) && !(c :: cs).isPrefixOf part && clearOf part cs

theorem occursIn_clear {part : List Char} (s : List Char) :
    ∀ {head : List Char}, clearOf part head = true → occursIn part (head ++ s) = occursIn part s
  | [], _ => rfl
  | c :: cs, h => by
    simp only [clearOf, Bool.and_eq_true, Bool.not_eq_true'] at h
    obtain ⟨⟨hp, hh⟩, hcs⟩ := h
    have hnot : part.isPrefixOf (c :: cs ++ s) = false := by
      rw [← Bool.not_eq_true, List.isPrefixOf_iff_prefix] at hp hh ⊢
      intro hpart
      -- of two heads of one list, one is a head of the other
      rcases List.prefix_or_prefix_of_prefix hpart (List.prefix_append (c :: cs) s) with h | h
      · exact hp h
      · exact hh h
    rw [List.cons_append, occursIn, ← List.cons_append, hnot, Bool.false_or, occursIn_clear s hcs]

/-- A head that is clear of a text does not matter to the search for it. -/
theorem contains_clear {head part : String} (h : clearOf part.toList head.toList = true) (s : String) :
    contains (head ++ s) part = contains s part := by
  rw [contains, String.toList_append]
  exact occursIn_clear s.toList h

end Onde.Lib

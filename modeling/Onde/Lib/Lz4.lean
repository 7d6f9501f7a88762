import Onde.Lib.Bytes

/-!
# The LZ4 block format

A block is a list of sequences, each some literals and a match copied from what is decoded so far, and a last run of
literals. `Lz4Block.encode` lays it out, `Lz4Block.decode` is what it stands for, and the length of that can be told
from the lengths alone (`length_decode`). `Lz4Decodes` decodes any bytes, and those of a block to what it stands for
(`decodes_encode`).
-/

namespace Onde.Lib

/-- Literals, then `matchLen` bytes copied from `offset` back. -/
structure Lz4Sequence where
  literals : Bytes
  offset : Nat
  matchLen : Nat
  deriving DecidableEq

structure Lz4Block where
  sequences : List Lz4Sequence
  last : Bytes
  deriving DecidableEq

/-- A number as bytes to be added up, all 255 but the last. -/
def lsicBytes (n : Nat) : Bytes := List.replicate (n / 255) 0xff ++ [UInt8.ofNat (n % 255)]

/-- What a length needs besides its nibble. -/
def lengthBytes (n : Nat) : Bytes := if 15 ≤ n then lsicBytes (n - 15) else []

/-- The two lengths of a sequence, a nibble each. -/
def lz4Token (literals copied : Nat) : UInt8 := UInt8.ofNat (16 * min literals 15 + min copied 15)

namespace Lz4Sequence

/-- A match has at least four bytes and its offset fits in two. -/
def Valid (s : Lz4Sequence) : Prop := 4 ≤ s.matchLen ∧ s.offset < 2 ^ 16

instance (s : Lz4Sequence) : Decidable s.Valid := inferInstanceAs (Decidable (_ ∧ _))

def encode (s : Lz4Sequence) : Bytes :=
  lz4Token s.literals.length (s.matchLen - 4) :: (lengthBytes s.literals.length ++ s.literals ++ leBytes 2 s.offset ++
    lengthBytes (s.matchLen - 4))

/-- How many bytes it decodes to. -/
def size (s : Lz4Sequence) : Nat := s.literals.length + s.matchLen

end Lz4Sequence

/-- Copy bytes from `offset` back, one after the other, so that a copy may go on with its own bytes. -/
def copyMatch (offset : Nat) : Nat → Bytes → Bytes
  | 0, out => out
  | n + 1, out => copyMatch offset n (out ++ [out.getD (out.length - offset) 0])

/-- Decode sequences after what is decoded already; a match begins inside it. -/
def decodeSequences : List Lz4Sequence → Bytes → Option Bytes
  | [], out => some out
  | s :: ss, out =>
    let out := out ++ s.literals
    if 0 < s.offset ∧ s.offset ≤ out.length then decodeSequences ss (copyMatch s.offset s.matchLen out) else none

namespace Lz4Block

def encode (b : Lz4Block) : Bytes :=
  b.sequences.flatMap Lz4Sequence.encode ++
    lz4Token b.last.length 0 :: (lengthBytes b.last.length ++ b.last)

def decode (b : Lz4Block) : Option Bytes := (decodeSequences b.sequences []).map (· ++ b.last)

def size (b : Lz4Block) : Nat := (b.sequences.map Lz4Sequence.size).sum + b.last.length

end Lz4Block

theorem length_copyMatch (offset : Nat) : ∀ (n : Nat) (out : Bytes), (copyMatch offset n out).length = out.length + n
  | 0, _ => rfl
  | n + 1, out => by
    rw [copyMatch, length_copyMatch offset n, List.length_append, List.length_singleton]
    omega

theorem length_decodeSequences {ss : List Lz4Sequence} {out res : Bytes} (h : decodeSequences ss out = some res) :
    res.length = out.length + (ss.map Lz4Sequence.size).sum := by
  induction ss generalizing out with
  | nil =>
    cases h
    rfl
  | cons s ss ih =>
    rw [decodeSequences] at h
    split at h
    · rw [ih h, length_copyMatch, List.length_append, List.map_cons, List.sum_cons, Lz4Sequence.size]
      omega
    · cases h

/-- **The length of what a block decodes to is the sum of its lengths.** -/
theorem length_decode {b : Lz4Block} {res : Bytes} (h : b.decode = some res) : res.length = b.size := by
  obtain ⟨out, hout, rfl⟩ := Option.map_eq_some_iff.mp h
  rw [List.length_append, length_decodeSequences hout, Lz4Block.size, List.length_nil, Nat.zero_add]

/-- A run of one byte, copied from itself. -/
example : (Lz4Block.mk [⟨[0x61], 1, 20⟩] [0x62]).encode = [0x1f, 0x61, 0x01, 0x00, 0x01, 0x10, 0x62] ∧
    (Lz4Block.mk [⟨[0x61], 1, 4⟩] [0x62]).decode = some [0x61, 0x61, 0x61, 0x61, 0x61, 0x62] := by decide

theorem token_nibbles (literals copied : Nat) : (lz4Token literals copied).toNat / 16 = min literals 15 ∧
    (lz4Token literals copied).toNat % 16 = min copied 15 := by
  rw [lz4Token, UInt8.toNat_ofNat']
  omega

/-! ## Decoding bytes -/

/-- Bytes added up to and with the first that is not 255, and what follows them. -/
def takeLsic : Bytes → Option (Nat × Bytes)
  | [] => none
  | b :: bs => if b = 0xff then (takeLsic bs).map fun r => (255 + r.1, r.2) else some (b.toNat, bs)

/-- A length and what follows it: a nibble, and more bytes if the nibble is full. -/
def takeLength (base full : Nat) (bs : Bytes) : Option (Nat × Bytes) :=
  if base = full then (takeLsic bs).map fun r => (base + r.1, r.2) else some (base, bs)

/-- The literals of a sequence and what follows them. -/
def takeLiterals (token : UInt8) (bs : Bytes) : Option (Bytes × Bytes) := do
  let (n, bs) ← takeLength (token.toNat / 16) 15 bs
  if n ≤ bs.length then some (bs.take n, bs.drop n) else none

/-- Decode sequences after what is decoded already. The bytes end with the literals of the last one. -/
def decompressFrom : Nat → Bytes → Bytes → Option Bytes
  | 0, _, _ => none
  | _ + 1, [], _ => none
  | n + 1, token :: bs, out => do
    let (literals, bs) ← takeLiterals token bs
    match bs with
    | [] => some (out ++ literals)
    | [_] => none
    | lo :: hi :: bs => do
      let (matchLen, bs) ← takeLength (4 + token.toNat % 16) 19 bs
      if 0 < ofLe [lo, hi] ∧ ofLe [lo, hi] ≤ (out ++ literals).length then
        decompressFrom n bs (copyMatch (ofLe [lo, hi]) matchLen (out ++ literals))
      else none

/-- The bytes are a block that decodes to `out`. -/
def Lz4Decodes (src out : Bytes) : Prop := ∃ n, decompressFrom n src [] = some out

/-- A sequence of the bytes: the literals of the last one, or literals and a match before the others. -/
theorem decompressFrom_cases {n : Nat} {src out res : Bytes} (h : decompressFrom n src out = some res) :
    ∃ m token bs literals rest, n = m + 1 ∧ src = token :: bs ∧ takeLiterals token bs = some (literals, rest) ∧
      ((rest = [] ∧ res = out ++ literals) ∨
        ∃ lo hi bs₂ matchLen bs₃, rest = lo :: hi :: bs₂ ∧
          takeLength (4 + token.toNat % 16) 19 bs₂ = some (matchLen, bs₃) ∧
          (0 < ofLe [lo, hi] ∧ ofLe [lo, hi] ≤ (out ++ literals).length) ∧
          decompressFrom m bs₃ (copyMatch (ofLe [lo, hi]) matchLen (out ++ literals)) = some res) := by
  match n, src with
  | 0, _ => cases h
  | _ + 1, [] => cases h
  | m + 1, token :: bs =>
    rw [decompressFrom] at h
    obtain ⟨⟨literals, rest⟩, hliterals, h⟩ := Option.bind_eq_some_iff.mp h
    refine ⟨m, token, bs, literals, rest, rfl, rfl, hliterals, ?_⟩
    match rest with
    | [] => exact Or.inl ⟨rfl, (Option.some.inj h).symm⟩
    | [_] => cases h
    | lo :: hi :: bs₂ =>
      obtain ⟨⟨matchLen, bs₃⟩, hlength, h⟩ := Option.bind_eq_some_iff.mp h
      dsimp only at h
      split at h
      · next hoffset => exact Or.inr ⟨lo, hi, bs₂, matchLen, bs₃, rfl, hlength, hoffset, h⟩
      · cases h

theorem decompressFrom_last {token : UInt8} {bs literals : Bytes} (h : takeLiterals token bs = some (literals, []))
    (n : Nat) (out : Bytes) : decompressFrom (n + 1) (token :: bs) out = some (out ++ literals) := by
  rw [decompressFrom, h]
  rfl

theorem decompressFrom_next {token lo hi : UInt8} {bs bs₂ bs₃ literals out : Bytes} {matchLen : Nat}
    (hliterals : takeLiterals token bs = some (literals, lo :: hi :: bs₂))
    (hlength : takeLength (4 + token.toNat % 16) 19 bs₂ = some (matchLen, bs₃))
    (hoffset : 0 < ofLe [lo, hi] ∧ ofLe [lo, hi] ≤ (out ++ literals).length) (n : Nat) :
    decompressFrom (n + 1) (token :: bs) out =
      decompressFrom n bs₃ (copyMatch (ofLe [lo, hi]) matchLen (out ++ literals)) := by
  rw [decompressFrom, hliterals]
  show (takeLength _ _ _ >>= fun r => _) = _
  rw [hlength]
  exact if_pos hoffset

/-! ### How long the result may be -/

theorem takeLsic_le {bs : Bytes} : ∀ {r : Nat × Bytes}, takeLsic bs = some r →
    r.2.length < bs.length ∧ r.1 + 255 * r.2.length ≤ 255 * bs.length := by
  induction bs with
  | nil => exact nofun
  | cons b bs ih =>
    intro r h
    have hb := b.toNat_lt
    rw [takeLsic] at h
    rw [List.length_cons]
    split at h
    · obtain ⟨r', hr', rfl⟩ := Option.map_eq_some_iff.mp h
      have hle := ih hr'
      dsimp only
      omega
    · obtain rfl := Option.some.inj h
      dsimp only
      omega

theorem takeLength_le {base full : Nat} {bs : Bytes} {r : Nat × Bytes} (h : takeLength base full bs = some r) :
    r.2.length ≤ bs.length ∧ r.1 + 255 * r.2.length ≤ base + 255 * bs.length := by
  unfold takeLength at h
  split at h
  · obtain ⟨r', hr', rfl⟩ := Option.map_eq_some_iff.mp h
    have hle := takeLsic_le hr'
    dsimp only
    omega
  · obtain rfl := Option.some.inj h
    exact ⟨Nat.le_refl _, Nat.le_refl _⟩

theorem takeLiterals_le {token : UInt8} {bs literals rest : Bytes} (h : takeLiterals token bs = some (literals, rest)) :
    literals.length + rest.length ≤ bs.length := by
  unfold takeLiterals at h
  obtain ⟨⟨n, after⟩, htake, h⟩ := Option.bind_eq_some_iff.mp h
  dsimp only at h
  split at h
  · have hle := takeLength_le htake
    have htoken := token.toNat_lt
    obtain ⟨rfl, rfl⟩ := Prod.mk.inj (Option.some.inj h)
    dsimp only at hle
    rw [List.length_take, List.length_drop]
    omega
  · cases h

/-- A byte adds at most 255. -/
theorem decompressFrom_le {n : Nat} {src out res : Bytes} (h : decompressFrom n src out = some res) :
    res.length ≤ out.length + 255 * src.length := by
  induction n generalizing src out with
  | zero => cases h
  | succ n ih =>
    obtain ⟨m, token, bs, literals, rest, hm, rfl, hliterals, hcases⟩ := decompressFrom_cases h
    obtain rfl : n = m := Nat.succ.inj hm
    have hle := takeLiterals_le hliterals
    rw [List.length_cons]
    rcases hcases with ⟨_, rfl⟩ | ⟨lo, hi, bs₂, matchLen, bs₃, rfl, hlength, _, hnext⟩
    · rw [List.length_append]
      omega
    · have hgrows := ih hnext
      have hmatch := takeLength_le hlength
      rw [length_copyMatch, List.length_append] at hgrows
      simp only [List.length_cons] at hle
      dsimp only at hmatch
      omega

theorem Lz4Decodes.length_le {src out : Bytes} (h : Lz4Decodes src out) : out.length ≤ 255 * src.length := by
  obtain ⟨n, hn⟩ := h
  have hle := decompressFrom_le hn
  rwa [List.length_nil, Nat.zero_add] at hle

/-- Every sequence takes a byte, so as many steps as there are bytes are enough. -/
theorem decompressFrom_enough {n : Nat} {src out res : Bytes} (h : decompressFrom n src out = some res) {k : Nat}
    (hk : src.length ≤ k) : decompressFrom k src out = some res := by
  induction n generalizing src out k with
  | zero => cases h
  | succ n ih =>
    obtain ⟨m, token, bs, literals, rest, hm, rfl, hliterals, hcases⟩ := decompressFrom_cases h
    obtain rfl : n = m := Nat.succ.inj hm
    have hle := takeLiterals_le hliterals
    rw [List.length_cons] at hk
    obtain ⟨k, rfl⟩ : ∃ j, k = j + 1 := ⟨k - 1, by omega⟩
    rcases hcases with ⟨rfl, rfl⟩ | ⟨lo, hi, bs₂, matchLen, bs₃, rfl, hlength, hoffset, hnext⟩
    · exact decompressFrom_last hliterals k out
    · have hshrinks := (takeLength_le hlength).1
      simp only [List.length_cons] at hle hshrinks
      rw [decompressFrom_next hliterals hlength hoffset]
      exact ih hnext (by omega)

theorem Lz4Decodes.enough {src out : Bytes} (h : Lz4Decodes src out) {k : Nat} (hk : src.length ≤ k) :
    decompressFrom k src [] = some out := by
  obtain ⟨n, hn⟩ := h
  exact decompressFrom_enough hn hk

/-! ### What is laid out is read back -/

theorem takeLsic_lsicBytes (n : Nat) (rest : Bytes) : takeLsic (lsicBytes n ++ rest) = some (n, rest) := by
  have hlast : (UInt8.ofNat (n % 255)).toNat = n % 255 := by
    rw [UInt8.toNat_ofNat']
    omega
  have hne : UInt8.ofNat (n % 255) ≠ 0xff := by
    intro heq
    have hnum := congrArg UInt8.toNat heq
    rw [hlast, show (0xff : UInt8).toNat = 255 from rfl] at hnum
    omega
  have hrun : ∀ k, takeLsic (List.replicate k 0xff ++ UInt8.ofNat (n % 255) :: rest) =
      some (255 * k + n % 255, rest) := by
    intro k
    induction k with
    | zero => rw [List.replicate_zero, List.nil_append, takeLsic, if_neg hne, hlast, Nat.mul_zero, Nat.zero_add]
    | succ k ih =>
      rw [List.replicate_succ, List.cons_append, takeLsic, if_pos rfl, ih]
      exact congrArg some (Prod.ext (by dsimp only; omega) rfl)
  rw [lsicBytes, List.append_assoc, List.singleton_append, hrun, Nat.div_add_mod]

/-- **A length is read back.** -/
theorem takeLength_lengthBytes (base n : Nat) (rest : Bytes) :
    takeLength (base + min n 15) (base + 15) (lengthBytes n ++ rest) = some (base + n, rest) := by
  unfold takeLength lengthBytes
  by_cases hfull : 15 ≤ n
  · rw [if_pos (by omega), if_pos hfull, takeLsic_lsicBytes]
    exact congrArg some (Prod.ext (by dsimp only; omega) rfl)
  · rw [if_neg (by omega), if_neg hfull, List.nil_append]
    exact congrArg some (Prod.ext (by dsimp only; omega) rfl)

theorem takeLiterals_encode (literals : Bytes) (copied : Nat) (rest : Bytes) :
    takeLiterals (lz4Token literals.length copied) (lengthBytes literals.length ++ (literals ++ rest)) =
      some (literals, rest) := by
  have hlength := takeLength_lengthBytes 0 literals.length (literals ++ rest)
  rw [Nat.zero_add, Nat.zero_add, Nat.zero_add] at hlength
  rw [takeLiterals, (token_nibbles _ _).1, hlength]
  show (if literals.length ≤ (literals ++ rest).length then _ else _) = _
  rw [if_pos (by rw [List.length_append]; omega), List.take_left, List.drop_left]

/-- A sequence is decoded, and then the rest. -/
theorem decompressFrom_encode {s : Lz4Sequence} (hs : s.Valid) (n : Nat) (rest : Bytes) {out : Bytes}
    (hoffset : 0 < s.offset ∧ s.offset ≤ (out ++ s.literals).length) : decompressFrom (n + 1) (s.encode ++ rest) out =
      decompressFrom n rest (copyMatch s.offset s.matchLen (out ++ s.literals)) := by
  obtain ⟨hmatch, hword⟩ := hs
  have hlength : takeLength (4 + min (s.matchLen - 4) 15) 19 (lengthBytes (s.matchLen - 4) ++ rest) =
      some (4 + (s.matchLen - 4), rest) := takeLength_lengthBytes 4 _ rest
  rw [Nat.add_sub_cancel' hmatch] at hlength
  have hof : ofLe [UInt8.ofNat (s.offset % 256), UInt8.ofNat (s.offset / 256 % 256)] = s.offset :=
    ofLe_leBytes (n := 2) (by omega)
  have hliterals := takeLiterals_encode s.literals (s.matchLen - 4)
    (leBytes 2 s.offset ++ (lengthBytes (s.matchLen - 4) ++ rest))
  rw [Lz4Sequence.encode, List.cons_append, List.append_assoc, List.append_assoc, List.append_assoc,
    decompressFrom_next hliterals (by rw [(token_nibbles _ _).2]; exact hlength) (by rw [hof]; exact hoffset), hof]

/-- **The bytes of a block decode to what it stands for.** -/
theorem decodes_encode {b : Lz4Block} {res : Bytes} (hvalid : ∀ s ∈ b.sequences, s.Valid) (h : b.decode = some res) :
    Lz4Decodes b.encode res := by
  obtain ⟨ss, last⟩ := b
  obtain ⟨mid, hmid, rfl⟩ := Option.map_eq_some_iff.mp h
  dsimp only at hvalid hmid
  suffices h : ∀ out, decodeSequences ss out = some mid →
      decompressFrom (ss.length + 1) (Lz4Block.encode ⟨ss, last⟩) out = some (mid ++ last) from ⟨_, h [] hmid⟩
  clear h hmid
  induction ss with
  | nil =>
    intro out hout
    obtain rfl := Option.some.inj hout
    have hlast := takeLiterals_encode last 0 []
    rw [List.append_nil] at hlast
    rw [Lz4Block.encode, List.flatMap_nil, List.nil_append]
    exact decompressFrom_last hlast 0 out
  | cons s ss ih =>
    intro out hout
    obtain ⟨hs, hvalid⟩ := List.forall_mem_cons.mp hvalid
    rw [decodeSequences] at hout
    split at hout
    · next hoffset =>
      have hencode : Lz4Block.encode ⟨s :: ss, last⟩ = s.encode ++ Lz4Block.encode ⟨ss, last⟩ := by
        rw [Lz4Block.encode, Lz4Block.encode, List.flatMap_cons, List.append_assoc]
      rw [hencode, List.length_cons, decompressFrom_encode hs _ _ hoffset]
      exact ih hvalid _ hout
    · cases hout

/-- A run of one byte: a literal, then a match of twenty bytes. -/
example : Lz4Decodes [0x1f, 0x61, 0x01, 0x00, 0x01, 0x10, 0x62] (List.replicate 21 0x61 ++ [0x62]) := ⟨2, by decide⟩

end Onde.Lib

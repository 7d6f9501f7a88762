import Mathlib.Data.List.Infix
import Onde.Lib.Outcome
import Onde.Lib.Utf8

/-!
# Bytes at a place

`At data off bs` says that the bytes are in the data at a place. What is laid out piece by piece is at its place piece
by piece (`at_append`), and what is there is what is read: by range (`At.getRange`), as a number (`At.word`), or as a
text up to its zero byte (`At.findNul`).
-/

namespace Onde.Lib

variable {data bs cs : Bytes} {off : Nat} {ε : Type}

/-- The bytes are at the place. -/
def At (data : Bytes) (off : Nat) (bs : Bytes) : Prop := bs <+: data.drop off

instance (data : Bytes) (off : Nat) (bs : Bytes) : Decidable (At data off bs) :=
  inferInstanceAs (Decidable (bs <+: data.drop off))

theorem at_append : At data off (bs ++ cs) ↔ At data off bs ∧ At data (off + bs.length) cs := by
  unfold At
  constructor
  · rintro ⟨rest, hrest⟩
    refine ⟨⟨cs ++ rest, by rw [← hrest, List.append_assoc]⟩, rest, ?_⟩
    rw [← List.drop_drop, ← hrest, List.append_assoc, List.drop_left]
  · rintro ⟨⟨rest, hrest⟩, rest', hrest'⟩
    rw [← List.drop_drop, ← hrest, List.drop_left] at hrest'
    exact ⟨rest', by rw [List.append_assoc, hrest', hrest]⟩

theorem at_cons {b : UInt8} : At data off (b :: bs) ↔ data[off]? = some b ∧ At data (off + 1) bs := by
  rw [← List.singleton_append, at_append]
  refine and_congr_left fun _ => ?_
  unfold At
  rw [← List.head?_drop]
  cases data.drop off with
  | nil => simp
  | cons d ds => simp [List.cons_prefix_cons, eq_comm]

/-- A piece is where the pieces before it end. -/
theorem at_mid (pre bs post : Bytes) : At (pre ++ (bs ++ post)) pre.length bs := by
  unfold At
  rw [List.drop_left]
  exact List.prefix_append bs post

/-- What is there is inside. -/
theorem At.inside (h : At data off bs) (hne : bs ≠ []) : off + bs.length ≤ data.length := by
  have hle := h.length_le
  have hpos := List.length_pos_of_ne_nil hne
  rw [List.length_drop] at hle
  omega

theorem At.getRange (h : At data off bs) (hin : off + bs.length ≤ data.length) :
    getRange data off (off + bs.length) = some bs := by
  refine getRange_eq_some.mpr ⟨Nat.le_add_right _ _, hin, ?_⟩
  rw [Nat.add_sub_cancel_left]
  exact (List.prefix_iff_eq_take.mp h).symm

theorem At.word {n v : Nat} (h : At data off (leBytes n v)) (hn : 0 < n) (hv : v < 256 ^ n) :
    (wordAt data off n : Outcome ε Nat) = .ok v := by
  have hne : leBytes n v ≠ [] := List.ne_nil_of_length_pos (by rw [length_leBytes]; exact hn)
  have hin := h.inside hne
  have hrange := h.getRange hin
  rw [length_leBytes] at hrange
  rw [wordAt, slice_eq_ok.mpr hrange, Outcome.ok_bind, ofLe_leBytes hv]

/-! ## Texts -/

/-- A text without a zero character. -/
def NulFree (s : String) : Prop := '\x00' ∉ s.toList

instance (s : String) : Decidable (NulFree s) := inferInstanceAs (Decidable (¬_))

/-- A text with a zero byte after it. -/
def cstr (s : String) : Bytes := utf8Bytes s ++ [0]

theorem length_cstr (s : String) : (cstr s).length = (utf8Bytes s).length + 1 := List.length_append

theorem cstr_ne_nil (s : String) : cstr s ≠ [] := List.append_ne_nil_of_right_ne_nil _ (List.cons_ne_nil 0 [])

/-- Only the zero character has a zero byte. -/
theorem zero_notMem_utf8EncodeChar {c : Char} (hc : c ≠ '\x00') : (0 : UInt8) ∉ String.utf8EncodeChar c := by
  have hbyte : ∀ n : Nat, (0 : UInt8) = UInt8.ofNat n → n % 256 = 0 := by
    intro n h
    have hn := congrArg UInt8.toNat h
    rw [UInt8.toNat_ofNat'] at hn
    exact hn.symm
  intro h
  unfold String.utf8EncodeChar at h
  dsimp only at h
  split at h
  · next hle =>
    have hv := hbyte _ (List.mem_singleton.mp h)
    refine hc (Char.ext (UInt32.toNat_inj.mp ?_))
    show c.val.toNat = 0
    omega
  split at h
  · simp only [List.mem_cons, List.not_mem_nil, or_false] at h
    rcases h with h | h <;> have hv := hbyte _ h <;> omega
  split at h
  · simp only [List.mem_cons, List.not_mem_nil, or_false] at h
    rcases h with h | h | h <;> have hv := hbyte _ h <;> omega
  · simp only [List.mem_cons, List.not_mem_nil, or_false] at h
    rcases h with h | h | h | h <;> have hv := hbyte _ h <;> omega

theorem zero_notMem_utf8Bytes {s : String} (hs : NulFree s) : (0 : UInt8) ∉ utf8Bytes s := by
  rw [← String.ofList_toList (s := s), utf8Bytes_ofList, List.mem_flatMap]
  rintro ⟨c, hc, hzero⟩
  exact zero_notMem_utf8EncodeChar (fun h => hs (h ▸ hc)) hzero

/-- The zero byte after a text is the first one. -/
theorem findNul_cstr {s : String} (hs : NulFree s) (rest : Bytes) :
    (cstr s ++ rest).findIdx? (· == 0) = some (utf8Bytes s).length := by
  have hnone : (utf8Bytes s).findIdx? (· == 0) = none := by
    rw [List.findIdx?_eq_none_iff]
    intro b hb
    rw [beq_eq_false_iff_ne]
    rintro rfl
    exact zero_notMem_utf8Bytes hs hb
  rw [cstr, List.append_assoc, List.findIdx?_append, hnone]
  simp [List.findIdx?_cons]

theorem At.findNul {s : String} (h : At data off (cstr s)) (hs : NulFree s) :
    (data.drop off).findIdx? (· == 0) = some (utf8Bytes s).length := by
  obtain ⟨rest, hrest⟩ := h
  rw [← hrest]
  exact findNul_cstr hs rest

end Onde.Lib

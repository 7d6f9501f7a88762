import Onde.Lib.Bytes

/-!
# Fields at fixed offsets

* `field data off n`: the `n` bytes of a message at an offset; a message is the sequence of its fields (`field_split`),
  and a field of a sequence of parts is one of the parts (`field_left`, `field_right`);
* `le16`, `le32`, `le64` / `u16At`, `u32At`, `u64At`: fixed-width numbers in a field and back.
-/

namespace Onde.Lib

/-- The `n` bytes at an offset. -/
def field (data : Bytes) (off n : Nat) : Bytes := (data.drop off).take n

@[simp] theorem length_field {data : Bytes} {off n : Nat} (h : off + n ≤ data.length) :
    (field data off n).length = n := by
  simp [field]
  omega

/-- What is left of a message is a field and what is left after it. -/
theorem field_split (data : Bytes) (off n : Nat) : data.drop off = field data off n ++ data.drop (off + n) := by
  rw [field, ← List.drop_drop, List.take_append_drop]

theorem field_left {a b : Bytes} {n : Nat} (h : a.length = n) : field (a ++ b) 0 n = a := by
  rw [field, List.drop_zero, ← h, List.take_left]

theorem field_whole {a : Bytes} {n : Nat} (h : a.length = n) : field a 0 n = a := by
  rw [field, List.drop_zero, ← h, List.take_length]

theorem field_right {a b : Bytes} {off n : Nat} (h : a.length ≤ off) :
    field (a ++ b) off n = field b (off - a.length) n := by
  rw [field, field, List.drop_append, List.drop_eq_nil_of_le h, List.nil_append]

/-! ## Numbers -/

def le16 (v : UInt16) : Bytes := leBytes 2 v.toNat

def le32 (v : UInt32) : Bytes := leBytes 4 v.toNat

def le64 (v : UInt64) : Bytes := leBytes 8 v.toNat

def u16At (data : Bytes) (off : Nat) : UInt16 := UInt16.ofNat (ofLe (field data off 2))

def u32At (data : Bytes) (off : Nat) : UInt32 := UInt32.ofNat (ofLe (field data off 4))

def u64At (data : Bytes) (off : Nat) : UInt64 := UInt64.ofNat (ofLe (field data off 8))

@[simp] theorem length_le16 (v : UInt16) : (le16 v).length = 2 := length_leBytes 2 _

@[simp] theorem length_le32 (v : UInt32) : (le32 v).length = 4 := length_leBytes 4 _

@[simp] theorem length_le64 (v : UInt64) : (le64 v).length = 8 := length_leBytes 8 _

variable {data : Bytes} {off : Nat}

theorem u16At_of_field {v : UInt16} (h : field data off 2 = le16 v) : u16At data off = v := by
  rw [u16At, h, le16, ofLe_leBytes v.toNat_lt, UInt16.ofNat_toNat]

theorem u32At_of_field {v : UInt32} (h : field data off 4 = le32 v) : u32At data off = v := by
  rw [u32At, h, le32, ofLe_leBytes v.toNat_lt, UInt32.ofNat_toNat]

theorem u64At_of_field {v : UInt64} (h : field data off 8 = le64 v) : u64At data off = v := by
  rw [u64At, h, le64, ofLe_leBytes v.toNat_lt, UInt64.ofNat_toNat]

theorem le32_injective {v w : UInt32} (h : le32 v = le32 w) : v = w := by
  have hv : field (le32 v) 0 4 = le32 v := field_whole (length_le32 v)
  rw [← u32At_of_field hv, h, u32At_of_field (field_whole (length_le32 w))]

theorem le64_injective {v w : UInt64} (h : le64 v = le64 w) : v = w := by
  have hv : field (le64 v) 0 8 = le64 v := field_whole (length_le64 v)
  rw [← u64At_of_field hv, h, u64At_of_field (field_whole (length_le64 w))]

/-- A field of `n` bytes is the encoding of the number in it. -/
theorem leBytes_field {n : Nat} (h : off + n ≤ data.length) :
    leBytes n (ofLe (field data off n) % 256 ^ n) = field data off n := by
  have hl : (field data off n).length = n := length_field h
  have hlt := ofLe_lt (field data off n)
  rw [hl] at hlt
  have hback := leBytes_ofLe (field data off n)
  rw [hl] at hback
  rw [Nat.mod_eq_of_lt hlt, hback]

theorem le16_u16At (h : off + 2 ≤ data.length) : le16 (u16At data off) = field data off 2 := by
  rw [le16, u16At, UInt16.toNat_ofNat']
  exact leBytes_field h

theorem le32_u32At (h : off + 4 ≤ data.length) : le32 (u32At data off) = field data off 4 := by
  rw [le32, u32At, UInt32.toNat_ofNat']
  exact leBytes_field h

theorem le64_u64At (h : off + 8 ≤ data.length) : le64 (u64At data off) = field data off 8 := by
  rw [le64, u64At, UInt64.toNat_ofNat']
  exact leBytes_field h

end Onde.Lib

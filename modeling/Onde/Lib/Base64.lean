import Onde.Lib.Bytes

/-!
# Base64

* `encode`: three bytes are four digits, and what is left at the end is padded;
* `decode`: the padding stands at the end only, and the bits it leaves over are zeros;
* `decode_encode`: bytes are read back.
-/

namespace Onde.Lib.Base64

def alphabet : List Char := "ABCDEFGHIJKLMNOPQRSTUVWXYZabcdefghijklmnopqrstuvwxyz0123456789+/".toList

/-- The digit that stands for a number below 64, -/
def digit (n : Nat) : Char := alphabet.getD n '='

/-- and the number a digit stands for. -/
def value (c : Char) : Option Nat := alphabet.idxOf? c

theorem value_digit {n : Nat} (hn : n < 64) : value (digit n) = some n := by
  have hall : ∀ n < 64, value (digit n) = some n := by decide +kernel
  exact hall n hn

theorem value_pad : value '=' = none := by decide +kernel

/-! ## Encoding -/

def encode : Bytes → List Char
  | [] => []
  | [a] =>
    let n := a.toNat * 16
    [digit (n / 64), digit (n % 64), '=', '=']
  | [a, b] =>
    let n := (a.toNat * 256 + b.toNat) * 4
    [digit (n / 4096), digit (n / 64 % 64), digit (n % 64), '=']
  | a :: b :: c :: rest =>
    let n := a.toNat * 65536 + b.toNat * 256 + c.toNat
    digit (n / 262144) :: digit (n / 4096 % 64) :: digit (n / 64 % 64) :: digit (n % 64) :: encode rest

/-! ## Decoding -/

/-- The bytes of four digits, of which the last ones may be padding. -/
def quad (p q r s : Char) : Option Bytes :=
  match value p, value q, value r, value s with
  | some v, some w, some x, some y =>
    let n := v * 262144 + w * 4096 + x * 64 + y
    some [UInt8.ofNat (n / 65536), UInt8.ofNat (n / 256 % 256), UInt8.ofNat (n % 256)]
  | some v, some w, some x, none =>
    let n := v * 4096 + w * 64 + x
    if s = '=' ∧ n % 4 = 0 then some [UInt8.ofNat (n / 1024), UInt8.ofNat (n / 4 % 256)] else none
  | some v, some w, none, none =>
    let n := v * 64 + w
    if r = '=' ∧ s = '=' ∧ n % 16 = 0 then some [UInt8.ofNat (n / 16)] else none
  | _, _, _, _ => none

def decode : List Char → Option Bytes
  | [] => some []
  | p :: q :: r :: s :: rest => match quad p q r s with
    | none => none
    | some bs => if bs.length < 3 ∧ rest ≠ [] then none else (decode rest).map (bs ++ ·)
  | _ => none

/-- **Bytes are read back.** -/
theorem decode_encode : ∀ bs : Bytes, decode (encode bs) = some bs
  | [] => rfl
  | [a] => by
    have ha := a.toNat_lt
    have hquad : quad (digit (a.toNat * 16 / 64)) (digit (a.toNat * 16 % 64)) '=' '=' = some [a] := by
      have hn : a.toNat * 16 / 64 * 64 + a.toNat * 16 % 64 = a.toNat * 16 := by omega
      rw [quad, value_digit (by omega), value_digit (by omega), value_pad]
      dsimp only
      rw [hn, if_pos ⟨rfl, rfl, by omega⟩, Nat.mul_div_cancel _ (by decide), UInt8.ofNat_toNat]
    rw [encode, decode, hquad]
    rfl
  | [a, b] => by
    have ha := a.toNat_lt
    have hb := b.toNat_lt
    generalize hn : (a.toNat * 256 + b.toNat) * 4 = n
    have hquad : quad (digit (n / 4096)) (digit (n / 64 % 64)) (digit (n % 64)) '=' = some [a, b] := by
      have hsum : n / 4096 * 4096 + n / 64 % 64 * 64 + n % 64 = n := by omega
      have hfst : n / 1024 = a.toNat := by omega
      have hsnd : n / 4 % 256 = b.toNat := by omega
      rw [quad, value_digit (by omega), value_digit (by omega), value_digit (by omega), value_pad]
      dsimp only
      rw [hsum, if_pos ⟨rfl, by omega⟩, hfst, hsnd, UInt8.ofNat_toNat, UInt8.ofNat_toNat]
    rw [encode, hn, decode, hquad]
    rfl
  | a :: b :: c :: rest => by
    have ha := a.toNat_lt
    have hb := b.toNat_lt
    have hc := c.toNat_lt
    generalize hn : a.toNat * 65536 + b.toNat * 256 + c.toNat = n
    have hquad : quad (digit (n / 262144)) (digit (n / 4096 % 64)) (digit (n / 64 % 64)) (digit (n % 64)) =
        some [a, b, c] := by
      have hsum : n / 262144 * 262144 + n / 4096 % 64 * 4096 + n / 64 % 64 * 64 + n % 64 = n := by
        have hone : n / 4096 = n / 64 / 64 := (Nat.div_div_eq_div_mul n 64 64).symm
        have htwo : n / 262144 = n / 64 / 64 / 64 := by rw [Nat.div_div_eq_div_mul, Nat.div_div_eq_div_mul]
        rw [hone, htwo]
        clear hn
        omega
      have hfst : n / 65536 = a.toNat := by omega
      have hsnd : n / 256 % 256 = b.toNat := by omega
      have htrd : n % 256 = c.toNat := by omega
      have hdigits : value (digit (n / 262144)) = some (n / 262144) ∧
          value (digit (n / 4096 % 64)) = some (n / 4096 % 64) ∧ value (digit (n / 64 % 64)) = some (n / 64 % 64) ∧
          value (digit (n % 64)) = some (n % 64) :=
        ⟨value_digit (by omega), value_digit (by omega), value_digit (by omega), value_digit (by omega)⟩
      rw [quad, hdigits.1, hdigits.2.1, hdigits.2.2.1, hdigits.2.2.2]
      dsimp only
      rw [hsum, hfst, hsnd, htrd, UInt8.ofNat_toNat, UInt8.ofNat_toNat, UInt8.ofNat_toNat]
    rw [encode, hn, decode, hquad]
    dsimp only
    rw [if_neg (by simp), decode_encode rest]
    rfl

example : String.ofList (encode (utf8Bytes "k!")) = "ayE=" ∧ decode "ayF=".toList = none ∧
    decode "ay==ayE=".toList = none := by decide +kernel

end Onde.Lib.Base64

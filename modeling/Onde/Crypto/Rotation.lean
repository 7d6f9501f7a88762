import Onde.Crypto.Primitives

/-!
# The rotating identity of a session

`RotatingIdentity.maybeRotate` replaces the current identity once the interval has passed. A rotation takes at least a
minute, so the counter never outruns the clock (`Paced`, `maybeRotate_paced`), and a rotation raises it
(`maybeRotate_count`).
-/

namespace Onde.Crypto

structure RotatingIdentity where
  current : Identity
  previous : Option Identity
  next : Identity
  rotationIntervalSecs : UInt64
  lastRotation : UInt64
  rotations : UInt64

namespace RotatingIdentity

/-- A rotator that starts now with two generated identities; the interval is a minute at least. -/
def newWithStart (intervalSecs lastRotation : UInt64) (current next : Identity) : RotatingIdentity where
  current := current
  previous := none
  next := next
  rotationIntervalSecs := if intervalSecs < 60 then 60 else intervalSecs
  lastRotation := lastRotation
  rotations := 0

/-- Rotate if the interval has passed; `generated` is the new next identity. -/
def maybeRotate (r : RotatingIdentity) (now : UInt64) (generated : Identity) : Bool × RotatingIdentity :=
  if now.toNat - r.lastRotation.toNat < r.rotationIntervalSecs.toNat then (false, r)
  else (true, { r with
    current := r.next
    previous := some r.current
    next := generated
    lastRotation := now
    rotations := r.rotations + 1 })

/-- Each rotation took a minute. -/
structure Paced (r : RotatingIdentity) : Prop where
  interval : 60 ≤ r.rotationIntervalSecs.toNat
  rotations : 60 * r.rotations.toNat ≤ r.lastRotation.toNat

theorem newWithStart_paced (intervalSecs lastRotation : UInt64) (current next : Identity) :
    (newWithStart intervalSecs lastRotation current next).Paced := by
  refine ⟨?_, Nat.zero_le _⟩
  unfold newWithStart
  dsimp only
  split
  · exact Nat.le_refl 60
  · next hle => exact UInt64.le_iff_toNat_le.mp (UInt64.not_lt.mp hle)

variable {r : RotatingIdentity}

/-- **The counter does not wrap, and a rotation raises it.** -/
theorem maybeRotate_count (hr : r.Paced) (now : UInt64) (generated : Identity) :
    (r.maybeRotate now generated).2 = r ∨
      r.rotations < (r.maybeRotate now generated).2.rotations ∧ (r.maybeRotate now generated).2.Paced := by
  unfold maybeRotate
  split
  · exact Or.inl rfl
  · next hdue =>
    right
    have hinterval := hr.interval
    have hrot := hr.rotations
    have hnow := now.toNat_lt
    have hone : (r.rotations + 1).toNat = r.rotations.toNat + 1 := by
      rw [UInt64.toNat_add, UInt64.toNat_one]
      omega
    refine ⟨UInt64.lt_iff_toNat_lt.mpr ?_, hinterval, ?_⟩
    · show r.rotations.toNat < (r.rotations + 1).toNat
      omega
    · show 60 * (r.rotations + 1).toNat ≤ now.toNat
      omega

theorem maybeRotate_paced (hr : r.Paced) (now : UInt64) (generated : Identity) :
    (r.maybeRotate now generated).2.Paced := by
  rcases maybeRotate_count hr now generated with hsame | ⟨_, hpaced⟩
  · rw [hsame]
    exact hr
  · exact hpaced

end RotatingIdentity

end Onde.Crypto

import Onde.Crypto.Rotation

/-!
# How long a rotated key is accepted

A rotator signs with its current key and verifies with the current one or the one before it.

* `rotateAll`: the calls of `maybeRotate` that follow a signature;
* `Stage`: where the key that signed is after so many rotations;
* `stage_run`: how far a run gets, and how long that takes;
* `grace_period`: a signature is accepted exactly until the second rotation after it, so for an interval at least.
-/

namespace Onde.Crypto

open Onde.Lib

namespace RotatingIdentity

/-- Sign with the current identity. -/
def sign (c : Primitives) (r : RotatingIdentity) (data : Bytes) : ByteArr 64 := c.sign r.current.seed data

/-- Verify with the current key or the previous one. -/
def verifyWithAny (c : Primitives) (r : RotatingIdentity) (pubkeyHex : String) (data : Bytes) (sig : ByteArr 64) :
    Bool :=
  if pubkeyHex = r.current.pubkeyHex c then c.verify (c.publicKey r.current.seed) data sig
  else
    match r.previous with
    | some prev => if pubkeyHex = prev.pubkeyHex c then c.verify (c.publicKey prev.seed) data sig else false
    | none => false

/-- Calls of `maybeRotate`, each with the time and the identity it would generate. -/
def rotateAll (r : RotatingIdentity) (calls : List (UInt64 × Identity)) : RotatingIdentity :=
  calls.foldl (fun r x => (r.maybeRotate x.1 x.2).2) r

variable {c : Primitives} {r r' : RotatingIdentity} {signer : Identity} {n : Nat}

/-- **What a call does**: nothing, or a rotation at least an interval after the last one. -/
theorem maybeRotate_cases (r : RotatingIdentity) (now : UInt64) (generated : Identity) :
    (r.maybeRotate now generated).2 = r ∨
      (r.lastRotation.toNat + r.rotationIntervalSecs.toNat ≤ now.toNat ∨ r.rotationIntervalSecs.toNat = 0) ∧
        (r.maybeRotate now generated).2 =
          { r with current := r.next, previous := some r.current, next := generated, lastRotation := now,
                   rotations := r.rotations + 1 } := by
  unfold maybeRotate
  split
  · exact .inl rfl
  · next hdue => exact .inr ⟨by omega, rfl⟩

/-- Where the key that signed is after `n` rotations: the current one, the one before it, or gone. -/
structure Stage (c : Primitives) (signer : Identity) (n : Nat) (r : RotatingIdentity) : Prop where
  current : n = 0 → r.current = signer
  replaced : n ≠ 0 → signer.pubkeyHex c ≠ r.current.pubkeyHex c
  previous : n = 1 → r.previous = some signer
  gone : 1 < n → ∀ prev ∈ r.previous, signer.pubkeyHex c ≠ prev.pubkeyHex c
  next : signer.pubkeyHex c ≠ r.next.pubkeyHex c

theorem Stage.rotate (hs : Stage c signer n r) {generated : Identity} (now : UInt64)
    (hnew : signer.pubkeyHex c ≠ generated.pubkeyHex c) :
    Stage c signer (n + 1) { r with current := r.next, previous := some r.current, next := generated,
                                    lastRotation := now, rotations := r.rotations + 1 } where
  current h := absurd h (Nat.succ_ne_zero n)
  replaced _ := hs.next
  previous h := congrArg some (hs.current (Nat.succ.inj h))
  gone h prev hprev := by
    obtain rfl := Option.some.inj hprev
    exact hs.replaced (by omega)
  next := hnew

/-- The rotator accepts what the signer signed as long as it has its key. -/
theorem Stage.verifyWithAny (hs : Stage c signer n r) (hl : c.Lawful) (data : Bytes) :
    r.verifyWithAny c (signer.pubkeyHex c) data (c.sign signer.seed data) = true ↔ n ≤ 1 := by
  unfold RotatingIdentity.verifyWithAny
  rcases Nat.lt_trichotomy n 1 with hlt | heq | hgt
  · rw [hs.current (by omega), if_pos rfl, hl.verify_sign]
    simp only [true_iff]
    omega
  · rw [if_neg (hs.replaced (by omega)), hs.previous heq]
    simp [hl.verify_sign, heq]
  · rw [if_neg (hs.replaced (by omega))]
    have hgone := hs.gone hgt
    cases hprev : r.previous with
    | none => simp [hgt]
    | some prev => simp [hgone prev hprev, hgt]

/-- **The rotations of some calls, and the time they take.** -/
theorem stage_run {calls : List (UInt64 × Identity)} (hr : r.Paced) (hs : Stage c signer n r)
    (hnew : ∀ x ∈ calls, signer.pubkeyHex c ≠ x.2.pubkeyHex c) :
    ∃ k, Stage c signer (n + k) (r.rotateAll calls) ∧ (r.rotateAll calls).rotations.toNat = r.rotations.toNat + k ∧
      (k = 0 ∨ ∃ x ∈ calls, r.lastRotation.toNat + k * r.rotationIntervalSecs.toNat ≤ x.1.toNat) := by
  induction calls generalizing r n with
  | nil => exact ⟨0, hs, rfl, .inl rfl⟩
  | cons x calls ih =>
    have hpaced := maybeRotate_paced hr x.1 x.2
    have hnew' : ∀ y ∈ calls, signer.pubkeyHex c ≠ y.2.pubkeyHex c := fun y hy => hnew y (List.mem_cons_of_mem x hy)
    show ∃ k, Stage c signer (n + k) ((r.maybeRotate x.1 x.2).2.rotateAll calls) ∧
      ((r.maybeRotate x.1 x.2).2.rotateAll calls).rotations.toNat = r.rotations.toNat + k ∧ _
    obtain hsame | ⟨hdue, hrot⟩ := maybeRotate_cases r x.1 x.2
    · rw [hsame]
      obtain ⟨k, hstage, hcount, hlong⟩ := ih hr hs hnew'
      exact ⟨k, hstage, hcount, hlong.imp_right fun ⟨y, hy, hle⟩ => ⟨y, List.mem_cons_of_mem x hy, hle⟩⟩
    · have hinterval := hr.interval
      have hminutes := hr.rotations
      have hone : (r.rotations + 1).toNat = r.rotations.toNat + 1 := by
        have hlast := r.lastRotation.toNat_lt
        rw [UInt64.toNat_add, UInt64.toNat_one]
        omega
      rw [hrot] at hpaced ⊢
      obtain ⟨k, hstage, hcount, hlong⟩ := ih hpaced (hs.rotate x.1 (hnew x List.mem_cons_self)) hnew'
      refine ⟨k + 1, by rwa [Nat.add_comm k, ← Nat.add_assoc], ?_, .inr ?_⟩
      · rw [hcount]
        show (r.rotations + 1).toNat + k = _
        omega
      · rcases hlong with rfl | ⟨y, hy, hle⟩
        · exact ⟨x, List.mem_cons_self, by omega⟩
        · refine ⟨y, List.mem_cons_of_mem x hy, ?_⟩
          have hlate : x.1.toNat + k * r.rotationIntervalSecs.toNat ≤ y.1.toNat := hle
          rw [Nat.add_mul]
          omega

/-- **A signature is accepted exactly until the second rotation after it**, whenever the calls come; and before two
intervals have passed since the last rotation, there is no second one. -/
theorem grace_period {calls : List (UInt64 × Identity)} (hl : c.Lawful) (hr : r.Paced)
    (hnext : r.current.pubkeyHex c ≠ r.next.pubkeyHex c)
    (hnew : ∀ x ∈ calls, r.current.pubkeyHex c ≠ x.2.pubkeyHex c) (data : Bytes) :
    let r' := r.rotateAll calls
    (r'.verifyWithAny c (r.current.pubkeyHex c) data (r.sign c data) = true ↔
        r'.rotations.toNat ≤ r.rotations.toNat + 1) ∧
      ((∀ x ∈ calls, x.1.toNat < r.lastRotation.toNat + 2 * r.rotationIntervalSecs.toNat) →
        r'.verifyWithAny c (r.current.pubkeyHex c) data (r.sign c data) = true) := by
  intro r'
  have hstart : Stage c r.current 0 r :=
    ⟨fun _ => rfl, fun h => absurd rfl h, fun h => absurd h (by omega), fun h => absurd h (by omega), hnext⟩
  obtain ⟨k, hstage, hcount, hlong⟩ := stage_run hr hstart hnew
  have haccept := hstage.verifyWithAny hl data
  rw [Nat.zero_add] at haccept
  refine ⟨haccept.trans ?_, fun hearly => haccept.mpr ?_⟩
  · show k ≤ 1 ↔ (r.rotateAll calls).rotations.toNat ≤ _
    omega
  · rcases hlong with rfl | ⟨x, hx, hle⟩
    · exact Nat.zero_le 1
    · by_contra hmany
      have hlt := hearly x hx
      have hmul := Nat.mul_le_mul_right r.rotationIntervalSecs.toNat (show 2 ≤ k by omega)
      omega

end RotatingIdentity

/-- Three keys, and the signature of a text with the first. -/
def graceValues : KnownValues where
  keys := knownKeys ++ [("0303030303030303030303030303030303030303030303030303030303030303",
    "ed4928c628d1c2c6eae90338905995612959273a5c63f93636c14614ac8737d1")]
  digests := []
  signatures := [("8a88e3dd7409f195fd52db2d3cba5d72ca6709bf1d94121bf3748801b40f6f5c", "OK",
    "9755f101530ff835d0cf74a14847e886c37e83b90d15c0442003692d0da743570e643a8547d9645540477aeb862ee152" ++
      "a0a4ca3da0aa59f04b00adc92b6a1705")]

/-- The key of the first identity is neither of the others. -/
theorem graceValues_fresh : ∀ i ∈ [Identity.ofByte 2, Identity.ofByte 3],
    (Identity.ofByte 1).pubkeyHex (.ofKnown graceValues) ≠ i.pubkeyHex (.ofKnown graceValues) := by
  have hone := @Identity.pubkeyHex_ofKnown graceValues (.ofByte 1) knownKeys[0] rfl
    (knownKeys_lowerHex _ (List.getElem_mem _))
  have htwo := @Identity.pubkeyHex_ofKnown graceValues (.ofByte 2) knownKeys[1] rfl
    (knownKeys_lowerHex _ (List.getElem_mem _))
  have hthree := @Identity.pubkeyHex_ofKnown graceValues (.ofByte 3) graceValues.keys[2] rfl (lowerHex_ofList rfl rfl)
  rw [List.forall_mem_cons, List.forall_mem_singleton, hone, htwo, hthree]
  exact ⟨by decide, by decide⟩

/-- What is signed an hour before the rotation is accepted after it. -/
theorem grace_period_once :
    let c := Primitives.ofKnown graceValues
    let r := RotatingIdentity.newWithStart 3600 1700000000 (.ofByte 1) (.ofByte 2)
    (r.rotateAll [(1700003600, .ofByte 3)]).verifyWithAny c ((Identity.ofByte 1).pubkeyHex c) (utf8Bytes "OK")
      (r.sign c (utf8Bytes "OK")) = true := by
  intro c r
  obtain ⟨hiff, -⟩ := @RotatingIdentity.grace_period c r [(1700003600, .ofByte 3)] (Primitives.ofKnown_lawful _)
    (RotatingIdentity.newWithStart_paced _ _ _ _) (graceValues_fresh _ List.mem_cons_self)
    (fun x hx => by
      rw [List.mem_singleton.mp hx]
      exact graceValues_fresh _ (List.mem_cons_of_mem _ List.mem_cons_self)) (utf8Bytes "OK")
  exact hiff.mpr (by decide)

end Onde.Crypto

import Onde.Lib.Bytes

/-!
# Lines that end with CR LF

* `findCrlf`: where the first pair of CR and LF is; `findCrlf_append`: what follows does not move it, and
  `findCrlf_late`: what comes after a part without a pair makes one across its end at the earliest;
* `dropBlank`: the bytes without the pairs they begin with (`dropBlank_append`, `findCrlf_dropBlank`).
-/

namespace Onde.Lib

/-- The place of the first CR LF. -/
def findCrlf : Bytes → Option Nat
  | a :: b :: bs => if a = 0x0d ∧ b = 0x0a then some 0 else (findCrlf (b :: bs)).map (· + 1)
  | _ => none

/-- Without the pairs of CR LF at the beginning. -/
def dropBlank : Bytes → Bytes
  | a :: b :: bs => if a = 0x0d ∧ b = 0x0a then dropBlank bs else a :: b :: bs
  | bs => bs

variable {p : Nat}

/-- **What follows does not move the first pair.** -/
theorem findCrlf_append : ∀ {bs : Bytes} {p : Nat}, findCrlf bs = some p → ∀ cs : Bytes,
    p + 2 ≤ bs.length ∧ findCrlf (bs ++ cs) = some p
  | [], _, h, _ => by cases h
  | [_], _, h, _ => by cases h
  | a :: b :: bs, p, h, cs => by
    rw [findCrlf] at h
    rw [List.cons_append, List.cons_append, findCrlf]
    split at h
    · next hpair =>
      obtain rfl := Option.some.inj h
      rw [if_pos hpair]
      exact ⟨Nat.le_add_left _ _, rfl⟩
    · next hpair =>
      obtain ⟨q, hq, rfl⟩ := Option.map_eq_some_iff.mp h
      obtain ⟨hlen, happ⟩ := findCrlf_append hq cs
      rw [if_neg hpair, ← List.cons_append, happ]
      exact ⟨Nat.succ_le_succ hlen, rfl⟩

/-- **After a part without a pair the first one ends behind it.** -/
theorem findCrlf_late : ∀ {bs cs : Bytes} {p : Nat}, findCrlf bs = none → findCrlf (bs ++ cs) = some p →
    bs.length < p + 2
  | [], _, _, _, _ => Nat.succ_pos _
  | [_], _, _, _, _ => Nat.lt_of_lt_of_le (Nat.lt_succ_self 1) (Nat.le_add_left _ _)
  | a :: b :: bs, cs, p, hnone, h => by
    rw [findCrlf] at hnone
    rw [List.cons_append, List.cons_append, findCrlf] at h
    split at hnone
    · cases hnone
    · next hpair =>
      rw [if_neg hpair, ← List.cons_append] at h
      obtain ⟨q, hq, rfl⟩ := Option.map_eq_some_iff.mp h
      exact Nat.succ_lt_succ (findCrlf_late (Option.map_eq_none_iff.mp hnone) hq)

/-- The pair behind bytes that are no CR. -/
theorem findCrlf_text (cs : Bytes) : ∀ (bs : Bytes), (∀ b ∈ bs, b ≠ 0x0d) →
    findCrlf (bs ++ 0x0d :: 0x0a :: cs) = some bs.length
  | [], _ => rfl
  | [a], h => by
    rw [List.singleton_append, findCrlf, if_neg (fun hpair => h a List.mem_cons_self hpair.1)]
    rfl
  | a :: b :: bs, h => by
    have ih := findCrlf_text cs (b :: bs) fun x hx => h x (List.mem_cons_of_mem _ hx)
    rw [List.cons_append, List.cons_append, findCrlf, if_neg (fun hpair => h a List.mem_cons_self hpair.1),
      ← List.cons_append, ih]
    rfl

/-! ## Leading pairs -/

/-- **What is left does not begin with a pair.** -/
theorem findCrlf_dropBlank (bs : Bytes) : findCrlf (dropBlank bs) ≠ some 0 := by
  fun_induction dropBlank bs with
  | case1 a b bs hpair ih => exact ih
  | case2 a b bs hpair =>
    rw [findCrlf, if_neg hpair]
    intro h
    obtain ⟨q, -, hq⟩ := Option.map_eq_some_iff.mp h
    exact Nat.succ_ne_zero q hq
  | case3 bs hshort =>
    match bs with
    | [] => exact nofun
    | [_] => exact nofun
    | a :: b :: bs => exact absurd rfl (hshort a b bs)

/-- **Nothing is dropped from bytes that do not begin with a pair.** -/
theorem dropBlank_of_ne : ∀ {bs : Bytes}, findCrlf bs ≠ some 0 → dropBlank bs = bs
  | [], _ => rfl
  | [_], _ => rfl
  | a :: b :: bs, h => by
    rw [dropBlank, if_neg]
    intro hpair
    rw [findCrlf, if_pos hpair] at h
    exact h rfl

theorem dropBlank_of_none {bs : Bytes} (h : findCrlf bs = none) : dropBlank bs = bs :=
  dropBlank_of_ne fun hzero => by rw [h] at hzero; cases hzero

/-- A leading pair is dropped with the others. -/
theorem dropBlank_drop : ∀ {bs : Bytes}, findCrlf bs = some 0 → dropBlank (bs.drop 2) = dropBlank bs
  | [], h => by cases h
  | [_], h => by cases h
  | a :: b :: bs, h => by
    rw [dropBlank.eq_1 a b bs, if_pos]
    · rfl
    · by_contra hpair
      exact findCrlf_dropBlank (a :: b :: bs) (by rw [dropBlank, if_neg hpair]; exact h)

/-- **The leading pairs of a part may be dropped first.** -/
theorem dropBlank_append (bs cs : Bytes) : dropBlank (dropBlank bs ++ cs) = dropBlank (bs ++ cs) := by
  fun_induction dropBlank bs with
  | case1 a b bs hpair ih =>
    rw [ih, List.cons_append, List.cons_append, dropBlank.eq_1, if_pos hpair]
  | case2 => rfl
  | case3 => rfl

/-- **The dropped pairs are a head that is dropped before anything else, too.** -/
theorem dropBlank_split (bs : Bytes) : ∃ lead, bs = lead ++ dropBlank bs ∧
    ∀ cs, dropBlank (lead ++ cs) = dropBlank cs := by
  fun_induction dropBlank bs with
  | case1 a b bs hpair ih =>
    obtain ⟨lead, hbs, hlead⟩ := ih
    refine ⟨a :: b :: lead, congrArg (a :: b :: ·) hbs, fun cs => ?_⟩
    rw [List.cons_append, List.cons_append, dropBlank, if_pos hpair, hlead]
  | case2 a b bs hpair => exact ⟨[], rfl, fun _ => rfl⟩
  | case3 bs hshort => exact ⟨[], rfl, fun _ => rfl⟩

/-- **A part without a pair that is longer than a CR stays where it is.** -/
theorem dropBlank_settled {bs : Bytes} (hnone : findCrlf bs = none) (hlen : 2 ≤ bs.length) (cs : Bytes) :
    dropBlank (bs ++ cs) = bs ++ cs := by
  refine dropBlank_of_ne fun hzero => ?_
  have hlate := findCrlf_late hnone hzero
  omega

end Onde.Lib

import Mathlib.Data.List.TakeWhile
import Onde.Reputation.Spam

/-!
# The guard and the reference sliding window

* `Reference.answers`: the window as a specification, a function of the whole history of admissions;
* `Remembers`: what the table of the guard knows of the history. A stamp it has lost is outside the window, or was
  evicted, and then `maxTrackedAuthors` other authors have been admitted since (`Remembers.call`);
* `spamGuard_refines`: as long as the authors in a window fit the table, the guard answers as the reference;
* `spam_cap`: an author exceeds the budget in a window only if `maxTrackedAuthors` others are admitted in it, which
  happens (`flooded`).
-/

namespace Onde.Reputation

open Onde.Lib

/-- An event that was admitted. -/
structure Grant where
  author : String
  time : Nat
  deriving DecidableEq

/-- A call of the guard; `none` stands for the budget of the guard itself. -/
structure AdmitCall where
  author : String
  now : Nat
  budget : Option Nat

/-! ## The reference -/

/-- The times at which an author was admitted. -/
def grantTimes (h : List Grant) (author : String) : List Nat := (h.filter fun e => e.author = author).map Grant.time

/-- The admissions of an author in the window that ends at `now`. -/
def recent (windowSecs now : Nat) (h : List Grant) (author : String) : List Nat :=
  (grantTimes h author).filter fun t => now - windowSecs ≤ t ∧ t ≤ now

/-- The authors admitted in the window that ends at `now`. -/
def active (windowSecs now : Nat) (h : List Grant) : Finset String :=
  ((h.filter fun e => now - windowSecs ≤ e.time ∧ e.time ≤ now).map Grant.author).toFinset

/-- The authors other than this one that were admitted between two times. -/
def rivals (h : List Grant) (author : String) (first last : Nat) : Finset String :=
  ((h.filter fun e => e.author ≠ author ∧ first ≤ e.time ∧ e.time ≤ last).map Grant.author).toFinset

namespace Reference

/-- Fewer than `budget` admissions in the window. -/
def allows (windowSecs budget : Nat) (h : List Grant) (c : AdmitCall) : Bool :=
  (recent windowSecs c.now h c.author).length < c.budget.getD budget

/-- The history after a call. -/
def record (windowSecs budget : Nat) (h : List Grant) (c : AdmitCall) : List Grant :=
  if allows windowSecs budget h c then h ++ [⟨c.author, c.now⟩] else h

/-- The answers to a run of calls. -/
def answers (windowSecs budget : Nat) : List Grant → List AdmitCall → List Bool
  | _, [] => []
  | h, c :: cs => allows windowSecs budget h c :: answers windowSecs budget (record windowSecs budget h c) cs

/-- At each call, the authors in the window, with the caller, fit the table. -/
def Uncrowded (windowSecs budget : Nat) : List Grant → List AdmitCall → Prop
  | _, [] => True
  | h, c :: cs => (insert c.author (active windowSecs c.now h)).card ≤ maxTrackedAuthors ∧
    Uncrowded windowSecs budget (record windowSecs budget h c) cs

end Reference

/-! ## Runs of the guard -/

/-- The guard and what it has admitted. -/
structure SpamLog where
  guard : SpamGuard
  granted : List Grant

namespace SpamLog

def start (windowSecs budget : Nat) : SpamLog := ⟨.new windowSecs budget, []⟩

/-- One call, under the iteration order its table has then. -/
def call (l : SpamLog) (x : HashOrder × AdmitCall) : Bool × SpamLog :=
  let r := l.guard.admitWithBudget x.1 x.2.author x.2.now (x.2.budget.getD l.guard.budget)
  (r.1, ⟨r.2, if r.1 then l.granted ++ [⟨x.2.author, x.2.now⟩] else l.granted⟩)

/-- The answers to a run of calls. -/
def answers : SpamLog → List (HashOrder × AdmitCall) → List Bool
  | _, [] => []
  | l, x :: xs => (l.call x).1 :: answers (l.call x).2 xs

/-- The guard and its history after a run of calls. -/
def after (l : SpamLog) (xs : List (HashOrder × AdmitCall)) : SpamLog := xs.foldl (fun l x => (l.call x).2) l

/-- At each call, the authors admitted in the window, with the caller, fit the table. -/
def Uncrowded : SpamLog → List (HashOrder × AdmitCall) → Prop
  | _, [] => True
  | l, x :: xs => (insert x.2.author (active l.guard.windowSecs x.2.now l.granted)).card ≤ maxTrackedAuthors ∧
    Uncrowded (l.call x).2 xs

end SpamLog

variable {h : List Grant} {g : SpamGuard} {ord : HashOrder} {author : String} {now n budget windowSecs : Nat}

theorem grantTimes_append (h₁ h₂ : List Grant) :
    grantTimes (h₁ ++ h₂) author = grantTimes h₁ author ++ grantTimes h₂ author := by
  simp [grantTimes]

theorem mem_grantTimes {t : Nat} : t ∈ grantTimes h author ↔ ⟨author, t⟩ ∈ h := by
  simp only [grantTimes, List.mem_map, List.mem_filter, decide_eq_true_eq]
  constructor
  · rintro ⟨⟨a, s⟩, ⟨hmem, rfl⟩, rfl⟩
    exact hmem
  · intro hmem
    exact ⟨_, ⟨hmem, rfl⟩, rfl⟩

theorem mem_rivals {b : String} {first last : Nat} :
    b ∈ rivals h author first last ↔ b ≠ author ∧ ∃ t ∈ grantTimes h b, first ≤ t ∧ t ≤ last := by
  simp only [rivals, List.mem_toFinset, List.mem_map, List.mem_filter, decide_eq_true_eq, mem_grantTimes]
  constructor
  · rintro ⟨⟨a, s⟩, ⟨hmem, hne, hs⟩, rfl⟩
    exact ⟨hne, s, hmem, hs⟩
  · rintro ⟨hne, t, hmem, ht⟩
    exact ⟨_, ⟨hmem, hne, ht⟩, rfl⟩

theorem mem_active {b : String} :
    b ∈ active windowSecs now h ↔ ∃ t ∈ grantTimes h b, now - windowSecs ≤ t ∧ t ≤ now := by
  simp only [active, List.mem_toFinset, List.mem_map, List.mem_filter, decide_eq_true_eq, mem_grantTimes]
  constructor
  · rintro ⟨⟨a, s⟩, ⟨hmem, hs⟩, rfl⟩
    exact ⟨s, hmem, hs⟩
  · rintro ⟨t, hmem, ht⟩
    exact ⟨_, ⟨hmem, ht⟩, rfl⟩

theorem rivals_mono {h₁ h₂ : List Grant} {first first' last last' : Nat} (hsub : h₁ ⊆ h₂) (hf : first' ≤ first)
    (hl : last ≤ last') : rivals h₁ author first last ⊆ rivals h₂ author first' last' := by
  intro b hb
  obtain ⟨hne, t, ht, h₁, h₂⟩ := mem_rivals.mp hb
  exact mem_rivals.mpr ⟨hne, t, mem_grantTimes.mpr (hsub (mem_grantTimes.mp ht)), hf.trans h₁, h₂.trans hl⟩

/-! ## Eviction -/

namespace SpamGuard

/-- The last admission of an author, as the eviction reads it. -/
def lastOf (entries : StrMap (List Nat)) (k : String) : Nat := (entries.getD k []).getLast?.getD 0

/-- What the search for the oldest has found: the least of the times seen so far, if one is below the start. -/
theorem oldest_fold (entries : StrMap (List Nat)) : ∀ (keys : List String) (acc : Option String × Nat),
    let r := keys.foldl (fun (acc : Option String × Nat) k =>
      let last := (entries.getD k []).getLast?.getD 0
      if last < acc.2 then (some k, last) else acc) acc
    (r = acc ∨ ∃ k ∈ keys, r = (some k, lastOf entries k)) ∧ r.2 ≤ acc.2 ∧ ∀ k ∈ keys, r.2 ≤ lastOf entries k
  | [], acc => ⟨.inl rfl, le_rfl, fun k hk => by cases hk⟩
  | k :: keys, acc => by
    rw [List.foldl_cons]
    by_cases hlt : lastOf entries k < acc.2
    · obtain ⟨hfound, hle, hall⟩ := oldest_fold entries keys (some k, lastOf entries k)
      simp only [lastOf] at hlt
      simp only [if_pos hlt]
      refine ⟨?_, hle.trans (Nat.le_of_lt hlt), ?_⟩
      · rcases hfound with heq | ⟨k', hk', heq⟩
        · exact .inr ⟨k, List.mem_cons_self, heq⟩
        · exact .inr ⟨k', List.mem_cons_of_mem _ hk', heq⟩
      · intro k' hk'
        rcases List.mem_cons.mp hk' with rfl | hk'
        · exact hle
        · exact hall k' hk'
    · obtain ⟨hfound, hle, hall⟩ := oldest_fold entries keys acc
      simp only [lastOf] at hlt
      simp only [if_neg hlt]
      refine ⟨?_, hle, ?_⟩
      · rcases hfound with heq | ⟨k', hk', heq⟩
        · exact .inl heq
        · exact .inr ⟨k', List.mem_cons_of_mem _ hk', heq⟩
      · intro k' hk'
        rcases List.mem_cons.mp hk' with rfl | hk'
        · exact hle.trans (Nat.le_of_not_lt hlt)
        · exact hall k' hk'

/-- **Eviction removes an author no other is older than**; it removes none only when every last admission is at the
end of time. -/
theorem evictOldest_spec (ord : HashOrder) (entries : StrMap (List Nat)) :
    (evictOldest ord entries = entries ∧ ∀ b ∈ entries, u64Max ≤ lastOf entries b) ∨
    ∃ k ∈ entries, evictOldest ord entries = entries.erase k ∧ ∀ b ∈ entries, lastOf entries k ≤ lastOf entries b := by
  obtain ⟨hfound, -, hall⟩ := oldest_fold entries (entries.keysIn ord) (none, u64Max)
  have hkeys : ∀ b ∈ entries, b ∈ entries.keysIn ord := fun b hb => StrMap.mem_keysIn.mpr hb
  rcases hfound with heq | ⟨k, hk, heq⟩
  · left
    refine ⟨?_, fun b hb => ?_⟩
    · rw [evictOldest, oldestKey, heq]
    · have := hall b (hkeys b hb)
      rwa [heq] at this
  · right
    refine ⟨k, StrMap.mem_keysIn.mp hk, ?_, fun b hb => ?_⟩
    · rw [evictOldest, oldestKey, heq]
    · have := hall b (hkeys b hb)
      rwa [heq] at this

end SpamGuard

/-! ## What the table remembers -/

/-- Losing this admission of an author is no fault of the window: it is outside, or so many others came since. -/
def Forgotten (windowSecs : Nat) (h : List Grant) (author : String) (o now : Nat) : Prop :=
  o < now - windowSecs ∨ maxTrackedAuthors ≤ (rivals h author o now).card

theorem Forgotten.mono {h' : List Grant} {o : Nat} (hf : Forgotten windowSecs h author o now) (hsub : h ⊆ h')
    (hle : now ≤ n) : Forgotten windowSecs h' author o n := by
  rcases hf with hold | hmany
  · exact .inl (by omega)
  · exact .inr (hmany.trans (Finset.card_le_card (rivals_mono hsub le_rfl hle)))

/-- The table and the history agree, up to admissions that are forgotten. -/
structure Remembers (windowSecs : Nat) (entries : StrMap (List Nat)) (h : List Grant) (now : Nat) : Prop where
  split : ∀ a, ∃ old, grantTimes h a = old ++ entries.getD a [] ∧ ∀ o ∈ old, Forgotten windowSecs h a o now
  sorted : ∀ a, (grantTimes h a).Pairwise (· ≤ ·)
  past : ∀ a, ∀ t ∈ grantTimes h a, t ≤ now
  live : ∀ a ∈ entries, entries.getD a [] ≠ []

variable {entries : StrMap (List Nat)}

theorem remembers_empty (windowSecs : Nat) : Remembers windowSecs ∅ [] 0 where
  split a := ⟨[], rfl, fun o ho => by cases ho⟩
  sorted a := List.Pairwise.nil
  past a t ht := by cases ht
  live a ha := absurd ha (AList.notMem_empty a)

namespace Remembers

theorem stamps_sorted (hr : Remembers windowSecs entries h now) (a : String) :
    (entries.getD a []).Pairwise (· ≤ ·) := by
  obtain ⟨old, heq, -⟩ := hr.split a
  have hs := hr.sorted a
  rw [heq] at hs
  exact (List.pairwise_append.mp hs).2.1

theorem mem_grantTimes_of_stamp (hr : Remembers windowSecs entries h now) {a : String} {t : Nat}
    (ht : t ∈ entries.getD a []) : t ∈ grantTimes h a := by
  obtain ⟨old, heq, -⟩ := hr.split a
  rw [heq]
  exact List.mem_append_right _ ht

/-- The last admission of an author in the table is the latest of its stamps. -/
theorem lastOf_spec (hr : Remembers windowSecs entries h now) {a : String} (ha : a ∈ entries) :
    SpamGuard.lastOf entries a ∈ entries.getD a [] ∧ ∀ t ∈ entries.getD a [], t ≤ SpamGuard.lastOf entries a := by
  obtain ⟨init, last, heq⟩ := List.eq_nil_or_concat (entries.getD a []) |>.resolve_left (hr.live a ha)
  have hlast : SpamGuard.lastOf entries a = last := by rw [SpamGuard.lastOf, heq]; simp
  have hs := hr.stamps_sorted a
  rw [hlast, heq, List.concat_eq_append] at *
  refine ⟨by simp, fun t ht => ?_⟩
  rcases List.mem_append.mp ht with hinit | hlast
  · exact (List.pairwise_append.mp hs).2.2 t hinit last (by simp)
  · exact Nat.le_of_eq (List.mem_singleton.mp hlast)

/-- What a purge drops is outside the window. -/
theorem purge_split (windowSecs now : Nat) (stamps : List Nat) :
    ∃ gone, stamps = gone ++ SpamGuard.purge windowSecs now stamps ∧ ∀ t ∈ gone, t < now - windowSecs := by
  refine ⟨stamps.takeWhile fun t => t < now - windowSecs, (List.takeWhile_append_dropWhile).symm, fun t ht => ?_⟩
  simpa using List.mem_takeWhile_imp ht

/-- The late part of a window is what a purge leaves of it, unless an admission in it was evicted. -/
theorem late_eq (hr : Remembers windowSecs entries h now) (hle : now ≤ n) (a : String) {first : Nat}
    (hfirst : n - windowSecs ≤ first)
    (hfew : ∀ o ∈ grantTimes h a, first ≤ o → (rivals h a o n).card < maxTrackedAuthors) :
    (grantTimes h a).filter (fun t => first ≤ t ∧ t ≤ n) =
      (SpamGuard.purge windowSecs n (entries.getD a [])).filter fun t => first ≤ t := by
  obtain ⟨old, heq, hold⟩ := hr.split a
  obtain ⟨gone, hsplit, hgone⟩ := purge_split windowSecs n (entries.getD a [])
  have hold_out : old.filter (fun t => first ≤ t ∧ t ≤ n) = [] := by
    rw [List.filter_eq_nil_iff]
    intro o ho hin
    simp only [decide_eq_true_eq] at hin
    have hmem : o ∈ grantTimes h a := by rw [heq]; exact List.mem_append_left _ ho
    rcases (hold o ho).mono (List.Subset.refl h) hle with hout | hmany
    · omega
    · exact absurd (hfew o hmem hin.1) (Nat.not_lt.mpr hmany)
  have hgone_out : gone.filter (fun t => first ≤ t ∧ t ≤ n) = [] := by
    rw [List.filter_eq_nil_iff]
    intro t ht hin
    simp only [decide_eq_true_eq] at hin
    have := hgone t ht
    omega
  have hkept : (SpamGuard.purge windowSecs n (entries.getD a [])).filter (fun t => first ≤ t ∧ t ≤ n) =
      (SpamGuard.purge windowSecs n (entries.getD a [])).filter fun t => first ≤ t := by
    refine List.filter_congr fun t ht => ?_
    have hpast : t ≤ n :=
      (hr.past a t (hr.mem_grantTimes_of_stamp ((SpamGuard.purge_sublist _ _ _).subset ht))).trans hle
    simp [hpast]
  rw [heq, List.filter_append, hold_out, List.nil_append]
  conv_lhs => rw [hsplit]
  rw [List.filter_append, hgone_out, List.nil_append, hkept]

/-- **The window of the reference is what a purge leaves**, unless an admission in it was evicted. -/
theorem recent_eq (hr : Remembers windowSecs entries h now) (hle : now ≤ n) (a : String)
    (hfew : ∀ o ∈ grantTimes h a, n - windowSecs ≤ o → (rivals h a o n).card < maxTrackedAuthors) :
    recent windowSecs n h a = SpamGuard.purge windowSecs n (entries.getD a []) := by
  rw [recent, hr.late_eq hle a le_rfl hfew, List.filter_eq_self]
  intro t ht
  have := SpamGuard.purge_recent (hr.stamps_sorted a) t ht
  simp only [decide_eq_true_eq]
  omega

/-- A refusal purges one window. -/
theorem refused (hr : Remembers windowSecs entries h now) (hle : now ≤ n) (a : String) :
    let window := SpamGuard.purge windowSecs n (entries.getD a [])
    Remembers windowSecs (if window = [] then entries.erase a else entries.insert a window) h n := by
  intro window
  have hself : StrMap.getD (if window = [] then entries.erase a else entries.insert a window) a [] = window := by
    by_cases hw : window = []
    · rw [if_pos hw, StrMap.getD_erase_self, hw]
    · rw [if_neg hw, StrMap.getD_insert_self]
  have hother : ∀ b, b ≠ a →
      StrMap.getD (if window = [] then entries.erase a else entries.insert a window) b [] = entries.getD b [] := by
    intro b hb
    by_cases hw : window = []
    · rw [if_pos hw, StrMap.getD_erase_ne hb]
    · rw [if_neg hw, StrMap.getD_insert_ne hb]
  refine ⟨fun b => ?_, hr.sorted, fun b t ht => (hr.past b t ht).trans hle, fun b hb => ?_⟩
  · obtain ⟨old, heq, hold⟩ := hr.split b
    by_cases hb : b = a
    · subst hb
      obtain ⟨gone, hsplit, hgone⟩ := purge_split windowSecs n (entries.getD b [])
      refine ⟨old ++ gone, ?_, fun o ho => ?_⟩
      · rw [hself, heq, List.append_assoc, ← hsplit]
      · rcases List.mem_append.mp ho with ho | ho
        · exact (hold o ho).mono (List.Subset.refl h) hle
        · exact .inl (hgone o ho)
    · rw [hother b hb]
      exact ⟨old, heq, fun o ho => (hold o ho).mono (List.Subset.refl h) hle⟩
  · by_cases hw : window = []
    · rw [if_pos hw] at hb ⊢
      obtain ⟨hne, hmem⟩ := AList.mem_erase.mp hb
      rw [StrMap.getD_erase_ne hne]
      exact hr.live b hmem
    · rw [if_neg hw] at hb ⊢
      by_cases hba : b = a
      · subst hba
        rw [StrMap.getD_insert_self]
        exact hw
      · rw [StrMap.getD_insert_ne hba]
        exact hr.live b (((AList.mem_insert _).mp hb).resolve_left hba)

/-- An admission purges one window and appends to it. -/
theorem granted (hr : Remembers windowSecs entries h now) (hle : now ≤ n) (a : String) :
    Remembers windowSecs (entries.insert a (SpamGuard.purge windowSecs n (entries.getD a []) ++ [n]))
      (h ++ [⟨a, n⟩]) n := by
  have hgrants : ∀ b, grantTimes (h ++ [⟨a, n⟩]) b = if b = a then grantTimes h b ++ [n] else grantTimes h b := by
    intro b
    rw [grantTimes_append]
    by_cases hb : b = a
    · subst hb
      simp [grantTimes]
    · simp [grantTimes, hb, Ne.symm hb]
  have hsub : h ⊆ h ++ [⟨a, n⟩] := List.subset_append_left _ _
  refine ⟨fun b => ?_, fun b => ?_, fun b t ht => ?_, fun b hb => ?_⟩
  · obtain ⟨old, heq, hold⟩ := hr.split b
    rw [hgrants]
    by_cases hb : b = a
    · subst hb
      obtain ⟨gone, hsplit, hgone⟩ := purge_split windowSecs n (entries.getD b [])
      refine ⟨old ++ gone, ?_, fun o ho => ?_⟩
      · rw [if_pos rfl, StrMap.getD_insert_self, heq]
        conv_lhs => rw [hsplit]
        simp only [List.append_assoc]
      · rcases List.mem_append.mp ho with ho | ho
        · exact (hold o ho).mono hsub hle
        · exact .inl (hgone o ho)
    · rw [if_neg hb, StrMap.getD_insert_ne hb]
      exact ⟨old, heq, fun o ho => (hold o ho).mono hsub hle⟩
  · rw [hgrants]
    split
    · refine List.pairwise_append.mpr ⟨hr.sorted b, List.pairwise_singleton _ _, fun t ht s hs => ?_⟩
      rw [List.mem_singleton.mp hs]
      exact (hr.past b t ht).trans hle
    · exact hr.sorted b
  · rw [hgrants] at ht
    split at ht
    · rcases List.mem_append.mp ht with ht | ht
      · exact (hr.past b t ht).trans hle
      · exact Nat.le_of_eq (List.mem_singleton.mp ht)
    · exact (hr.past b t ht).trans hle
  · by_cases hba : b = a
    · subst hba
      rw [StrMap.getD_insert_self]
      simp
    · rw [StrMap.getD_insert_ne hba]
      exact hr.live b (((AList.mem_insert _).mp hb).resolve_left hba)

/-- **Evicting the author with the oldest last admission from a table over the cap forgets nothing but what the cap
excuses**: every other author in the table was admitted since. -/
theorem evicted (hr : Remembers windowSecs entries h now) (hfull : maxTrackedAuthors < entries.keys.length) {k : String}
    (hk : k ∈ entries) (hmin : ∀ b ∈ entries, SpamGuard.lastOf entries k ≤ SpamGuard.lastOf entries b) :
    Remembers windowSecs (entries.erase k) h now := by
  refine ⟨fun b => ?_, hr.sorted, hr.past, fun b hb => ?_⟩
  · obtain ⟨old, heq, hold⟩ := hr.split b
    by_cases hb : b = k
    · subst hb
      refine ⟨grantTimes h b, by rw [StrMap.getD_erase_self, List.append_nil], fun o ho => ?_⟩
      rw [heq] at ho
      rcases List.mem_append.mp ho with ho | ho
      · exact hold o ho
      · right
        have hle := (hr.lastOf_spec hk).2 o ho
        have hsub : entries.keys.toFinset.erase b ⊆ rivals h b o now := by
          intro c hc
          obtain ⟨hne, hc⟩ := Finset.mem_erase.mp hc
          have hc : c ∈ entries := AList.mem_keys.mpr (List.mem_toFinset.mp hc)
          have hlast := hr.mem_grantTimes_of_stamp (hr.lastOf_spec hc).1
          exact mem_rivals.mpr ⟨hne, _, hlast, hle.trans (hmin c hc), hr.past c _ hlast⟩
        have hcard := Finset.card_le_card hsub
        rw [Finset.card_erase_of_mem (List.mem_toFinset.mpr (AList.mem_keys.mp hk)),
          List.toFinset_card_of_nodup entries.keys_nodup] at hcard
        omega
    · rw [StrMap.getD_erase_ne hb]
      exact ⟨old, heq, hold⟩
  · obtain ⟨hne, hmem⟩ := AList.mem_erase.mp hb
    rw [StrMap.getD_erase_ne hne]
    exact hr.live b hmem

/-- Time passes. -/
theorem later (hr : Remembers windowSecs entries h now) (hle : now ≤ n) : Remembers windowSecs entries h n :=
  ⟨fun a => (hr.split a).imp fun _ hold =>
    ⟨hold.1, fun o ho => (hold.2 o ho).mono (List.Subset.refl h) hle⟩, hr.sorted,
    fun a t ht => (hr.past a t ht).trans hle, hr.live⟩

/-- **One call keeps what the table remembers.** -/
theorem call {now : Nat} (hr : Remembers g.windowSecs g.entries h now) (hle : now ≤ n) (ord : HashOrder)
    (author : String) (budget : Nat) :
    let r := g.admitWithBudget ord author n budget
    Remembers g.windowSecs r.2.entries (if r.1 then h ++ [⟨author, n⟩] else h) n := by
  intro r
  by_cases hroom : (SpamGuard.purge g.windowSecs n (g.stamps author)).length < budget
  · have hr' := hr.granted hle author
    have heq : r = (true, { g with
        entries :=
          let entries := g.entries.insert author (SpamGuard.purge g.windowSecs n (g.stamps author) ++ [n])
          if maxTrackedAuthors < entries.keys.length then SpamGuard.evictOldest ord entries else entries }) := by
      simp only [r, SpamGuard.admitWithBudget]
      rw [if_neg (by omega), if_neg (by omega)]
    rw [heq]
    simp only [if_true]
    split
    · next hfull =>
      rcases SpamGuard.evictOldest_spec ord
        (g.entries.insert author (SpamGuard.purge g.windowSecs n (g.stamps author) ++ [n])) with
        ⟨hsame, -⟩ | ⟨k, hk, herase, hmin⟩
      · rw [hsame]
        exact hr'
      · rw [herase]
        exact hr'.evicted hfull hk hmin
    · exact hr'
  · have hno : r.1 = false := by
      rw [← Bool.not_eq_true, SpamGuard.admit_iff]
      exact hroom
    rw [hno]
    simp only [r, SpamGuard.admitWithBudget, Bool.false_eq_true, if_false]
    by_cases h0 : budget = 0
    · rw [if_pos h0]
      exact hr.later hle
    · rw [if_neg h0, if_pos (Nat.le_of_not_lt hroom)]
      exact hr.refused hle author

end Remembers

/-! ## The size of the table -/

/-- **The table never exceeds the cap** before the end of time. -/
theorem tracked_call {now : Nat} (hr : Remembers g.windowSecs g.entries h now) (hle : now ≤ n) (hn : n < u64Max)
    (hcap : g.entries.keys.length ≤ maxTrackedAuthors) (ord : HashOrder) (author : String) (budget : Nat) :
    (g.admitWithBudget ord author n budget).2.entries.keys.length ≤ maxTrackedAuthors := by
  unfold SpamGuard.admitWithBudget
  by_cases h0 : budget = 0
  · rw [if_pos h0]
    exact hcap
  rw [if_neg h0]
  dsimp only
  by_cases hfull : budget ≤ (SpamGuard.purge g.windowSecs n (g.stamps author)).length
  · rw [if_pos hfull]
    dsimp only
    have hne : SpamGuard.purge g.windowSecs n (g.stamps author) ≠ [] := by
      intro hnil
      rw [hnil] at hfull
      exact h0 (Nat.le_zero.mp hfull)
    rw [if_neg hne, AList.keys_insert, List.length_cons]
    have hmem : author ∈ g.entries := by
      by_contra hno
      have hnone : g.stamps author = [] := StrMap.getD_of_none (AList.lookup_eq_none.mpr hno)
      rw [hnone] at hne
      exact hne rfl
    have hkeys := AList.mem_keys.mp hmem
    rw [List.length_erase_of_mem hkeys]
    have := List.length_pos_of_mem hkeys
    omega
  · rw [if_neg hfull]
    dsimp only
    split
    · next hover =>
      have hr' := hr.granted hle author
      have hgrow : (g.entries.insert author (SpamGuard.purge g.windowSecs n (g.stamps author) ++ [n])).keys.length ≤
          maxTrackedAuthors + 1 := by
        rw [AList.keys_insert, List.length_cons]
        have := List.length_erase_le (a := author) (l := g.entries.keys)
        omega
      rcases SpamGuard.evictOldest_spec ord
        (g.entries.insert author (SpamGuard.purge g.windowSecs n (g.stamps author) ++ [n])) with
        ⟨-, hend⟩ | ⟨k, hk, herase, -⟩
      · have hself : author ∈ g.entries.insert author (SpamGuard.purge g.windowSecs n (g.stamps author) ++ [n]) :=
          (AList.mem_insert _).mpr (.inl rfl)
        have hlast := hr'.past author _ (hr'.mem_grantTimes_of_stamp (hr'.lastOf_spec hself).1)
        exact absurd (hend author hself) (Nat.not_le.mpr (hlast.trans_lt hn))
      · rw [herase, AList.keys_erase, List.length_erase_of_mem (AList.mem_keys.mp hk)]
        omega
    · next hroom => exact Nat.le_of_not_lt hroom

/-! ## Runs -/

namespace SpamLog

variable {l : SpamLog} {x : HashOrder × AdmitCall} {xs : List (HashOrder × AdmitCall)}

theorem admit_windowSecs (l : SpamLog) (x : HashOrder × AdmitCall) :
    (l.call x).2.guard.windowSecs = l.guard.windowSecs := SpamGuard.windowSecs_admit

theorem admit_budget (l : SpamLog) (x : HashOrder × AdmitCall) : (l.call x).2.guard.budget = l.guard.budget := by
  unfold call SpamGuard.admitWithBudget
  split
  · rfl
  · dsimp only
    split <;> rfl

/-- What the guard knows of its history at a time. -/
def Tracks (l : SpamLog) (now : Nat) : Prop := Remembers l.guard.windowSecs l.guard.entries l.granted now

theorem tracks_start (windowSecs budget : Nat) : (start windowSecs budget).Tracks 0 := remembers_empty windowSecs

theorem Tracks.call (ht : l.Tracks now) (hle : now ≤ x.2.now) : (l.call x).2.Tracks x.2.now := by
  have hstep := Remembers.call ht hle x.1 x.2.author (x.2.budget.getD l.guard.budget)
  rw [Tracks, admit_windowSecs]
  exact hstep

/-- **One call answers as the reference**, if the authors in its window, with the caller, fit the table. -/
theorem admit_eq_allows (ht : l.Tracks now) (hle : now ≤ x.2.now)
    (hfew : (insert x.2.author (active l.guard.windowSecs x.2.now l.granted)).card ≤ maxTrackedAuthors) :
    (l.call x).1 = Reference.allows l.guard.windowSecs l.guard.budget l.granted x.2 := by
  have hrecent : recent l.guard.windowSecs x.2.now l.granted x.2.author =
      SpamGuard.purge l.guard.windowSecs x.2.now (l.guard.stamps x.2.author) := by
    refine Remembers.recent_eq ht hle x.2.author fun o ho hin => ?_
    have hsub : rivals l.granted x.2.author o x.2.now ⊆
        (insert x.2.author (active l.guard.windowSecs x.2.now l.granted)).erase x.2.author := by
      intro b hb
      obtain ⟨hne, t, hmem, h₁, h₂⟩ := mem_rivals.mp hb
      exact Finset.mem_erase.mpr ⟨hne, Finset.mem_insert_of_mem (mem_active.mpr ⟨t, hmem, hin.trans h₁, h₂⟩)⟩
    have hcard := Finset.card_le_card hsub
    rw [Finset.card_erase_of_mem (Finset.mem_insert_self _ _)] at hcard
    have : 0 < maxTrackedAuthors := by decide
    omega
  have hiff : (l.call x).1 = true ↔ (SpamGuard.purge l.guard.windowSecs x.2.now (l.guard.stamps x.2.author)).length <
      x.2.budget.getD l.guard.budget := SpamGuard.admit_iff
  rw [← hrecent] at hiff
  rw [Bool.eq_iff_iff, Reference.allows, decide_eq_true_eq]
  exact hiff

theorem granted_call (hok : (l.call x).1 = Reference.allows l.guard.windowSecs l.guard.budget l.granted x.2) :
    (l.call x).2.granted = Reference.record l.guard.windowSecs l.guard.budget l.granted x.2 := by
  rw [Reference.record, ← hok]
  rfl

/-- **A run answers as the reference.** -/
theorem answers_eq : ∀ (xs : List (HashOrder × AdmitCall)) {l : SpamLog} {now : Nat}, l.Tracks now →
    (∀ x ∈ xs, now ≤ x.2.now) → xs.Pairwise (fun x y => x.2.now ≤ y.2.now) →
    Reference.Uncrowded l.guard.windowSecs l.guard.budget l.granted (xs.map Prod.snd) →
    l.answers xs = Reference.answers l.guard.windowSecs l.guard.budget l.granted (xs.map Prod.snd)
  | [], _, _, _, _, _, _ => rfl
  | x :: xs, l, now, ht, hle, hmono, hfew => by
    obtain ⟨hx, hmono⟩ := List.pairwise_cons.mp hmono
    have hnow := hle x List.mem_cons_self
    have hok := admit_eq_allows ht hnow hfew.1
    have hrest := hfew.2
    rw [← granted_call hok] at hrest
    have ih := answers_eq xs (ht.call hnow) hx hmono (by rw [admit_windowSecs, admit_budget]; exact hrest)
    rw [List.map_cons, answers, Reference.answers, ih, hok, admit_windowSecs, admit_budget, granted_call hok]

/-- The hypothesis on a run of the guard is the one on the reference. -/
theorem uncrowded_reference : ∀ (xs : List (HashOrder × AdmitCall)) {l : SpamLog} {now : Nat}, l.Tracks now →
    (∀ x ∈ xs, now ≤ x.2.now) → xs.Pairwise (fun x y => x.2.now ≤ y.2.now) → l.Uncrowded xs →
    Reference.Uncrowded l.guard.windowSecs l.guard.budget l.granted (xs.map Prod.snd)
  | [], _, _, _, _, _, _ => trivial
  | x :: xs, l, now, ht, hle, hmono, hfew => by
    obtain ⟨hx, hmono⟩ := List.pairwise_cons.mp hmono
    have hnow := hle x List.mem_cons_self
    have ih := uncrowded_reference xs (ht.call hnow) hx hmono hfew.2
    rw [admit_windowSecs, admit_budget, granted_call (admit_eq_allows ht hnow hfew.1)] at ih
    exact ⟨hfew.1, ih⟩

theorem tracked_after : ∀ (xs : List (HashOrder × AdmitCall)) {l : SpamLog} {now : Nat}, l.Tracks now →
    (∀ x ∈ xs, now ≤ x.2.now) → xs.Pairwise (fun x y => x.2.now ≤ y.2.now) → (∀ x ∈ xs, x.2.now < u64Max) →
    l.guard.entries.keys.length ≤ maxTrackedAuthors →
    (l.after xs).guard.entries.keys.length ≤ maxTrackedAuthors
  | [], _, _, _, _, _, _, hcap => hcap
  | x :: xs, l, now, ht, hle, hmono, hlt, hcap => by
    obtain ⟨hx, hmono⟩ := List.pairwise_cons.mp hmono
    have hnow := hle x List.mem_cons_self
    exact tracked_after xs (ht.call hnow) hx hmono (fun y hy => hlt y (List.mem_cons_of_mem _ hy))
      (tracked_call ht hnow (hlt x List.mem_cons_self) hcap _ _ _)

/-! ### The cap -/

/-- No author exceeds the budget in a window, unless as many others as the table holds are admitted in it. -/
def Capped (l : SpamLog) : Prop := ∀ author first,
  (rivals l.granted author first (first + l.guard.windowSecs)).card < maxTrackedAuthors →
  ((grantTimes l.granted author).filter fun t => first ≤ t ∧ t ≤ first + l.guard.windowSecs).length ≤ l.guard.budget

/-- One call keeps the cap. -/
theorem Capped.call (hc : l.Capped) (ht : l.Tracks now) (hle : now ≤ x.2.now)
    (hbudget : x.2.budget.getD l.guard.budget ≤ l.guard.budget) : (l.call x).2.Capped := by
  intro a first hfew
  rw [admit_windowSecs] at hfew ⊢
  rw [admit_budget]
  cases hok : (l.call x).1 with
  | false =>
    have hsame : (l.call x).2.granted = l.granted := by
      have : (l.call x).2.granted = if (l.call x).1 then l.granted ++ [⟨x.2.author, x.2.now⟩] else l.granted := rfl
      rw [this, hok]
      rfl
    rw [hsame] at hfew ⊢
    exact hc a first hfew
  | true =>
    have hgrant : (l.call x).2.granted = l.granted ++ [⟨x.2.author, x.2.now⟩] := by
      have : (l.call x).2.granted = if (l.call x).1 then l.granted ++ [⟨x.2.author, x.2.now⟩] else l.granted := rfl
      rw [this, hok]
      rfl
    rw [hgrant] at hfew ⊢
    have hold := hc a first ((Finset.card_le_card (rivals_mono (List.subset_append_left _ _) le_rfl le_rfl)).trans_lt
      hfew)
    rw [grantTimes_append, List.filter_append, List.length_append]
    by_cases ha : x.2.author = a
    swap
    · have hnone : grantTimes [⟨x.2.author, x.2.now⟩] a = [] := by simp [grantTimes, ha]
      rw [hnone]
      exact hold
    subst ha
    have hone : grantTimes [⟨x.2.author, x.2.now⟩] x.2.author = [x.2.now] := by simp [grantTimes]
    rw [hone]
    by_cases hin : first ≤ x.2.now ∧ x.2.now ≤ first + l.guard.windowSecs
    swap
    · have hout : [x.2.now].filter (fun t => first ≤ t ∧ t ≤ first + l.guard.windowSecs) = [] := by
        simpa using hin
      rw [hout]
      exact hold
    -- the admissions of the window that the table may still hold are those it has
    have hlate := Remembers.late_eq ht hle x.2.author (show x.2.now - l.guard.windowSecs ≤ first by omega)
      (fun o _ hfo => (Finset.card_le_card (rivals_mono (List.subset_append_left _ _) hfo hin.2)).trans_lt hfew)
    have hwindow : (grantTimes l.granted x.2.author).filter (fun t => first ≤ t ∧ t ≤ first + l.guard.windowSecs) =
        (grantTimes l.granted x.2.author).filter fun t => first ≤ t ∧ t ≤ x.2.now := by
      refine List.filter_congr fun t hmem => ?_
      have hpast := (Remembers.past ht x.2.author t hmem).trans hle
      have hpast' := hpast.trans hin.2
      simp only [hpast, hpast', and_true]
    have hroom : (SpamGuard.purge l.guard.windowSecs x.2.now (l.guard.stamps x.2.author)).length <
        x.2.budget.getD l.guard.budget := SpamGuard.admit_iff.mp hok
    have hlen : ((SpamGuard.purge l.guard.windowSecs x.2.now (l.guard.stamps x.2.author)).filter
        fun t => first ≤ t).length ≤ _ := List.length_filter_le _ _
    have hself : ([x.2.now].filter fun t => first ≤ t ∧ t ≤ first + l.guard.windowSecs).length ≤ 1 :=
      List.length_filter_le _ _
    rw [hwindow, hlate]
    simp only [SpamGuard.stamps] at hroom hlen
    omega

theorem Capped.after : ∀ (xs : List (HashOrder × AdmitCall)) {l : SpamLog} {now : Nat}, l.Capped → l.Tracks now →
    (∀ x ∈ xs, now ≤ x.2.now) → xs.Pairwise (fun x y => x.2.now ≤ y.2.now) →
    (∀ x ∈ xs, x.2.budget.getD l.guard.budget ≤ l.guard.budget) → (l.after xs).Capped
  | [], _, _, hc, _, _, _, _ => hc
  | x :: xs, l, now, hc, ht, hle, hmono, hbudget => by
    obtain ⟨hx, hmono⟩ := List.pairwise_cons.mp hmono
    have hnow := hle x List.mem_cons_self
    refine Capped.after xs (hc.call ht hnow (hbudget x List.mem_cons_self)) (ht.call hnow) hx hmono fun y hy => ?_
    rw [admit_budget]
    exact hbudget y (List.mem_cons_of_mem _ hy)

theorem after_guard (windowSecs budget : Nat) (xs : List (HashOrder × AdmitCall)) :
    ((start windowSecs budget).after xs).guard.windowSecs = windowSecs ∧
      ((start windowSecs budget).after xs).guard.budget = budget := by
  induction xs using List.reverseRecOn with
  | nil => exact ⟨rfl, rfl⟩
  | append_singleton xs x ih =>
    rw [after, List.foldl_append, List.foldl_cons, List.foldl_nil, admit_windowSecs, admit_budget]
    exact ih

end SpamLog

/-! ## The reference without its refusals -/

namespace Reference

/-- **A refusal changes no later answer.** -/
theorem answers_eraseIdx : ∀ (cs : List AdmitCall) (h : List Grant) (i : Nat),
    (answers windowSecs budget h cs)[i]? = some false →
    answers windowSecs budget h (cs.eraseIdx i) = (answers windowSecs budget h cs).eraseIdx i
  | [], _, _, hi => by cases hi
  | c :: cs, h, 0, hi => by
    have hno : allows windowSecs budget h c = false := Option.some.inj hi
    rw [List.eraseIdx_cons_zero, answers, List.eraseIdx_cons_zero, record, hno]
    rfl
  | c :: cs, h, i + 1, hi => by
    rw [List.eraseIdx_cons_succ, answers, answers, List.eraseIdx_cons_succ, answers_eraseIdx cs _ i hi]

theorem uncrowded_eraseIdx : ∀ (cs : List AdmitCall) (h : List Grant) (i : Nat),
    (answers windowSecs budget h cs)[i]? = some false → Uncrowded windowSecs budget h cs →
    Uncrowded windowSecs budget h (cs.eraseIdx i)
  | [], _, _, hi, _ => by cases hi
  | c :: cs, h, 0, hi, hfew => by
    have hno : allows windowSecs budget h c = false := Option.some.inj hi
    have hrest := hfew.2
    rw [record, hno] at hrest
    exact hrest
  | c :: cs, h, i + 1, hi, hfew => ⟨hfew.1, uncrowded_eraseIdx cs _ i hi hfew.2⟩

end Reference

/-- **The guard refines the reference window.** In every run in order of time, whatever the budgets and the iteration
orders of the table, in which the authors admitted in the window of each call, with the caller, fit the table: the
answers are those of the reference; without a refused call the others are answered alike; and the table stays within
its cap. -/
theorem spamGuard_refines (windowSecs budget : Nat) (calls : List (HashOrder × AdmitCall))
    (hmono : calls.Pairwise fun x y => x.2.now ≤ y.2.now) (hlt : ∀ x ∈ calls, x.2.now < u64Max)
    (hfew : (SpamLog.start windowSecs budget).Uncrowded calls) :
    (SpamLog.start windowSecs budget).answers calls =
      Reference.answers windowSecs budget [] (calls.map Prod.snd) ∧
    (∀ i calls', ((SpamLog.start windowSecs budget).answers calls)[i]? = some false →
      calls'.map Prod.snd = (calls.map Prod.snd).eraseIdx i →
      (SpamLog.start windowSecs budget).answers calls' =
        ((SpamLog.start windowSecs budget).answers calls).eraseIdx i) ∧
    ∀ past, past <+: calls →
      ((SpamLog.start windowSecs budget).after past).guard.entries.keys.length ≤ maxTrackedAuthors := by
  have ht := SpamLog.tracks_start windowSecs budget
  have hfew' := SpamLog.uncrowded_reference calls ht (fun _ _ => Nat.zero_le _) hmono hfew
  have hanswers := SpamLog.answers_eq calls ht (fun _ _ => Nat.zero_le _) hmono hfew'
  refine ⟨hanswers, fun i calls' hi hcalls' => ?_, fun past hpast => ?_⟩
  · have hmono' : calls'.Pairwise fun x y => x.2.now ≤ y.2.now := by
      have hp : (calls.map Prod.snd).Pairwise fun c d => c.now ≤ d.now := List.pairwise_map.mpr hmono
      have hp' : (calls'.map Prod.snd).Pairwise fun c d => c.now ≤ d.now := by
        rw [hcalls']
        exact hp.sublist (List.eraseIdx_sublist _ _)
      have hpairs := List.pairwise_map.mp hp'
      exact hpairs
    rw [hanswers] at hi ⊢
    rw [← Reference.answers_eraseIdx _ _ _ hi, ← hcalls']
    refine SpamLog.answers_eq calls' ht (fun _ _ => Nat.zero_le _) hmono' ?_
    rw [hcalls']
    exact Reference.uncrowded_eraseIdx _ _ _ hi hfew'
  · obtain ⟨rest, rfl⟩ := hpast
    exact SpamLog.tracked_after past ht (fun _ _ => Nat.zero_le _) (List.pairwise_append.mp hmono).1
      (fun x hx => hlt x (List.mem_append_left _ hx)) (Nat.zero_le _)

/-- A call with a larger budget of its own between two of the guard's. -/
def extended : List (HashOrder × AdmitCall) :=
  [(.sorted, ⟨"alice", 0, none⟩), (.sorted, ⟨"alice", 30, none⟩), (.sorted, ⟨"alice", 60, some 3⟩),
    (.sorted, ⟨"alice", 61, none⟩)]

theorem extended_answers : (SpamLog.start 60 1).answers extended = [true, false, true, false] := by
  have hfew : (SpamLog.start 60 1).Uncrowded extended := by
    refine ⟨?_, ?_, ?_, ?_, trivial⟩ <;> decide +kernel
  exact (spamGuard_refines 60 1 extended (by decide) (by decide) hfew).1.trans (by decide +kernel)

/-- **Exceeding the budget in a window takes as many other authors as the table holds**, all admitted in that window,
in every run in order of time whose calls ask for no more than the budget of the guard. -/
theorem spam_cap (windowSecs budget : Nat) (calls : List (HashOrder × AdmitCall))
    (hmono : calls.Pairwise fun x y => x.2.now ≤ y.2.now) (hbudget : ∀ x ∈ calls, x.2.budget.getD budget ≤ budget)
    (author : String) (first : Nat) :
    let h := ((SpamLog.start windowSecs budget).after calls).granted
    (rivals h author first (first + windowSecs)).card < maxTrackedAuthors →
      ((grantTimes h author).filter fun t => first ≤ t ∧ t ≤ first + windowSecs).length ≤ budget := by
  intro h hfew
  have hstart : (SpamLog.start windowSecs budget).Capped := fun a f _ => Nat.zero_le _
  have hc := hstart.after calls (SpamLog.tracks_start windowSecs budget) (fun _ _ => Nat.zero_le _) hmono hbudget
  obtain ⟨hw, hb⟩ := SpamLog.after_guard windowSecs budget calls
  have hcap := hc author first
  rw [hw, hb] at hcap
  exact hcap hfew

theorem spam_cap_extended :
    ((grantTimes ((SpamLog.start 60 3).after extended).granted "alice").filter
      fun t => 0 ≤ t ∧ t ≤ 0 + 60).length ≤ 3 :=
  spam_cap 60 3 extended (by decide) (by decide) "alice" 0 (by decide +kernel)

/-! ### A flood of fresh keys -/

/-- The keys of the flood. -/
def sybil (i : Nat) : String := String.ofList (List.replicate i 's')

/-- An author spends its budget, `maxTrackedAuthors` fresh keys are admitted, and it comes back. -/
def spend : List (HashOrder × AdmitCall) := List.replicate spamBudgetPerWindow (.sorted, ⟨"victim", 0, none⟩)

def flood (n : Nat) : List (HashOrder × AdmitCall) := (List.range n).map fun i => (.sorted, ⟨sybil i, 1, none⟩)

def flooding : List (HashOrder × AdmitCall) :=
  spend ++ flood maxTrackedAuthors ++ [(.sorted, ⟨"victim", 2, none⟩)]

theorem sybil_inj {i j : Nat} (h : sybil i = sybil j) : i = j := by
  have hlen := congrArg (fun s => s.toList.length) h
  simpa [sybil] using hlen

theorem sybil_ne_victim (i : Nat) : sybil i ≠ "victim" := by
  intro h
  have hmem : 'v' ∈ (sybil i).toList := by rw [h]; decide
  rw [sybil, String.toList_ofList] at hmem
  exact absurd (List.eq_of_mem_replicate hmem) (by decide)

/-- The table while the flood fills it. -/
structure Flooded (l : SpamLog) (k : Nat) : Prop where
  windowSecs : l.guard.windowSecs = spamWindowSecs
  budget : l.guard.budget = spamBudgetPerWindow
  keys : l.guard.entries.keys.length = k + 1
  victim : "victim" ∈ l.guard.entries
  spent : l.guard.stamps "victim" = List.replicate spamBudgetPerWindow 0
  others : ∀ b ∈ l.guard.entries, b ≠ "victim" → l.guard.stamps b = [1]
  fresh : ∀ i, k ≤ i → sybil i ∉ l.guard.entries
  granted : grantTimes l.granted "victim" = List.replicate spamBudgetPerWindow 0

/-- The table of the guard once a fresh key is admitted, before any eviction. -/
theorem Flooded.call {l : SpamLog} {k : Nat} (hf : Flooded l k) :
    let entries := l.guard.entries.insert (sybil k) [1]
    l.call (.sorted, ⟨sybil k, 1, none⟩) = (true,
      ⟨{ l.guard with
          entries :=
            if maxTrackedAuthors < entries.keys.length then SpamGuard.evictOldest .sorted entries else entries },
        l.granted ++ [⟨sybil k, 1⟩]⟩) ∧
      entries.keys.length = k + 2 ∧ (∀ b ∈ entries, b ≠ "victim" → StrMap.getD entries b [] = [1]) ∧
      grantTimes (l.granted ++ [⟨sybil k, 1⟩]) "victim" = List.replicate spamBudgetPerWindow 0 := by
  intro entries
  have hnew := hf.fresh k le_rfl
  have hstamps : l.guard.stamps (sybil k) = [] := StrMap.getD_of_none (AList.lookup_eq_none.mpr hnew)
  refine ⟨?_, ?_, fun b hb hne => ?_, ?_⟩
  · simp only [SpamLog.call, SpamGuard.admitWithBudget, hstamps, Option.getD_none, hf.budget]
    rfl
  · rw [AList.keys_insert, List.length_cons, List.erase_of_not_mem fun h => hnew (AList.mem_keys.mpr h), hf.keys]
  · by_cases hbk : b = sybil k
    · rw [hbk, StrMap.getD_insert_self]
    · rw [StrMap.getD_insert_ne hbk]
      exact hf.others b (((AList.mem_insert _).mp hb).resolve_left hbk) hne
  · have hnone : grantTimes [⟨sybil k, 1⟩] "victim" = [] := by simp [grantTimes, sybil_ne_victim]
    rw [grantTimes_append, hnone, List.append_nil, hf.granted]

theorem Flooded.next {l : SpamLog} {k : Nat} (hf : Flooded l k) (hk : k + 2 ≤ maxTrackedAuthors) :
    Flooded (l.call (.sorted, ⟨sybil k, 1, none⟩)).2 (k + 1) := by
  obtain ⟨hcall, hkeys, hothers, hgranted⟩ := hf.call
  have hv : ("victim" : String) ≠ sybil k := (sybil_ne_victim k).symm
  rw [hcall, if_neg (by rw [hkeys]; omega)]
  refine ⟨hf.windowSecs, hf.budget, hkeys, (AList.mem_insert _).mpr (.inr hf.victim), ?_, hothers, fun i hi hmem => ?_,
    hgranted⟩
  · exact (StrMap.getD_insert_ne hv).trans hf.spent
  · rcases (AList.mem_insert _).mp hmem with heq | hold
    · have := sybil_inj heq
      omega
    · exact hf.fresh i (by omega) hold

/-- The last fresh key evicts the author that came first. -/
theorem Flooded.forgets {l : SpamLog} {k : Nat} (hf : Flooded l k) (hk : k + 2 = maxTrackedAuthors + 1) :
    let m := (l.call (.sorted, ⟨sybil k, 1, none⟩)).2
    m.guard.stamps "victim" = [] ∧ m.guard.budget = spamBudgetPerWindow ∧
      grantTimes m.granted "victim" = List.replicate spamBudgetPerWindow 0 := by
  intro m
  obtain ⟨hcall, hkeys, hothers, hgranted⟩ := hf.call
  have hm : m = _ := congrArg Prod.snd hcall
  rw [if_pos (by rw [hkeys]; omega)] at hm
  have hv : ("victim" : String) ≠ sybil k := (sybil_ne_victim k).symm
  have hmem : "victim" ∈ l.guard.entries.insert (sybil k) [1] := (AList.mem_insert _).mpr (.inr hf.victim)
  have hlast : SpamGuard.lastOf (l.guard.entries.insert (sybil k) [1]) "victim" = 0 := by
    have hspent := hf.spent
    rw [SpamGuard.stamps] at hspent
    rw [SpamGuard.lastOf, StrMap.getD_insert_ne hv, hspent]
    decide
  rw [hm]
  refine ⟨?_, hf.budget, hgranted⟩
  rcases SpamGuard.evictOldest_spec .sorted (l.guard.entries.insert (sybil k) [1]) with
    ⟨-, hend⟩ | ⟨b, hb, herase, hmin⟩
  · have hpos := hend "victim" hmem
    rw [hlast] at hpos
    exact absurd hpos (by decide)
  · have hb0 := hmin "victim" hmem
    rw [hlast] at hb0
    by_cases hbv : b = "victim"
    · rw [SpamGuard.stamps]
      dsimp only
      rw [herase, hbv, StrMap.getD_erase_self]
    · rw [SpamGuard.lastOf, hothers b hb hbv] at hb0
      exact absurd hb0 (by decide)

theorem flooded_spend : Flooded ((SpamLog.start spamWindowSecs spamBudgetPerWindow).after spend) 0 := by
  have hentries : ((SpamLog.start spamWindowSecs spamBudgetPerWindow).after spend).guard.entries =
      AList.singleton "victim" (List.replicate spamBudgetPerWindow 0) := AList.ext (by decide +kernel)
  have hmem : ∀ b, b ∈ ((SpamLog.start spamWindowSecs spamBudgetPerWindow).after spend).guard.entries →
      b = "victim" := by
    intro b hb
    rw [hentries, AList.mem_keys, AList.keys_singleton] at hb
    exact List.mem_singleton.mp hb
  refine ⟨by decide +kernel, by decide +kernel, by decide +kernel, by rw [hentries]; decide +kernel,
    by decide +kernel, fun b hb hne => absurd (hmem b hb) hne, fun i _ hi => sybil_ne_victim i (hmem _ hi),
    by decide +kernel⟩

theorem after_append (l : SpamLog) (xs ys : List (HashOrder × AdmitCall)) :
    l.after (xs ++ ys) = (l.after xs).after ys := List.foldl_append

theorem after_flood (k : Nat) : (SpamLog.start spamWindowSecs spamBudgetPerWindow).after (spend ++ flood (k + 1)) =
    (((SpamLog.start spamWindowSecs spamBudgetPerWindow).after (spend ++ flood k)).call
      (.sorted, ⟨sybil k, 1, none⟩)).2 := by
  have hsucc : flood (k + 1) = flood k ++ [(.sorted, ⟨sybil k, 1, none⟩)] := by
    rw [flood, List.range_succ, List.map_append]
    rfl
  rw [hsucc, ← List.append_assoc, after_append]
  rfl

theorem flooded_flood : ∀ k, k + 1 ≤ maxTrackedAuthors →
    Flooded ((SpamLog.start spamWindowSecs spamBudgetPerWindow).after (spend ++ flood k)) k
  | 0, _ => by
    rw [flood, List.range_zero, List.map_nil, List.append_nil]
    exact flooded_spend
  | k + 1, hk => by
    rw [after_flood]
    exact (flooded_flood k (by omega)).next (by omega)

/-- The author that was forgotten is admitted again. -/
theorem Flooded.readmits {l : SpamLog} {k : Nat} (hf : Flooded l k) (hk : k + 2 = maxTrackedAuthors + 1) :
    grantTimes ((l.call (.sorted, ⟨sybil k, 1, none⟩)).2.call (.sorted, ⟨"victim", 2, none⟩)).2.granted "victim" =
      List.replicate spamBudgetPerWindow 0 ++ [2] := by
  obtain ⟨hstamps, hbudget, hgrants⟩ := hf.forgets hk
  generalize (l.call (.sorted, ⟨sybil k, 1, none⟩)).2 = m at *
  have hok : (m.call (.sorted, ⟨"victim", 2, none⟩)).1 = true := by
    refine SpamGuard.admit_iff.mpr ?_
    rw [hstamps, Option.getD_none, hbudget]
    exact Nat.zero_lt_succ 11
  have hgrant : (m.call (.sorted, ⟨"victim", 2, none⟩)).2.granted =
      if (m.call (.sorted, ⟨"victim", 2, none⟩)).1 then m.granted ++ [⟨"victim", 2⟩] else m.granted := rfl
  rw [hgrant, hok, if_pos rfl, grantTimes_append, hgrants]
  rfl

/-- **The table can be flooded**: after `maxTrackedAuthors` fresh keys an author that has spent its budget is admitted
once more in the same window. -/
theorem flooding_exceeds :
    (flooding.Pairwise fun x y => x.2.now ≤ y.2.now) ∧ (∀ x ∈ flooding, x.2.budget = none) ∧
      spamBudgetPerWindow <
        ((grantTimes ((SpamLog.start spamWindowSecs spamBudgetPerWindow).after flooding).granted "victim").filter
          fun t => 0 ≤ t ∧ t ≤ 0 + spamWindowSecs).length := by
  refine ⟨?_, ?_, ?_⟩
  · refine List.pairwise_append.mpr ⟨List.pairwise_append.mpr ⟨?_, ?_, ?_⟩, List.pairwise_singleton _ _, ?_⟩
    · exact List.pairwise_replicate.mpr (.inr le_rfl)
    · exact List.pairwise_map.mpr (List.pairwise_of_forall fun _ _ => le_rfl)
    · intro x hx y hy
      rw [List.eq_of_mem_replicate hx]
      exact Nat.zero_le _
    · intro x hx y hy
      rw [List.mem_singleton.mp hy]
      rcases List.mem_append.mp hx with hx | hx
      · rw [List.eq_of_mem_replicate hx]
        exact Nat.zero_le _
      · obtain ⟨i, -, rfl⟩ := List.mem_map.mp hx
        exact Nat.le_succ 1
  · intro x hx
    simp only [flooding, spend, flood, List.mem_append, List.mem_replicate, List.mem_map, List.mem_singleton] at hx
    rcases hx with (⟨-, rfl⟩ | ⟨i, -, rfl⟩) | rfl <;> rfl
  · have hlast : (SpamLog.start spamWindowSecs spamBudgetPerWindow).after flooding =
        ((((SpamLog.start spamWindowSecs spamBudgetPerWindow).after (spend ++ flood 1023)).call
          (.sorted, ⟨sybil 1023, 1, none⟩)).2.call (.sorted, ⟨"victim", 2, none⟩)).2 := by
      rw [flooding, after_append, ← after_flood]
      rfl
    rw [hlast, (flooded_flood 1023 (by decide)).readmits (by decide)]
    decide

end Onde.Reputation

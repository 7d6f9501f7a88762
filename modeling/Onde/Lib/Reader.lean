import Onde.Lib.Bytes

/-!
# Readers and what they read

A reader is a computation over a state that has used some bytes and has a rest to read (`Cursor`). `Reads c m P enc`
says that `m` reads exactly the encodings `enc a` of the values with `P`: it returns `a` on every rest that starts
with `enc a` and consumes just that (`forward`), and whatever it returns was encoded by what it consumed
(`backward`). A format is proved by the rules for sequencing (`Reads.bind`), returning (`Reads.pure`), guards
(`Reads.guard`) and repetition (`Reads.times`).
-/

namespace Onde.Lib

variable {ε σ α β : Type}

/-- The bytes a reader state has used and the bytes it can still read. -/
structure Cursor (σ : Type) where
  used : σ → Bytes
  rest : σ → Bytes

/-- `m` reads exactly the encodings of the values with `P`. -/
structure Reads (c : Cursor σ) (m : StateT σ (Except ε) α) (P : α → Prop) (enc : α → Bytes) : Prop where
  forward : ∀ s a t, P a → c.rest s = enc a ++ t → ∃ s', m s = .ok (a, s') ∧ c.rest s' = t
  backward : ∀ s a s', m s = .ok (a, s') → P a ∧ c.rest s = enc a ++ c.rest s' ∧ c.used s' = c.used s ++ enc a

/-- Run a reader `n` times and collect the results. -/
def times : Nat → StateT σ (Except ε) α → StateT σ (Except ε) (List α)
  | 0, _ => pure []
  | n + 1, m => do
    let a ← m
    let as ← times n m
    pure (a :: as)

namespace Reads

variable {c : Cursor σ}

theorem bind_ok {m : StateT σ (Except ε) α} {k : α → StateT σ (Except ε) β} {s s' : σ} {b : β} :
    (m >>= k) s = .ok (b, s') ↔ ∃ a s₁, m s = .ok (a, s₁) ∧ k a s₁ = .ok (b, s') := by
  show (Except.bind (m s) fun p => k p.1 p.2) = _ ↔ _
  cases h : m s with
  | error e => simp [Except.bind]
  | ok p => obtain ⟨a, s₁⟩ := p; simp [Except.bind]

/-- **Sequencing.** `W` is what holds of the whole record, `f` the field read by `m`, and `E` fixes the fields read
before. -/
theorem bind {m : StateT σ (Except ε) α} {k : α → StateT σ (Except ε) β} {P : α → Prop} {W E : β → Prop}
    {enc : α → Bytes} {encK : β → Bytes} (f : β → α) (hf : ∀ b, W b → P (f b)) (hm : Reads c m P enc)
    (hk : ∀ a, P a → Reads c (k a) (fun b => W b ∧ f b = a ∧ E b) encK) :
    Reads c (m >>= k) (fun b => W b ∧ E b) (fun b => enc (f b) ++ encK b) where
  forward s b t h ht := by
    obtain ⟨s₁, h₁, ht₁⟩ := hm.forward s (f b) (encK b ++ t) (hf b h.1) (by rw [ht, List.append_assoc])
    obtain ⟨s₂, h₂, ht₂⟩ := (hk (f b) (hf b h.1)).forward s₁ b t ⟨h.1, rfl, h.2⟩ ht₁
    exact ⟨s₂, bind_ok.mpr ⟨_, _, h₁, h₂⟩, ht₂⟩
  backward s b s' h := by
    obtain ⟨a, s₁, h₁, h₂⟩ := bind_ok.mp h
    obtain ⟨hP, hr₁, hu₁⟩ := hm.backward _ _ _ h₁
    obtain ⟨⟨hW, rfl, hE⟩, hr₂, hu₂⟩ := (hk a hP).backward _ _ _ h₂
    exact ⟨⟨hW, hE⟩, by rw [hr₁, hr₂, List.append_assoc], by rw [hu₂, hu₁, List.append_assoc]⟩

theorem pure (a : α) : Reads (ε := ε) c (pure a) (fun b => b = a) (fun _ => []) where
  forward s b t h ht := ⟨s, by subst h; rfl, by simpa using ht⟩
  backward s b s' h := by
    cases h
    exact ⟨rfl, rfl, (List.append_nil _).symm⟩

/-- **Conversion.** The value read is converted by `k`, which reads nothing and may fail. -/
theorem convert {m : StateT σ (Except ε) α} {k : α → StateT σ (Except ε) β} {P : α → Prop} {Q : β → Prop}
    {enc : α → Bytes} {encQ : β → Bytes} (hm : Reads c m P enc)
    (hfw : ∀ b, Q b → ∃ a, P a ∧ k a = Pure.pure b ∧ enc a = encQ b)
    (hbw : ∀ a, P a → (∃ b, k a = Pure.pure b ∧ Q b ∧ enc a = encQ b) ∨ ∃ e, k a = throw e) :
    Reads c (m >>= k) Q encQ where
  forward s b t h ht := by
    obtain ⟨a, hP, hk, he⟩ := hfw b h
    obtain ⟨s₁, h₁, ht₁⟩ := hm.forward s a t hP (by rw [ht, he])
    exact ⟨s₁, bind_ok.mpr ⟨a, s₁, h₁, by rw [hk]; rfl⟩, ht₁⟩
  backward s b s' h := by
    obtain ⟨a, s₁, h₁, h₂⟩ := bind_ok.mp h
    obtain ⟨hP, hr, hu⟩ := hm.backward _ _ _ h₁
    rcases hbw a hP with ⟨b', hk, hQ, he⟩ | ⟨e, hk⟩
    · rw [hk] at h₂
      cases h₂
      exact ⟨hQ, by rw [hr, he], by rw [hu, he]⟩
    · rw [hk] at h₂
      cases h₂

/-- The same values with the same encodings. -/
theorem congr {m : StateT σ (Except ε) α} {P Q : α → Prop} {enc enc' : α → Bytes} (hm : Reads c m P enc)
    (hP : ∀ a, P a ↔ Q a) (he : ∀ a, P a → enc a = enc' a) : Reads c m Q enc' where
  forward s a t h ht := hm.forward s a t ((hP a).mpr h) (by rw [ht, he a ((hP a).mpr h)])
  backward s a s' h := by
    obtain ⟨hp, hr, hu⟩ := hm.backward s a s' h
    exact ⟨(hP a).mp hp, by rw [hr, he a hp], by rw [hu, he a hp]⟩

/-- Sequencing at the first field of a record. -/
theorem bind_first {m : StateT σ (Except ε) α} {k : α → StateT σ (Except ε) β} {P : α → Prop} {W : β → Prop}
    {enc : α → Bytes} {encK : β → Bytes} (f : β → α) (hf : ∀ b, W b → P (f b)) (hm : Reads c m P enc)
    (hk : ∀ a, P a → Reads c (k a) (fun b => W b ∧ f b = a ∧ True) encK) :
    Reads c (m >>= k) W (fun b => enc (f b) ++ encK b) :=
  (bind (E := fun _ => True) f hf hm hk).congr (fun _ => iff_of_eq (and_true _)) fun _ _ => rfl

/-- A reader behind an error guard. -/
theorem guard {b : Prop} [Decidable b] {m : StateT σ (Except ε) α} {P : α → Prop} {enc : α → Bytes} (e : ε)
    (hm : ¬b → Reads c m P enc) : Reads c (if b then throw e else m) (fun a => ¬b ∧ P a) enc where
  forward s a t h ht := by
    rw [if_neg h.1]
    exact (hm h.1).forward s a t h.2 ht
  backward s a s' h := by
    split at h
    · cases h
    · rename_i hb
      obtain ⟨hp, hr⟩ := (hm hb).backward s a s' h
      exact ⟨⟨hb, hp⟩, hr⟩

/-- **Repetition.** -/
theorem times {m : StateT σ (Except ε) α} {P : α → Prop} {enc : α → Bytes} (hm : Reads c m P enc) :
    ∀ n, Reads c (times n m) (fun as => as.length = n ∧ ∀ a ∈ as, P a) (fun as => as.flatMap enc)
  | 0 => (pure []).congr (by simp +contextual) (by simp +contextual)
  | n + 1 => by
    constructor
    · intro s as t h ht
      obtain _ | ⟨a, as⟩ := as
      · simp at h
      · have ht' : c.rest s = enc a ++ (as.flatMap enc ++ t) := by simpa using ht
        obtain ⟨s₁, h₁, hr₁⟩ := hm.forward s a _ (h.2 a (by simp)) ht'
        obtain ⟨s₂, h₂, hr₂⟩ := (times hm n).forward s₁ as t
          ⟨by simpa using h.1, fun x hx => h.2 x (by simp [hx])⟩ hr₁
        exact ⟨s₂, bind_ok.mpr ⟨a, s₁, h₁, bind_ok.mpr ⟨as, s₂, h₂, rfl⟩⟩, hr₂⟩
    · intro s as s' h
      obtain ⟨a, s₁, h₁, h⟩ := bind_ok.mp h
      obtain ⟨as', s₂, h₂, h⟩ := bind_ok.mp h
      cases h
      obtain ⟨hp, hr₁, hu₁⟩ := hm.backward _ _ _ h₁
      obtain ⟨⟨hl, hps⟩, hr₂, hu₂⟩ := (times hm n).backward _ _ _ h₂
      refine ⟨⟨by simp [hl], ?_⟩, by rw [hr₁, hr₂]; simp, by rw [hu₂, hu₁]; simp⟩
      intro x hx
      rcases List.mem_cons.mp hx with rfl | hx
      · exact hp
      · exact hps x hx

end Reads

end Onde.Lib

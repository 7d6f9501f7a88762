import Mathlib.Data.Set.Function
import Onde.Crypto.TxPool
import Onde.Lib.Joined

/-!
# What a transaction id binds

The pool checks the proof of a transaction against its fields; nobody checks the transaction id, and the text that is
hashed does not tell where the sender ends.

* `SameText`: fields that spell the same text (`txData_inj`);
* `Backed`: what every transaction of the pool went through;
* `binds_iff`: ids and commitments bind the fields exactly when no submission brings the id, or spells the text, of a
  transaction of the pool with other fields;
* `binds_of_made`: so they do for transactions made as they should be, of senders without a colon.
-/

namespace Onde.Crypto

open Onde.Lib

namespace ZkTransaction

/-- The text that the id and the commitment are the hash of. -/
def text (tx : ZkTransaction) : String := txData tx.sender tx.receiver tx.amountMicro tx.nonce

/-- The two have the same sender, receiver, amount and nonce. -/
structure SameFields (t u : ZkTransaction) : Prop where
  sender : t.sender = u.sender
  receiver : t.receiver = u.receiver
  amountMicro : t.amountMicro = u.amountMicro
  nonce : t.nonce = u.nonce

/-- The two have the same amount and nonce, and sender and receiver, joined by a colon, read the same. -/
structure SameText (t u : ZkTransaction) : Prop where
  parties : t.sender ++ ":" ++ t.receiver = u.sender ++ ":" ++ u.receiver
  amountMicro : t.amountMicro = u.amountMicro
  nonce : t.nonce = u.nonce

variable {c : Primitives} {t u : ZkTransaction}

theorem SameFields.symm (h : SameFields t u) : SameFields u t :=
  ⟨h.sender.symm, h.receiver.symm, h.amountMicro.symm, h.nonce.symm⟩

theorem SameFields.trans {v : ZkTransaction} (h₁ : SameFields t u) (h₂ : SameFields u v) : SameFields t v :=
  ⟨h₁.sender.trans h₂.sender, h₁.receiver.trans h₂.receiver, h₁.amountMicro.trans h₂.amountMicro,
    h₁.nonce.trans h₂.nonce⟩

theorem SameFields.sameText (h : SameFields t u) : SameText t u :=
  ⟨by rw [h.sender, h.receiver], h.amountMicro, h.nonce⟩

/-- **The text tells amount, nonce and the two parties joined.** -/
theorem text_inj : t.text = u.text ↔ SameText t u := by
  constructor
  · intro h
    obtain ⟨hrest, hnonce⟩ := append_colon_repr_inj.mp h
    obtain ⟨hparties, hamount⟩ := append_colon_repr_inj.mp hrest
    exact ⟨hparties, UInt64.toNat_inj.mp hamount, UInt64.toNat_inj.mp hnonce⟩
  · rintro ⟨hparties, hamount, hnonce⟩
    rw [text, text, txData, txData, hparties, hamount, hnonce]

/-- The parties are told apart if no sender holds a colon. -/
theorem SameText.sameFields (h : SameText t u) (ht : ':' ∉ t.sender.toList) (hu : ':' ∉ u.sender.toList) :
    SameFields t u := by
  obtain ⟨hsender, hreceiver⟩ := append_colon_inj ht hu h.parties
  exact ⟨hsender, hreceiver, h.amountMicro, h.nonce⟩

/-- A valid proof commits to the text. -/
theorem commitment_of_valid (h : t.hasValidProof c = true) :
    t.zkProof.commitment = hexEncode (c.sha256 (utf8Bytes t.text)).1 := by
  unfold hasValidProof at h
  split at h
  · cases h
  · exact of_decide_eq_true (Bool.and_eq_true_iff.mp h).1

end ZkTransaction

open ZkTransaction

/-- Equal digests in hexadecimal come from equal digests. -/
theorem hexDigest_inj {c : Primitives} {s t : String}
    (h : hexEncode (c.sha256 (utf8Bytes s)).1 = hexEncode (c.sha256 (utf8Bytes t)).1) :
    c.sha256 (utf8Bytes s) = c.sha256 (utf8Bytes t) := by
  have hbytes := congrArg hexDecode h
  rw [hexDecode_hexEncode, hexDecode_hexEncode] at hbytes
  exact Subtype.ext (Option.some.inj hbytes)

/-- No two of the texts have the same digest. -/
def CollisionFree (c : Primitives) (texts : Set String) : Prop := Set.InjOn (fun s => c.sha256 (utf8Bytes s)) texts

namespace TxPool

/-- **Ids and commitments bind the fields**: transactions of the pool with the same id, or the same commitment, have the
same fields. -/
def Binds (pool : TxPool) : Prop := ∀ t ∈ pool.all, ∀ u ∈ pool.all,
  t.txId = u.txId ∨ t.zkProof.commitment = u.zkProof.commitment → SameFields t u

variable {c : Primitives} {pool : TxPool} {t tx : ZkTransaction}

/-- A commit moves transactions and marks them, no more. -/
theorem mem_all_commitPending {maxBatch : Nat} (h : t ∈ (pool.commitPending c maxBatch).2.all) :
    ∃ u ∈ pool.all, t = u ∨ t = u.commit := by
  rw [all, pending_commitPending, committed_commitPending] at h
  rcases List.mem_append.mp h with hpending | hcommitted
  · exact ⟨t, List.mem_append_left _ (List.mem_of_mem_drop hpending), .inl rfl⟩
  · rcases List.mem_append.mp hcommitted with hold | hnew
    · exact ⟨t, List.mem_append_right _ hold, .inl rfl⟩
    · obtain ⟨u, hu, rfl⟩ := List.mem_map.mp hnew
      exact ⟨u, List.mem_append_left _ (List.mem_of_mem_take hu), .inr rfl⟩

theorem mem_all_submit : t ∈ ({ pool with pending := pool.pending ++ [tx] } : TxPool).all ↔ t ∈ pool.all ∨ t = tx := by
  simp only [all, List.mem_append, List.mem_singleton]
  tauto

theorem Binds.commitPending (hb : pool.Binds) (maxBatch : Nat) : (pool.commitPending c maxBatch).2.Binds := by
  intro t ht u hu heq
  obtain ⟨t', ht', hcommit⟩ := mem_all_commitPending ht
  obtain ⟨u', hu', hcommit'⟩ := mem_all_commitPending hu
  have hsame : t'.txId = u'.txId ∨ t'.zkProof.commitment = u'.zkProof.commitment → SameFields t' u' := hb t' ht' u' hu'
  rcases hcommit with rfl | rfl <;> rcases hcommit' with rfl | rfl
  · exact hsame heq
  · obtain ⟨h₁, h₂, h₃, h₄⟩ := hsame heq
    exact ⟨h₁, h₂, h₃, h₄⟩
  · obtain ⟨h₁, h₂, h₃, h₄⟩ := hsame heq
    exact ⟨h₁, h₂, h₃, h₄⟩
  · obtain ⟨h₁, h₂, h₃, h₄⟩ := hsame heq
    exact ⟨h₁, h₂, h₃, h₄⟩

end TxPool

namespace History

variable {c : Primitives} {ops : List PoolOp} {t tx : ZkTransaction}

/-- The texts of the submissions. -/
def submittedTexts (ops : List PoolOp) : Set String := {s | ∃ tx, PoolOp.submit tx ∈ ops ∧ s = tx.text}

/-- What a transaction of the pool went through: it was submitted with these fields, and its proof is valid. -/
structure Backed (c : Primitives) (ops : List PoolOp) (t : ZkTransaction) : Prop where
  submitted : ∃ tx, PoolOp.submit tx ∈ ops ∧ t.txId = tx.txId ∧ SameFields t tx
  valid : t.hasValidProof c = true

theorem Backed.text_mem (hb : Backed c ops t) : t.text ∈ submittedTexts ops := by
  obtain ⟨tx, hmem, -, hsame⟩ := hb.submitted
  exact ⟨tx, hmem, text_inj.mpr hsame.sameText⟩

/-- **Every transaction of the pool was submitted, with a valid proof.** -/
theorem backed (c : Primitives) (ops : List PoolOp) : ∀ t ∈ (after c ops).pool.all, Backed c ops t := by
  induction ops using List.reverseRecOn with
  | nil => exact fun t ht => absurd ht List.not_mem_nil
  | append_singleton ops op ih =>
    have hlater : ∀ t, Backed c ops t → Backed c (ops ++ [op]) t := by
      rintro t ⟨⟨tx, hmem, hsame⟩, hvalid⟩
      exact ⟨⟨tx, List.mem_append_left _ hmem, hsame⟩, hvalid⟩
    rw [after_append]
    cases op with
    | submit tx =>
      by_cases hr : (after c ops).pool.Refused c tx
      · rw [step_refused hr]
        exact fun t ht => hlater t (ih t ht)
      · rw [step_submit hr]
        intro t ht
        rcases TxPool.mem_all_submit.mp ht with hold | rfl
        · exact hlater t (ih t hold)
        · have hvalid : t.hasValidProof c = true := by
            by_contra hinvalid
            exact hr (.inl (Bool.not_eq_true _ |>.mp hinvalid))
          exact ⟨⟨t, by simp, rfl, ⟨rfl, rfl, rfl, rfl⟩⟩, hvalid⟩
    | commitPending maxBatch =>
      intro t ht
      obtain ⟨u, hu, rfl | rfl⟩ := TxPool.mem_all_commitPending ht
      · exact hlater t (ih t hu)
      · obtain ⟨⟨tx, hmem, hid, hsame⟩, hvalid⟩ := hlater u (ih u hu)
        exact ⟨⟨tx, hmem, hid, ⟨hsame.sender, hsame.receiver, hsame.amountMicro, hsame.nonce⟩⟩, hvalid⟩

/-- Transactions of one history with the same commitment have the same text. -/
theorem Backed.sameText (hfree : CollisionFree c (submittedTexts ops)) {u : ZkTransaction} (ht : Backed c ops t)
    (hu : Backed c ops u) (heq : t.zkProof.commitment = u.zkProof.commitment) : SameText t u := by
  rw [commitment_of_valid ht.valid, commitment_of_valid hu.valid] at heq
  exact text_inj.mp (hfree ht.text_mem hu.text_mem (hexDigest_inj heq))

/-- The submission brings neither the id nor the text of a transaction of the pool with other fields. -/
def Unambiguous (pool : TxPool) (tx : ZkTransaction) : Prop :=
  ∀ t ∈ pool.all, t.txId = tx.txId ∨ SameText t tx → SameFields t tx

theorem submittedTexts_mono {past : List PoolOp} (hpre : past <+: ops) : submittedTexts past ⊆ submittedTexts ops := by
  rintro s ⟨tx, hmem, rfl⟩
  exact ⟨tx, hpre.subset hmem, rfl⟩

/-- An unambiguous submission keeps the ids and commitments binding. -/
theorem binds_submit (hfree : CollisionFree c (submittedTexts (ops ++ [.submit tx])))
    (hb : (after c ops).pool.Binds) (hr : ¬(after c ops).pool.Refused c tx)
    (hu : Unambiguous (after c ops).pool tx) : (after c (ops ++ [.submit tx])).pool.Binds := by
  have hbacked := backed c (ops ++ [.submit tx])
  rw [after_append, step_submit hr] at hbacked ⊢
  have hnew : ∀ t ∈ (after c ops).pool.all,
      t.txId = tx.txId ∨ t.zkProof.commitment = tx.zkProof.commitment → SameFields t tx := by
    intro t ht heq
    refine hu t ht (heq.imp_right fun hcommitment => ?_)
    exact (hbacked t (TxPool.mem_all_submit.mpr (.inl ht))).sameText hfree
      (hbacked tx (TxPool.mem_all_submit.mpr (.inr rfl))) hcommitment
  intro t ht u hu' heq
  rcases TxPool.mem_all_submit.mp ht with hold | rfl <;> rcases TxPool.mem_all_submit.mp hu' with hold' | rfl
  · exact hb t hold u hold' heq
  · exact hnew t hold heq
  · exact (hnew u hold' (heq.imp Eq.symm Eq.symm)).symm
  · exact ⟨rfl, rfl, rfl, rfl⟩

theorem binds_of_unambiguous (hfree : CollisionFree c (submittedTexts ops))
    (hops : ∀ past tx, past ++ [.submit tx] <+: ops → ¬(after c past).pool.Refused c tx →
      Unambiguous (after c past).pool tx) : ∀ past, past <+: ops → (after c past).pool.Binds := by
  intro past hpre
  induction past using List.reverseRecOn with
  | nil => exact fun t ht => absurd ht List.not_mem_nil
  | append_singleton past op ih =>
    have hbefore := ih ((List.prefix_append _ _).trans hpre)
    cases op with
    | commitPending maxBatch =>
      rw [after_append]
      exact hbefore.commitPending maxBatch
    | submit tx =>
      by_cases hr : (after c past).pool.Refused c tx
      · rw [after_append, step_refused hr]
        exact hbefore
      · exact binds_submit (hfree.mono (submittedTexts_mono hpre)) hbefore hr (hops past tx hpre hr)

/-- **Ids and commitments bind the fields at every moment of a history exactly when each accepted submission brings
neither the id nor the text of a transaction of the pool with other fields.** -/
theorem binds_iff (c : Primitives) (ops : List PoolOp) (hfree : CollisionFree c (submittedTexts ops)) :
    (∀ past, past <+: ops → (after c past).pool.Binds) ↔
      ∀ past tx, past ++ [.submit tx] <+: ops → ¬(after c past).pool.Refused c tx →
        Unambiguous (after c past).pool tx := by
  refine ⟨fun hbinds past tx hpre hr t ht heq => ?_, binds_of_unambiguous hfree⟩
  have hb := hbinds _ hpre
  rw [after_append, step_submit hr] at hb
  refine hb t (TxPool.mem_all_submit.mpr (.inl ht)) tx (TxPool.mem_all_submit.mpr (.inr rfl)) (heq.imp_right ?_)
  intro htext
  have hvalid : tx.hasValidProof c = true := by
    by_contra hinvalid
    exact hr (.inl (Bool.not_eq_true _ |>.mp hinvalid))
  rw [commitment_of_valid (backed c past t ht).valid, commitment_of_valid hvalid, text_inj.mpr htext]

/-- The id is the hash of the text, and the sender holds no colon. -/
structure Made (c : Primitives) (tx : ZkTransaction) : Prop where
  txId : tx.txId = hexEncode (c.sha256 (utf8Bytes tx.text)).1
  sender : ':' ∉ tx.sender.toList

theorem unambiguous_of_made (hfree : CollisionFree c (submittedTexts ops))
    (hmade : ∀ tx, PoolOp.submit tx ∈ ops → Made c tx) {past : List PoolOp} (hpre : past ++ [.submit tx] <+: ops) :
    Unambiguous (after c past).pool tx := by
  intro t ht heq
  have htx : PoolOp.submit tx ∈ ops := hpre.subset (by simp)
  obtain ⟨u, hu, hid, hsame⟩ := (backed c past t ht).submitted
  have hu' : PoolOp.submit u ∈ ops := ((List.prefix_append _ _).trans hpre).subset hu
  have htext : SameText u tx := by
    rcases heq with hids | htext
    · have hdigest : hexEncode (c.sha256 (utf8Bytes u.text)).1 = hexEncode (c.sha256 (utf8Bytes tx.text)).1 := by
        rw [← (hmade u hu').txId, ← (hmade tx htx).txId, ← hid, hids]
      exact text_inj.mp (hfree ⟨u, hu', rfl⟩ ⟨tx, htx, rfl⟩ (hexDigest_inj hdigest))
    · exact text_inj.mp ((text_inj.mpr hsame.symm.sameText).trans (text_inj.mpr htext))
  exact hsame.trans (htext.sameFields (hmade u hu').sender (hmade tx htx).sender)

/-- **Transactions made as they should be, of senders without a colon, are told apart.** -/
theorem binds_of_made (hfree : CollisionFree c (submittedTexts ops))
    (hmade : ∀ tx, PoolOp.submit tx ∈ ops → Made c tx) : ∀ past, past <+: ops → (after c past).pool.Binds :=
  binds_of_unambiguous hfree fun _ _ hpre _ => unambiguous_of_made hfree hmade hpre

/-! ## A colon that moves -/

/-- A second transaction, of another sender, is accepted with nonce zero. -/
theorem all_two {t u : ZkTransaction} (ht : t.hasValidProof c = true) (hu : u.hasValidProof c = true)
    (hne : t.sender ≠ u.sender) : (after c [.submit t, .submit u]).pool.all = [t, u] := by
  have hfirst : ¬start.pool.Refused c t := by
    simp [TxPool.Refused, ht, start, TxPool.new, TxPool.isDuplicate, TxPool.nextExpectedNonce, TxPool.all]
  have hsecond : ¬({ start.pool with pending := [t] } : TxPool).Refused c u := by
    simp [TxPool.Refused, hu, start, TxPool.new, TxPool.isDuplicate, TxPool.nextExpectedNonce, TxPool.all,
      TxPool.raise, hne]
  show ((start.step c (.submit t)).step c (.submit u)).pool.all = [t, u]
  rw [step_submit hfirst]
  exact congrArg (fun h : History => h.pool.all) (step_submit hsecond)

/-- The digests of three texts. -/
def colonHash : Primitives := .ofKnownBytes
  { publicKey := beArr 32 0
    digests :=
      [(utf8Bytes "a:b:c:1:0", beArr 32 0xa45efe394ec3a51163a98a147fd1c8c0a04372f4a697a9a7d286508889ffcde3),
       (utf8Bytes "alice:bob:100:0", beArr 32 0x8bd2edc31953a26cbc8a7d6bd8ef1ead6aebfd0d80a3a2576eb944d9cbd89b31),
       (utf8Bytes "alice:bob:50:1", beArr 32 0xb9e6573cf56f408518baa2501aa30a1fbf9aa4a5de5273b0ebdfd6c11f42f474)]
    signatures := [] }

/-- A transaction to `b:c`, and one of `a:b`. -/
def colonTxs : List ZkTransaction :=
  [.new colonHash "a" "b:c" 1 0 1700000000, .new colonHash "a:b" "c" 1 0 1700000000]

/-- **Two transactions of different senders have one id.** -/
theorem colon_unbound : CollisionFree colonHash (submittedTexts (colonTxs.map .submit)) ∧
    ¬∀ past, past <+: colonTxs.map .submit → (after colonHash past).pool.Binds := by
  have htexts : submittedTexts (colonTxs.map .submit) ⊆ {"a:b:c:1:0"} := by
    rintro s ⟨tx, hmem, rfl⟩
    obtain ⟨u, hu, heq⟩ := List.mem_map.mp hmem
    obtain rfl := PoolOp.submit.inj heq
    rcases List.mem_cons.mp hu with rfl | hu
    · exact (by decide : txData "a" "b:c" 1 0 = "a:b:c:1:0")
    · rw [List.mem_singleton.mp hu]
      exact (by decide : txData "a:b" "c" 1 0 = "a:b:c:1:0")
  refine ⟨(Set.injOn_singleton _ _).mono htexts, fun hbinds => ?_⟩
  have hall := all_two (hasValidProof_new colonHash "a" "b:c" 1 0 1700000000)
    (hasValidProof_new colonHash "a:b" "c" 1 0 1700000000) (by decide : "a" ≠ "a:b")
  have hb := hbinds _ (List.prefix_refl _)
  rw [TxPool.Binds, colonTxs, List.map_cons, List.map_singleton, hall] at hb
  have hids : txData "a" "b:c" 1 0 = txData "a:b" "c" 1 0 := by decide
  have hsame := hb _ List.mem_cons_self _ (List.mem_cons_of_mem _ List.mem_cons_self)
    (.inl (congrArg (fun s => hexEncode (colonHash.sha256 (utf8Bytes s)).1) hids))
  exact absurd hsame.sender (by decide : "a" ≠ "a:b")

/-- Two transactions of Alice. -/
def aliceTxs : List ZkTransaction :=
  [.new colonHash "alice" "bob" 100 0 1700000000, .new colonHash "alice" "bob" 50 1 1700000060]

/-- They are told apart. -/
theorem alice_bound : (after colonHash (aliceTxs.map .submit)).pool.Binds := by
  have hmade : ∀ tx, PoolOp.submit tx ∈ aliceTxs.map .submit → Made colonHash tx ∧
      (tx.text = "alice:bob:100:0" ∨ tx.text = "alice:bob:50:1") := by
    intro tx hmem
    obtain ⟨u, hu, heq⟩ := List.mem_map.mp hmem
    obtain rfl := PoolOp.submit.inj heq
    rcases List.mem_cons.mp hu with rfl | hu
    · exact ⟨⟨rfl, by decide⟩, .inl (by decide)⟩
    · rw [List.mem_singleton.mp hu]
      exact ⟨⟨rfl, by decide⟩, .inr (by decide)⟩
  have hdiff : colonHash.sha256 (utf8Bytes "alice:bob:100:0") ≠ colonHash.sha256 (utf8Bytes "alice:bob:50:1") := by
    decide +kernel
  have hfree : CollisionFree colonHash (submittedTexts (aliceTxs.map .submit)) := by
    rintro _ ⟨tx, htx, rfl⟩ _ ⟨ux, hux, rfl⟩ heq
    dsimp only at heq
    rcases (hmade tx htx).2 with ht | ht <;> rcases (hmade ux hux).2 with hu | hu <;> rw [ht, hu] at heq ⊢
    · exact absurd heq hdiff
    · exact absurd heq.symm hdiff
  exact (binds_iff colonHash (aliceTxs.map .submit) hfree).mpr
    (fun _ _ hpre _ => unambiguous_of_made hfree (fun tx htx => (hmade tx htx).1) hpre) _ (List.prefix_refl _)

end History

end Onde.Crypto

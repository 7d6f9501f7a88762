import Onde.Crypto.Binding
import Onde.Lib.HashChain

/-!
# What a state root commits to

A commit hashes the last root with the number of committed transactions.

* `committedCounts`: the number of committed transactions after each commit that was not empty;
* `root_eq`: the state root is the hash chain of these numbers;
* `roots_equal_iff`: equal roots mean equal sequences of numbers, and nothing more (`root_blind`).
-/

namespace Onde.Crypto

open Onde.Lib

namespace TxPool

/-- The state root: the last of the list. -/
def root (pool : TxPool) : String := pool.stateRoots.getLast pool.hasRoot

/-- The root after a commit. -/
def nextRoot (c : Primitives) (last : String) (committed : Nat) : String :=
  hexEncode (c.sha256 (utf8Bytes (last ++ ":" ++ committed.repr))).1

/-- **A commit that is not empty adds a link, and an empty one nothing.** -/
theorem root_commitPending (c : Primitives) (pool : TxPool) (maxBatch : Nat) : (pool.commitPending c maxBatch).2.root =
    if (pool.commitPending c maxBatch).1.isEmpty then pool.root
    else nextRoot c pool.root (pool.commitPending c maxBatch).2.committed.length := by
  let batch := (pool.pending.take (min maxBatch pool.pending.length)).map ZkTransaction.commit
  by_cases hempty : batch.isEmpty = true
  · have heq : pool.commitPending c maxBatch = (batch, _) := if_pos hempty
    rw [heq, if_pos hempty]
    rfl
  · have heq : pool.commitPending c maxBatch = (batch, _) := if_neg hempty
    rw [heq, if_neg hempty]
    exact List.getLast_append_singleton _

end TxPool

namespace History

/-- What a call adds to the sequence of committed numbers. -/
def countAfter (c : Primitives) (h : History) : PoolOp → List Nat
  | .submit _ => []
  | .commitPending maxBatch =>
    if (h.pool.commitPending c maxBatch).1.isEmpty then []
    else [(h.pool.commitPending c maxBatch).2.committed.length]

/-- The number of committed transactions after each commit that was not empty. -/
def committedCounts (c : Primitives) (ops : List PoolOp) : List Nat :=
  (ops.foldl (fun s op => (s.1.step c op, s.2 ++ countAfter c s.1 op)) (start, [])).2

variable {c : Primitives}

theorem committedCounts_append (ops : List PoolOp) (op : PoolOp) :
    committedCounts c (ops ++ [op]) = committedCounts c ops ++ countAfter c (after c ops) op := by
  have hfst : ∀ ops : List PoolOp,
      (ops.foldl (fun s op => (s.1.step c op, s.2 ++ countAfter c s.1 op)) (start, ([] : List Nat))).1 =
        after c ops := by
    intro ops
    induction ops using List.reverseRecOn with
    | nil => rfl
    | append_singleton ops op ih => rw [List.foldl_append, after_append, ← ih]; rfl
  rw [committedCounts, List.foldl_append, ← hfst ops]
  rfl

/-- **The state root is the hash chain of the committed numbers.** -/
theorem root_eq (c : Primitives) (ops : List PoolOp) :
    (after c ops).pool.root = (committedCounts c ops).foldl (TxPool.nextRoot c) "genesis" := by
  induction ops using List.reverseRecOn with
  | nil => rfl
  | append_singleton ops op ih =>
    rw [committedCounts_append, List.foldl_append, ← ih, after_append]
    cases op with
    | submit tx =>
      rw [countAfter, List.foldl_nil]
      by_cases hr : (after c ops).pool.Refused c tx
      · rw [step_refused hr]
      · rw [step_submit hr]
        rfl
    | commitPending maxBatch =>
      have hroot := TxPool.root_commitPending c (after c ops).pool maxBatch
      show ((after c ops).pool.commitPending c maxBatch).2.root = _
      rw [hroot, countAfter]
      split
      · rfl
      · rfl

/-- The texts that the roots of a history are hashed from. -/
def rootTexts (c : Primitives) (ops : List PoolOp) : Set String :=
  (fun p => p.1 ++ ":" ++ p.2.repr) '' Touched (TxPool.nextRoot c) "genesis" (committedCounts c ops)

/-- A root is never the first one: it is longer. -/
theorem nextRoot_ne_genesis (last : String) (n : Nat) : TxPool.nextRoot c last n ≠ "genesis" := by
  intro h
  have hsize := congrArg String.utf8ByteSize h
  rw [TxPool.nextRoot, utf8ByteSize_hexEncode, (c.sha256 _).2] at hsize
  exact absurd hsize (by decide)

/-- **Equal state roots, equal committed numbers.** The roots of two histories are equal exactly when as many
transactions were committed after each commit, however the histories went otherwise. -/
theorem roots_equal_iff (c : Primitives) (ops₁ ops₂ : List PoolOp)
    (hfree : CollisionFree c (rootTexts c ops₁ ∪ rootTexts c ops₂)) :
    (after c ops₁).pool.root = (after c ops₂).pool.root ↔ committedCounts c ops₁ = committedCounts c ops₂ := by
  rw [root_eq, root_eq]
  refine chain_inj nextRoot_ne_genesis fun p hp q hq heq => ?_
  have hmem : ∀ {p}, p ∈ Touched (TxPool.nextRoot c) "genesis" (committedCounts c ops₁) ∪
      Touched (TxPool.nextRoot c) "genesis" (committedCounts c ops₂) →
      p.1 ++ ":" ++ p.2.repr ∈ rootTexts c ops₁ ∪ rootTexts c ops₂ := fun hp =>
    hp.imp (Set.mem_image_of_mem _) (Set.mem_image_of_mem _)
  have htext := hfree (hmem hp) (hmem hq) (hexDigest_inj heq)
  obtain ⟨hlast, hn⟩ := append_colon_repr_inj.mp htext
  exact Prod.ext hlast hn

/-! ## Two ledgers with one root -/

/-- A transaction submitted and committed. -/
def commitOne (tx : ZkTransaction) : List PoolOp := [.submit tx, .commitPending 1]

theorem commitOne_committed {tx : ZkTransaction} (hvalid : tx.hasValidProof c = true) :
    (after c (commitOne tx)).pool.committed = [tx.commit] ∧ committedCounts c (commitOne tx) = [1] := by
  have hfresh : ¬start.pool.Refused c tx := by
    simp [TxPool.Refused, hvalid, start, TxPool.new, TxPool.isDuplicate, TxPool.nextExpectedNonce, TxPool.all]
  have hafter : after c [.submit tx] = ⟨{ start.pool with pending := [tx] }, [tx]⟩ := step_submit hfresh
  constructor
  · show ((after c [.submit tx]).step c (.commitPending 1)).pool.committed = [tx.commit]
    rw [hafter]
    exact TxPool.committed_commitPending 1
  · show committedCounts c ([.submit tx] ++ [.commitPending 1]) = [1]
    rw [committedCounts_append, hafter]
    rfl

/-- The digests of two transactions, and of the text of the first root. -/
def rootHash : Primitives := .ofKnownBytes
  { publicKey := beArr 32 0
    digests :=
      [(utf8Bytes "alice:bob:100:0", beArr 32 0x8bd2edc31953a26cbc8a7d6bd8ef1ead6aebfd0d80a3a2576eb944d9cbd89b31),
       (utf8Bytes "alice:bob:50:0", beArr 32 0xfb13afc44a10d3415f79d7916850e460e9e2b86648bdaa9f0dd06e0937c67cd0),
       (utf8Bytes "genesis:1", beArr 32 0x02b398315758a3ddaa25f28222db771678e854a900aa18eeead94ec28c748ea8)]
    signatures := [] }

/-- A transaction of Alice over an amount. -/
def aliceTx (amountMicro : UInt64) : ZkTransaction := .new rootHash "alice" "bob" amountMicro 0 1700000000

theorem aliceTx_committed (amountMicro : UInt64) :
    (after rootHash (commitOne (aliceTx amountMicro))).pool.committed = [(aliceTx amountMicro).commit] ∧
      committedCounts rootHash (commitOne (aliceTx amountMicro)) = [1] :=
  commitOne_committed (ZkTransaction.hasValidProof_new rootHash "alice" "bob" amountMicro 0 1700000000)

/-- One root has one text. -/
theorem aliceTx_free (amountMicro amountMicro' : UInt64) :
    CollisionFree rootHash (rootTexts rootHash (commitOne (aliceTx amountMicro)) ∪
      rootTexts rootHash (commitOne (aliceTx amountMicro'))) := by
  have htext : ∀ amount, rootTexts rootHash (commitOne (aliceTx amount)) ⊆ {"genesis:1"} := by
    rintro amount _ ⟨⟨last, n⟩, ⟨past, hpre, hlast⟩, rfl⟩
    rw [(aliceTx_committed amount).2] at hpre
    obtain ⟨rfl, rfl⟩ : past = [] ∧ n = 1 := by
      cases past with
      | nil => simpa using hpre
      | cons k past => simp at hpre
    rw [show last = "genesis" from hlast]
    exact (by decide : "genesis" ++ ":" ++ (1 : Nat).repr = "genesis:1")
  exact (Set.injOn_singleton _ _).mono (Set.union_subset (htext amountMicro) (htext amountMicro'))

/-- **Two ledgers with different transactions have one root.** -/
theorem root_blind : ¬∀ ops₁ ops₂, CollisionFree rootHash (rootTexts rootHash ops₁ ∪ rootTexts rootHash ops₂) →
    committedCounts rootHash ops₁ ≠ [] → (after rootHash ops₁).pool.root = (after rootHash ops₂).pool.root →
    (after rootHash ops₁).pool.committed = (after rootHash ops₂).pool.committed := by
  intro hall
  obtain ⟨hcommitted, hcounts⟩ := aliceTx_committed 100
  obtain ⟨hcommitted', hcounts'⟩ := aliceTx_committed 50
  have hroot : (after rootHash (commitOne (aliceTx 100))).pool.root =
      (after rootHash (commitOne (aliceTx 50))).pool.root := by
    rw [root_eq, root_eq, hcounts, hcounts']
  have hsame := hall _ _ (aliceTx_free 100 50) (by rw [hcounts]; exact List.cons_ne_nil _ _) hroot
  rw [hcommitted, hcommitted'] at hsame
  have hamount : (100 : UInt64) = 50 := congrArg ZkTransaction.amountMicro (List.cons.inj hsame).1
  exact absurd hamount (by decide)

/-- Both committed one transaction. -/
theorem root_counts : committedCounts rootHash (commitOne (aliceTx 100)) =
    committedCounts rootHash (commitOne (aliceTx 50)) := by
  have hroot : (after rootHash (commitOne (aliceTx 100))).pool.root =
      (after rootHash (commitOne (aliceTx 50))).pool.root := by
    rw [root_eq, root_eq, (aliceTx_committed 100).2, (aliceTx_committed 50).2]
  exact (roots_equal_iff rootHash _ _ (aliceTx_free 100 50)).mp hroot

end History

end Onde.Crypto

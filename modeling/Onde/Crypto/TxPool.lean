import Onde.Crypto.Primitives
import Mathlib.Data.List.Induction

/-!
# The pool of offline transactions

`TxPool.submit` queues a transaction whose nonce is not behind the sender's sequence, `TxPool.commitPending` moves the
head of the queue to the committed ones.

* `accounted`: in every history the accepted transactions are the committed ones followed by the pending ones;
* `nonce_lt_nextExpectedNonce`: the next expected nonce is past every nonce of the sender, unless the largest one is
  among them: its successor wraps to zero;
* `sound_iff`: nonces are distinct and increasing in a history exactly when the pool refuses, on other grounds, whatever
  a sender submits after its largest nonce.
-/

namespace Onde.Crypto

open Onde.Lib

/-! ## Transactions -/

/-- A proof of balance: a commitment to the fields of the transaction. -/
structure ZkProof where
  commitment : String
  publicInputs : List String
  proofData : Bytes

/-- The text a transaction is hashed as. -/
def txData (sender receiver : String) (amountMicro nonce : UInt64) : String :=
  sender ++ ":" ++ receiver ++ ":" ++ amountMicro.toNat.repr ++ ":" ++ nonce.toNat.repr

/-- An ASCII digit of a hexadecimal number, in either case. -/
def isAsciiHexdigit (ch : Char) : Bool := (hexVal ch).isSome

theorem isAsciiHexdigit_hexEncode (bs : Bytes) : ∀ ch ∈ (hexEncode bs).toList, isAsciiHexdigit ch = true := by
  intro ch hch
  obtain ⟨n, -, hn, -⟩ := hexVal_lower ((lowerHex_hexEncode bs).2 ch hch)
  rw [isAsciiHexdigit, hn, Option.isSome_some]

namespace ZkProof

variable (c : Primitives)

def prove (sender receiver : String) (amountMicro nonce : UInt64) : ZkProof where
  commitment := hexEncode (c.sha256 (utf8Bytes (txData sender receiver amountMicro nonce))).1
  publicInputs := [sender, receiver]
  proofData := (c.sha256 (utf8Bytes (txData sender receiver amountMicro nonce))).1

/-- Is the commitment the hexadecimal text of the proof's 32 bytes? -/
def verify (p : ZkProof) : Bool :=
  p.commitment.utf8ByteSize = 64 && p.commitment.toList.all isAsciiHexdigit && p.proofData.length = 32 &&
    hexEncode p.proofData = p.commitment

theorem verify_prove (sender receiver : String) (amountMicro nonce : UInt64) :
    (prove c sender receiver amountMicro nonce).verify = true := by
  have hlen := (c.sha256 (utf8Bytes (txData sender receiver amountMicro nonce))).2
  have hsize := utf8ByteSize_hexEncode (c.sha256 (utf8Bytes (txData sender receiver amountMicro nonce))).1
  have hdigits := isAsciiHexdigit_hexEncode (c.sha256 (utf8Bytes (txData sender receiver amountMicro nonce))).1
  rw [hlen] at hsize
  simpa [verify, prove, hsize, hlen] using hdigits

end ZkProof

structure ZkTransaction where
  txId : String
  sender : String
  receiver : String
  amountMicro : UInt64
  nonce : UInt64
  timestamp : UInt64
  zkProof : ZkProof
  committed : Bool

namespace ZkTransaction

variable (c : Primitives)

/-- A transaction with its proof; `now` is the clock. -/
def new (sender receiver : String) (amountMicro nonce now : UInt64) : ZkTransaction where
  txId := hexEncode (c.sha256 (utf8Bytes (txData sender receiver amountMicro nonce))).1
  sender := sender
  receiver := receiver
  amountMicro := amountMicro
  nonce := nonce
  timestamp := now
  zkProof := .prove c sender receiver amountMicro nonce
  committed := false

def hasValidProof (tx : ZkTransaction) : Bool :=
  if !tx.zkProof.verify then false
  else
    let expectedCommitment :=
      hexEncode (c.sha256 (utf8Bytes (txData tx.sender tx.receiver tx.amountMicro tx.nonce))).1
    tx.zkProof.commitment = expectedCommitment && tx.zkProof.publicInputs = [tx.sender, tx.receiver]

/-- The transaction marked as committed. -/
def commit (tx : ZkTransaction) : ZkTransaction := { tx with committed := true }

/-- What a nonce counts: the sender with it. -/
def key (tx : ZkTransaction) : String × UInt64 := (tx.sender, tx.nonce)

/-- **A new transaction has a valid proof.** -/
theorem hasValidProof_new (sender receiver : String) (amountMicro nonce now : UInt64) :
    (new c sender receiver amountMicro nonce now).hasValidProof c = true := by
  have hverify := ZkProof.verify_prove c sender receiver amountMicro nonce
  simp only [hasValidProof, new, hverify]
  simp [ZkProof.prove]

@[simp] theorem key_commit (tx : ZkTransaction) : tx.commit.key = tx.key := rfl

@[simp] theorem sender_commit (tx : ZkTransaction) : tx.commit.sender = tx.sender := rfl

@[simp] theorem nonce_commit (tx : ZkTransaction) : tx.commit.nonce = tx.nonce := rfl

end ZkTransaction

/-! ## The pool -/

/-- The pool. The state roots start with the genesis root and only grow. -/
structure TxPool where
  pending : List ZkTransaction
  committed : List ZkTransaction
  stateRoots : List String
  hasRoot : stateRoots ≠ []

namespace TxPool

def new : TxPool := ⟨[], [], ["genesis"], by simp⟩

/-- Every transaction of the pool. -/
def all (pool : TxPool) : List ZkTransaction := pool.pending ++ pool.committed

/-- One turn of the loop of `nextExpectedNonce`. The sum wraps at `2^64`. -/
def raise (sender : String) (next : UInt64) (tx : ZkTransaction) : UInt64 :=
  if tx.sender = sender then max next (tx.nonce + 1) else next

def nextExpectedNonce (pool : TxPool) (sender : String) : UInt64 := pool.all.foldl (raise sender) 0

/-- Is the nonce pending for the sender? -/
def isDuplicate (pool : TxPool) (tx : ZkTransaction) : Bool :=
  pool.pending.any fun t => t.sender = tx.sender && t.nonce = tx.nonce

variable (c : Primitives)

def submit (pool : TxPool) (tx : ZkTransaction) : Except String TxPool :=
  if !tx.hasValidProof c then .error "Invalid ZK proof"
  else if pool.isDuplicate tx then .error "Duplicate nonce"
  else
    let expected := pool.nextExpectedNonce tx.sender
    if tx.nonce < expected then .error "Stale nonce"
    else .ok { pool with pending := pool.pending ++ [tx] }

/-- The committed batch, and the pool after it. -/
def commitPending (pool : TxPool) (maxBatch : Nat) : List ZkTransaction × TxPool :=
  let batchSize := min maxBatch pool.pending.length
  let batch := (pool.pending.take batchSize).map .commit
  let committed := pool.committed ++ batch
  let moved := { pool with pending := pool.pending.drop batchSize, committed }
  if batch.isEmpty then (batch, moved)
  else
    let last := pool.stateRoots.getLast pool.hasRoot
    let newRoot := hexEncode (c.sha256 (utf8Bytes (last ++ ":" ++ committed.length.repr))).1
    (batch, { moved with stateRoots := pool.stateRoots ++ [newRoot], hasRoot := by simp })

/-- The checks of `submit` that a transaction fails. -/
def Refused (pool : TxPool) (tx : ZkTransaction) : Prop :=
  tx.hasValidProof c = false ∨ pool.isDuplicate tx = true ∨ tx.nonce < pool.nextExpectedNonce tx.sender

variable {c} {pool pool' : TxPool} {tx : ZkTransaction}

theorem submit_ok : pool.submit c tx = .ok pool' ↔
    ¬pool.Refused c tx ∧ { pool with pending := pool.pending ++ [tx] } = pool' := by
  unfold submit Refused
  cases tx.hasValidProof c with
  | false => simp
  | true =>
    cases pool.isDuplicate tx with
    | true => simp
    | false => by_cases hlt : tx.nonce < pool.nextExpectedNonce tx.sender <;> simp [hlt]

theorem pending_commitPending (maxBatch : Nat) :
    (pool.commitPending c maxBatch).2.pending = pool.pending.drop (min maxBatch pool.pending.length) := by
  unfold commitPending
  dsimp only
  split <;> rfl

theorem committed_commitPending (maxBatch : Nat) : (pool.commitPending c maxBatch).2.committed =
    pool.committed ++ (pool.pending.take (min maxBatch pool.pending.length)).map .commit := by
  unfold commitPending
  dsimp only
  split <;> rfl

/-! ## The next expected nonce -/

/-- The largest nonce. -/
def maxNonce : UInt64 := 18446744073709551615

/-- The sender's sequence is at its end: its largest nonce is in the pool. -/
def Exhausted (pool : TxPool) (sender : String) : Prop :=
  ∃ t ∈ pool.all, t.sender = sender ∧ t.nonce = maxNonce

theorem toNat_succ {n : UInt64} (h : n ≠ maxNonce) : (n + 1).toNat = n.toNat + 1 := by
  have hlt := n.toNat_lt
  have hne : n.toNat ≠ 18446744073709551615 := fun e => h (UInt64.toNat_inj.mp e)
  rw [UInt64.toNat_add]
  simp only [UInt64.toNat_one]
  omega

theorem toNat_max (a b : UInt64) : (max a b).toNat = max a.toNat b.toNat := by
  rw [show max a b = if a ≤ b then b else a from rfl]
  split <;> rename_i h <;> rw [UInt64.le_iff_toNat_le] at h <;> omega

/-- The loop never lowers its result. -/
theorem le_foldl_raise (sender : String) : ∀ (txs : List ZkTransaction) (next : UInt64),
    next.toNat ≤ (txs.foldl (raise sender) next).toNat
  | [], _ => Nat.le_refl _
  | t :: txs, next => by
    refine Nat.le_trans ?_ (le_foldl_raise sender txs (raise sender next t))
    unfold raise
    split
    · rw [toNat_max]
      exact Nat.le_max_left ..
    · exact Nat.le_refl _

/-- The loop ends past every nonce of the sender but the largest. -/
theorem nonce_lt_foldl_raise {sender : String} : ∀ {txs : List ZkTransaction} {next : UInt64}, tx ∈ txs →
    tx.sender = sender → tx.nonce ≠ maxNonce → tx.nonce.toNat < (txs.foldl (raise sender) next).toNat
  | t :: txs, next, hmem, hs, hn => by
    rw [List.foldl_cons]
    rcases List.mem_cons.mp hmem with rfl | hrest
    · have hle := le_foldl_raise sender txs (raise sender next tx)
      rw [raise, if_pos hs, toNat_max, toNat_succ hn] at hle
      have hmax := Nat.le_max_right next.toNat (tx.nonce.toNat + 1)
      rw [raise, if_pos hs]
      omega
    · exact nonce_lt_foldl_raise hrest hs hn

/-- **The next expected nonce is past every nonce of the sender, unless its largest one was used.** -/
theorem nonce_lt_nextExpectedNonce {sender : String} (hx : ¬pool.Exhausted sender) (hmem : tx ∈ pool.all)
    (hs : tx.sender = sender) : tx.nonce < pool.nextExpectedNonce sender :=
  UInt64.lt_iff_toNat_lt.mpr (nonce_lt_foldl_raise hmem hs fun hn => hx ⟨tx, hmem, hs, hn⟩)

end TxPool

/-! ## Histories -/

inductive PoolOp where
  | submit (tx : ZkTransaction)
  | commitPending (maxBatch : Nat)

/-- The pool, with every transaction it accepted in the order of acceptance. -/
structure History where
  pool : TxPool
  accepted : List ZkTransaction

namespace History

def start : History := ⟨.new, []⟩

def step (c : Primitives) (h : History) : PoolOp → History
  | .submit tx =>
    match h.pool.submit c tx with
    | .ok pool => ⟨pool, h.accepted ++ [tx]⟩
    | .error _ => h
  | .commitPending maxBatch => ⟨(h.pool.commitPending c maxBatch).2, h.accepted⟩

/-- The history after a sequence of calls. -/
def after (c : Primitives) (ops : List PoolOp) : History := ops.foldl (step c) start

/-- The committed transactions are the first accepted ones, in their order; the pending ones are the others. -/
def Accounted (h : History) : Prop :=
  ∃ done, h.accepted = done ++ h.pool.pending ∧ h.pool.committed = done.map .commit

/-- The nonces accepted for a sender increase. -/
def Increasing (h : History) : Prop := h.accepted.Pairwise fun t u => t.sender = u.sender → t.nonce < u.nonce

/-- No sender has a nonce twice in the pool. -/
def Distinct (h : History) : Prop := (h.pool.all.map ZkTransaction.key).Nodup

/-- No double nonce, no loss. -/
structure Sound (h : History) : Prop where
  accounted : h.Accounted
  increasing : h.Increasing
  distinct : h.Distinct

variable {c : Primitives} {h : History} {tx : ZkTransaction}

theorem after_append (ops : List PoolOp) (op : PoolOp) : after c (ops ++ [op]) = (after c ops).step c op := by
  rw [after, List.foldl_append]
  rfl

/-- An accepted submission is queued and recorded. -/
theorem step_submit (hr : ¬h.pool.Refused c tx) :
    h.step c (.submit tx) = ⟨{ h.pool with pending := h.pool.pending ++ [tx] }, h.accepted ++ [tx]⟩ := by
  rw [step, TxPool.submit_ok.mpr ⟨hr, rfl⟩]

/-- A refused submission changes nothing. -/
theorem step_refused (hr : h.pool.Refused c tx) : h.step c (.submit tx) = h := by
  rw [step]
  cases hs : h.pool.submit c tx with
  | error e => rfl
  | ok pool => exact absurd hr (TxPool.submit_ok.mp hs).1

/-! ## No loss -/

theorem Accounted.step (ha : h.Accounted) (op : PoolOp) : (h.step c op).Accounted := by
  obtain ⟨done, haccepted, hcommitted⟩ := ha
  cases op with
  | submit tx =>
    by_cases hr : h.pool.Refused c tx
    · rw [step_refused hr]
      exact ⟨done, haccepted, hcommitted⟩
    · rw [step_submit hr]
      exact ⟨done, by rw [haccepted, List.append_assoc], hcommitted⟩
  | commitPending maxBatch =>
    -- the batch is cut from the head of the queue
    let batch := h.pool.pending.take (min maxBatch h.pool.pending.length)
    refine ⟨done ++ batch, ?_, ?_⟩
    · show h.accepted = done ++ batch ++ (h.pool.commitPending c maxBatch).2.pending
      rw [TxPool.pending_commitPending, List.append_assoc, List.take_append_drop, haccepted]
    · show (h.pool.commitPending c maxBatch).2.committed = (done ++ batch).map .commit
      rw [TxPool.committed_commitPending, hcommitted, List.map_append]

/-- **In every history the committed transactions and then the pending ones are the accepted ones, in their order.** -/
theorem accounted (c : Primitives) (ops : List PoolOp) : (after c ops).Accounted := by
  induction ops using List.reverseRecOn with
  | nil => exact ⟨[], rfl, rfl⟩
  | append_singleton ops op ih =>
    rw [after_append]
    exact ih.step op

/-- The nonces of the pool are the accepted ones. -/
theorem Accounted.keys (ha : h.Accounted) :
    (h.pool.all.map ZkTransaction.key).Perm (h.accepted.map ZkTransaction.key) := by
  obtain ⟨done, haccepted, hcommitted⟩ := ha
  rw [TxPool.all, haccepted, hcommitted, List.map_append, List.map_append, List.map_map]
  exact List.perm_append_comm

/-- The pool holds an accepted transaction, committed or not. -/
theorem Accounted.mem_key (ha : h.Accounted) {sender : String} {nonce : UInt64} :
    (∃ t ∈ h.pool.all, t.sender = sender ∧ t.nonce = nonce) ↔
      ∃ t ∈ h.accepted, t.sender = sender ∧ t.nonce = nonce := by
  have hperm := ha.keys.mem_iff (a := (sender, nonce))
  simpa [ZkTransaction.key, List.mem_map, Prod.ext_iff] using hperm

/-! ## No double nonce -/

/-- Increasing nonces are distinct. -/
theorem Increasing.distinct (ha : h.Accounted) (hi : h.Increasing) : h.Distinct := by
  rw [Distinct, ha.keys.nodup_iff, List.Nodup, List.pairwise_map]
  refine hi.imp fun {t u} hlt hkey => ?_
  have hn := UInt64.lt_iff_toNat_lt.mp (hlt (congrArg Prod.fst hkey))
  rw [show t.nonce = u.nonce from congrArg Prod.snd hkey] at hn
  exact absurd hn (Nat.lt_irrefl _)

theorem Increasing.step (ha : h.Accounted) (hi : h.Increasing) {op : PoolOp}
    (hop : ∀ tx, op = .submit tx → h.pool.Exhausted tx.sender → h.pool.Refused c tx) :
    (h.step c op).Increasing := by
  cases op with
  | commitPending maxBatch => exact hi
  | submit tx =>
    by_cases hr : h.pool.Refused c tx
    · rw [step_refused hr]
      exact hi
    · rw [step_submit hr]
      refine List.pairwise_append.mpr ⟨hi, List.pairwise_singleton _ _, fun t ht u hu hs => ?_⟩
      rw [List.mem_singleton.mp hu] at hs ⊢
      obtain ⟨t', ht', hs', hn'⟩ := ha.mem_key.mpr ⟨t, ht, hs, rfl⟩
      have hlt := TxPool.nonce_lt_nextExpectedNonce (fun hx => hr (hop tx rfl hx)) ht' hs'
      have hge : ¬tx.nonce < h.pool.nextExpectedNonce tx.sender := fun hlt => hr (.inr (.inr hlt))
      rw [hn'] at hlt
      rw [UInt64.lt_iff_toNat_lt] at hlt hge ⊢
      omega

/-- A transaction accepted after the sender's largest nonce breaks the order. -/
theorem not_increasing_submit (ha : h.Accounted) (hx : h.pool.Exhausted tx.sender) (hr : ¬h.pool.Refused c tx) :
    ¬(h.step c (.submit tx)).Increasing := by
  rw [step_submit hr]
  intro hi
  obtain ⟨t, ht, hs, hn⟩ := ha.mem_key.mp hx
  have hlt := (List.pairwise_append.mp hi).2.2 t ht tx (List.mem_singleton.mpr rfl) hs
  have hbound := tx.nonce.toNat_lt
  rw [hn, UInt64.lt_iff_toNat_lt] at hlt
  have hmax : TxPool.maxNonce.toNat = 18446744073709551615 := rfl
  omega

/-- **No double nonce and no loss at every moment of a history, exactly when whatever a sender submits after its largest
nonce fails a check of the pool.** -/
theorem sound_iff (c : Primitives) (ops : List PoolOp) :
    (∀ past, past <+: ops → (after c past).Sound) ↔
      ∀ past tx, past ++ [.submit tx] <+: ops → (after c past).pool.Exhausted tx.sender →
        (after c past).pool.Refused c tx := by
  constructor
  · intro hsound past tx hpre hx
    by_contra hr
    have hi := (hsound _ hpre).increasing
    rw [after_append] at hi
    exact not_increasing_submit (accounted c past) hx hr hi
  · intro hops past hpre
    have hi : (after c past).Increasing := by
      induction past using List.reverseRecOn with
      | nil => exact List.Pairwise.nil
      | append_singleton past op ih =>
        rw [after_append]
        refine (ih ((List.prefix_append _ _).trans hpre)).step (accounted c past) fun tx htx => ?_
        subst htx
        exact hops past tx hpre
    exact ⟨accounted c past, hi, hi.distinct (accounted c past)⟩

/-! ## The largest nonce twice -/

/-- **A committed transaction with the sender's largest nonce is accepted again.** -/
theorem accepted_again (hvalid : tx.hasValidProof c = true) (hn : tx.nonce = TxPool.maxNonce) :
    (after c [.submit tx, .commitPending 1, .submit tx]).accepted = [tx, tx] := by
  have hfresh : ¬start.pool.Refused c tx := by
    simp [TxPool.Refused, hvalid, start, TxPool.new, TxPool.isDuplicate, TxPool.nextExpectedNonce, TxPool.all]
  have hwrap : max (0 : UInt64) (TxPool.maxNonce + 1) = 0 := by decide
  let committed := (start.step c (.submit tx)).step c (.commitPending 1)
  have hcommitted : committed = ⟨(TxPool.commitPending c { start.pool with pending := [tx] } 1).2, [tx]⟩ := by
    simp only [committed, step_submit hfresh]
    rfl
  have hpending : committed.pool.pending = [] := by
    rw [hcommitted, TxPool.pending_commitPending]
    rfl
  have hall : committed.pool.all = [tx.commit] := by
    rw [TxPool.all, hpending, hcommitted, TxPool.committed_commitPending]
    rfl
  have hagain : ¬committed.pool.Refused c tx := by
    simp [TxPool.Refused, hvalid, TxPool.isDuplicate, hpending, TxPool.nextExpectedNonce, hall, TxPool.raise, hn, hwrap]
  show (committed.step c (.submit tx)).accepted = [tx, tx]
  rw [step_submit hagain, hcommitted]
  rfl

/-- The digest of the text of Alice's last transaction. -/
def lastHash : Primitives := .ofKnownBytes
  { publicKey := beArr 32 0
    digests := [(utf8Bytes (txData "alice" "bob" 100 TxPool.maxNonce),
      beArr 32 0x425d05975acb56d8ea4d85d3d892572f558c115efc9e059ada0836510c8a7b7f)]
    signatures := [] }

/-- Alice's transaction with the largest nonce. -/
def lastTx : ZkTransaction := .new lastHash "alice" "bob" 100 TxPool.maxNonce 1700000000

/-- Submitted, committed and submitted again, it is in the pool twice. -/
theorem last_nonce_twice :
    ¬(after lastHash [.submit lastTx, .commitPending 1, .submit lastTx]).Distinct ∧
      ¬(after lastHash [.submit lastTx, .commitPending 1, .submit lastTx]).Increasing := by
  have hvalid := ZkTransaction.hasValidProof_new lastHash "alice" "bob" 100 TxPool.maxNonce 1700000000
  have htwice := accepted_again hvalid rfl
  constructor
  · intro hd
    rw [Distinct, (accounted _ _).keys.nodup_iff, lastTx, htwice] at hd
    simp at hd
  · intro hi
    rw [Increasing, lastTx, htwice] at hi
    simp [UInt64.lt_iff_toNat_lt] at hi

end History

end Onde.Crypto

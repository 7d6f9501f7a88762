import Onde.Crypto.TxPool
import Mathlib.Data.List.Basic
import Mathlib.Data.List.Induction

/-!
# The senders of the pool

The pool queues the transactions of all senders in one list and commits it in batches of any size.

* `serves_alone`: a sender sees none of that. Accepted of it are the valid submissions whose nonce is beyond those
  accepted before, as if the pool were its own;
* `own_numbered`: the transactions that the node itself sends are numbered 0, 1, 2, ..., none is refused, and they are
  committed in this order.
-/

namespace Onde.Crypto

open Onde.Lib

/-! ## The next expected nonce -/

namespace TxPool

/-- Does the sender's sequence of the pool stop before the bound? -/
def Within (txs : List ZkTransaction) (sender : String) (n : Nat) : Prop :=
  ∀ t ∈ txs, t.sender = sender → t.nonce.toNat < n

/-- **The loop ends at the least bound on the nonces of the sender**, if its largest one is not among them. -/
theorem foldl_raise_le {sender : String} {n : Nat} : ∀ {txs : List ZkTransaction} {next : UInt64},
    (∀ t ∈ txs, t.sender = sender → t.nonce ≠ maxNonce) →
      ((txs.foldl (raise sender) next).toNat ≤ n ↔ next.toNat ≤ n ∧ Within txs sender n)
  | [], next, _ => by simp [Within]
  | t :: txs, next, hmax => by
    have ih := @foldl_raise_le sender n txs (raise sender next t) fun u hu => hmax u (List.mem_cons_of_mem t hu)
    rw [List.foldl_cons, ih]
    have hraise : (raise sender next t).toNat ≤ n ↔ next.toNat ≤ n ∧ (t.sender = sender → t.nonce.toNat < n) := by
      unfold raise
      split
      case isTrue hs =>
        rw [toNat_max, toNat_succ (hmax t List.mem_cons_self hs), Nat.max_le, Nat.add_one_le_iff]
        simp [hs]
      case isFalse hs => simp [hs]
    rw [hraise, and_assoc]
    simp [Within]

end TxPool

namespace History

variable {c : Primitives} {h : History} {tx : ZkTransaction} {sender : String}

/-- The same of the accepted transactions. -/
theorem Accounted.exhausted_iff (ha : h.Accounted) :
    h.pool.Exhausted sender ↔ ∃ t ∈ h.accepted, t.sender = sender ∧ t.nonce = TxPool.maxNonce := ha.mem_key

theorem Accounted.within_iff (ha : h.Accounted) {n : Nat} :
    TxPool.Within h.pool.all sender n ↔ TxPool.Within h.accepted sender n := by
  constructor
  · intro hw t ht hs
    obtain ⟨u, hu, hs', hn⟩ := ha.mem_key.mpr ⟨t, ht, hs, rfl⟩
    exact hn ▸ hw u hu hs'
  · intro hw t ht hs
    obtain ⟨u, hu, hs', hn⟩ := ha.mem_key.mp ⟨t, ht, hs, rfl⟩
    exact hn ▸ hw u hu hs'

/-- The next expected nonce is the least bound on the accepted ones. -/
theorem Accounted.nextExpectedNonce_le (ha : h.Accounted) (hx : ¬h.pool.Exhausted sender) {n : Nat} :
    (h.pool.nextExpectedNonce sender).toNat ≤ n ↔ TxPool.Within h.accepted sender n := by
  have hmax : ∀ t ∈ h.pool.all, t.sender = sender → t.nonce ≠ TxPool.maxNonce :=
    fun t ht hs hn => hx ⟨t, ht, hs, hn⟩
  rw [TxPool.nextExpectedNonce, TxPool.foldl_raise_le hmax, ha.within_iff]
  simp

/-- **The pool accepts what is valid and beyond the sender's accepted nonces**, until its largest one is used. -/
theorem Accounted.refused_iff (ha : h.Accounted) (hx : ¬h.pool.Exhausted tx.sender) :
    ¬h.pool.Refused c tx ↔ tx.hasValidProof c = true ∧ TxPool.Within h.accepted tx.sender tx.nonce.toNat := by
  rw [← ha.nextExpectedNonce_le hx]
  constructor
  · intro hr
    refine ⟨by_contra fun hv => hr (.inl (Bool.eq_false_iff.mpr hv)), ?_⟩
    exact Nat.not_lt.mp fun hlt => hr (.inr (.inr (UInt64.lt_iff_toNat_lt.mpr hlt)))
  · rintro ⟨hvalid, hle⟩ (hv | hdup | hlt)
    · rw [hvalid] at hv
      cases hv
    · -- a pending duplicate is behind the sequence
      obtain ⟨t, ht, heq⟩ := List.any_eq_true.mp hdup
      have hkey : t.sender = tx.sender ∧ t.nonce = tx.nonce := by simpa using heq
      have hbehind := TxPool.nonce_lt_nextExpectedNonce hx (List.mem_append_left _ ht) hkey.1
      rw [hkey.2, UInt64.lt_iff_toNat_lt] at hbehind
      omega
    · exact absurd (UInt64.lt_iff_toNat_lt.mp hlt) (by omega)

end History

/-! ## A pool for one sender -/

/-- A pool of one sender takes a valid transaction beyond those it took. -/
def serve (c : Primitives) (taken : List ZkTransaction) (tx : ZkTransaction) : List ZkTransaction :=
  if tx.hasValidProof c ∧ ∀ t ∈ taken, t.nonce.toNat < tx.nonce.toNat then taken ++ [tx] else taken

/-- What it takes of the submissions. -/
def serveAll (c : Primitives) (txs : List ZkTransaction) : List ZkTransaction := txs.foldl (serve c) []

/-- The submission of a call. -/
def PoolOp.submission : PoolOp → Option ZkTransaction
  | .submit tx => some tx
  | .commitPending _ => none

/-- What is submitted in the name of the sender. -/
def submissionsOf (sender : String) (ops : List PoolOp) : List ZkTransaction :=
  (ops.filterMap PoolOp.submission).filter (·.sender = sender)

namespace History

variable {c : Primitives} {h : History} {tx : ZkTransaction} {sender : String}

/-- What the pool accepted of the sender. -/
def acceptedOf (h : History) (sender : String) : List ZkTransaction := h.accepted.filter (·.sender = sender)

theorem mem_acceptedOf : tx ∈ h.acceptedOf sender ↔ tx ∈ h.accepted ∧ tx.sender = sender := by simp [acceptedOf]

/-- The submission of another sender changes nothing for this one, -/
theorem acceptedOf_other (hs : tx.sender ≠ sender) :
    (h.step c (.submit tx)).acceptedOf sender = h.acceptedOf sender := by
  by_cases hr : h.pool.Refused c tx
  · rw [step_refused hr]
  · rw [step_submit hr]
    simp [acceptedOf, hs]

/-- and its own is served as by a pool of its own. -/
theorem Accounted.acceptedOf_submit (ha : h.Accounted) (hx : ¬h.pool.Exhausted tx.sender) :
    (h.step c (.submit tx)).acceptedOf tx.sender = serve c (h.acceptedOf tx.sender) tx := by
  have hiff : ¬h.pool.Refused c tx ↔
      tx.hasValidProof c ∧ ∀ t ∈ h.acceptedOf tx.sender, t.nonce.toNat < tx.nonce.toNat := by
    rw [ha.refused_iff hx]
    simp only [TxPool.Within, mem_acceptedOf, and_imp]
  by_cases hr : h.pool.Refused c tx
  · rw [step_refused hr, serve, if_neg fun hc => hiff.mpr hc hr]
  · rw [step_submit hr, serve, if_pos (hiff.mp hr)]
    simp [acceptedOf]

/-- Only what is submitted is accepted. -/
theorem acceptedOf_subset (c : Primitives) (ops : List PoolOp) (sender : String) :
    (after c ops).acceptedOf sender ⊆ submissionsOf sender ops := by
  induction ops using List.reverseRecOn with
  | nil => exact List.Subset.refl _
  | append_singleton ops op ih =>
    intro t ht
    rw [after_append] at ht
    have hold : ∀ u ∈ (after c ops).acceptedOf sender, u ∈ submissionsOf sender (ops ++ [op]) := by
      intro u hu
      have hmem := ih hu
      simp only [submissionsOf, List.filterMap_append, List.filter_append] at hmem ⊢
      exact List.mem_append_left _ hmem
    cases op with
    | commitPending maxBatch => exact hold t ht
    | submit tx =>
      by_cases hr : (after c ops).pool.Refused c tx
      · rw [step_refused hr] at ht
        exact hold t ht
      · rw [step_submit hr, mem_acceptedOf] at ht
        rcases List.mem_append.mp ht.1 with hpast | hnew
        · exact hold t (mem_acceptedOf.mpr ⟨hpast, ht.2⟩)
        · rw [List.mem_singleton.mp hnew] at ht ⊢
          simp [submissionsOf, PoolOp.submission, ht.2]

theorem acceptedOf_eq (c : Primitives) (ops : List PoolOp) (sender : String)
    (hmax : ∀ tx ∈ submissionsOf sender ops, tx.nonce ≠ TxPool.maxNonce) :
    (after c ops).acceptedOf sender = serveAll c (submissionsOf sender ops) := by
  induction ops using List.reverseRecOn with
  | nil => rfl
  | append_singleton ops op ih =>
    have hsub : submissionsOf sender (ops ++ [op]) = submissionsOf sender ops ++ submissionsOf sender [op] := by
      simp [submissionsOf]
    rw [hsub] at hmax
    have hpast := ih fun tx htx => hmax tx (List.mem_append_left _ htx)
    rw [after_append, hsub, serveAll, List.foldl_append]
    cases op with
    | commitPending maxBatch => exact hpast
    | submit tx =>
      by_cases hs : tx.sender = sender
      · subst hs
        have hx : ¬(after c ops).pool.Exhausted tx.sender := by
          rw [(accounted c ops).exhausted_iff]
          rintro ⟨t, ht, hts, hn⟩
          have hmem := acceptedOf_subset c ops tx.sender (mem_acceptedOf.mpr ⟨ht, hts⟩)
          exact hmax t (List.mem_append_left _ hmem) hn
        rw [(accounted c ops).acceptedOf_submit hx, hpast]
        simp [submissionsOf, PoolOp.submission, serveAll]
      · rw [acceptedOf_other hs, hpast]
        simp [submissionsOf, PoolOp.submission, hs, serveAll]

/-- The pool holds the transactions of the sender, the first of them committed, the others pending. -/
def Holds (h : History) (sender : String) (txs : List ZkTransaction) : Prop :=
  ∃ done, txs = done ++ h.pool.pending.filter (·.sender = sender) ∧
    h.pool.committed.filter (·.sender = sender) = done.map .commit

theorem Accounted.holds (ha : h.Accounted) (sender : String) : h.Holds sender (h.acceptedOf sender) := by
  obtain ⟨done, haccepted, hcommitted⟩ := ha
  refine ⟨done.filter (·.sender = sender), ?_, ?_⟩
  · rw [acceptedOf, haccepted, List.filter_append]
  · rw [hcommitted, List.filter_map]
    rfl

/-- **A sender is served as by a pool of its own**, whatever the others submit and however the pool is committed, as
long as it does not submit the largest nonce. -/
theorem serves_alone (c : Primitives) (ops : List PoolOp) (sender : String)
    (hmax : ∀ tx ∈ submissionsOf sender ops, tx.nonce ≠ TxPool.maxNonce) :
    (after c ops).Holds sender (serveAll c (submissionsOf sender ops)) := by
  rw [← acceptedOf_eq c ops sender hmax]
  exact (accounted c ops).holds sender

/-- Alice's first transaction. -/
def firstTx : ZkTransaction := .new lastHash "alice" "bob" 100 0 1700000000

/-- A refused repetition, a commit and a refused forgery of Bob leave Alice what she submitted. -/
theorem serves_alone_first : (after lastHash [.submit firstTx, .submit firstTx, .commitPending 1,
    .submit { firstTx with sender := "bob" }]).Holds "alice" (serveAll lastHash [firstTx, firstTx]) :=
  serves_alone lastHash [.submit firstTx, .submit firstTx, .commitPending 1, .submit { firstTx with sender := "bob" }]
    "alice" fun tx htx => by
      have hsub : submissionsOf "alice" [.submit firstTx, .submit firstTx, .commitPending 1,
          .submit { firstTx with sender := "bob" }] = [firstTx, firstTx] := by
        simp [submissionsOf, PoolOp.submission, firstTx, ZkTransaction.new]
      rw [hsub] at htx
      rw [show tx = firstTx by simpa using htx]
      decide

end History

/-! ## The node's own transactions -/

/-- A request for a transaction, and when it is made. -/
structure SendRequest where
  receiver : String
  amountMicro : UInt64
  now : UInt64

/-- A node with the key sends a transaction. -/
def sendTransaction (c : Primitives) (key : String) (pool : TxPool) (r : SendRequest) :
    Except String (ZkTransaction × TxPool) := do
  let nonce := pool.nextExpectedNonce key
  let tx := ZkTransaction.new c key r.receiver r.amountMicro nonce r.now
  let pool ← pool.submit c tx
  .ok (tx, pool)

/-- What happens to the pool of a node: it sends, others submit, it commits. -/
inductive LedgerOp where
  | sendTransaction (r : SendRequest)
  | submit (tx : ZkTransaction)
  | commitTransactions (maxBatch : Nat)

/-- The pool with its history, and what the sends returned. -/
structure Ledger where
  history : History
  results : List (Except String ZkTransaction)

namespace Ledger

def step (c : Primitives) (key : String) (l : Ledger) : LedgerOp → Ledger
  | .sendTransaction r =>
    match Crypto.sendTransaction c key l.history.pool r with
    | .ok (tx, pool) => ⟨⟨pool, l.history.accepted ++ [tx]⟩, l.results ++ [.ok tx]⟩
    | .error e => { l with results := l.results ++ [.error e] }
  | .submit tx => { l with history := l.history.step c (.submit tx) }
  | .commitTransactions maxBatch => { l with history := l.history.step c (.commitPending maxBatch) }

def run (c : Primitives) (key : String) (ops : List LedgerOp) : Ledger := ops.foldl (step c key) ⟨.start, []⟩

end Ledger

def LedgerOp.request : LedgerOp → Option SendRequest
  | .sendTransaction r => some r
  | _ => none

def requests (ops : List LedgerOp) : List SendRequest := ops.filterMap LedgerOp.request

/-- The transactions of the requests, numbered in their order. -/
def numbered (c : Primitives) (key : String) (rs : List SendRequest) : List ZkTransaction :=
  rs.zipIdx.map fun (r, i) => .new c key r.receiver r.amountMicro (.ofNat i) r.now

namespace Ledger

variable {c : Primitives} {key : String} {l : Ledger} {rs : List SendRequest}

theorem numbered_append (r : SendRequest) : numbered c key (rs ++ [r]) =
    numbered c key rs ++ [.new c key r.receiver r.amountMicro (.ofNat rs.length) r.now] := by
  simp [numbered, List.zipIdx_append]

theorem toNat_number {n : Nat} (h : n < 2 ^ 64) : (UInt64.ofNat n).toNat = n :=
  UInt64.toNat_ofNat_of_lt' (by simp only [UInt64.size]; omega)

/-- The numbers of the transactions are those below their count. -/
theorem exists_numbered_iff (hlen : rs.length ≤ 2 ^ 64) {n : Nat} :
    (∃ t ∈ numbered c key rs, t.nonce.toNat = n) ↔ n < rs.length := by
  constructor
  · rintro ⟨t, ht, rfl⟩
    obtain ⟨⟨r, i⟩, hmem, rfl⟩ := List.mem_map.mp ht
    have hi : i < rs.length := by simpa using List.snd_lt_of_mem_zipIdx hmem
    show (UInt64.ofNat i).toNat < rs.length
    rw [toNat_number (by omega)]
    exact hi
  · intro hn
    refine ⟨_, List.mem_map.mpr ⟨(rs.get ⟨n, hn⟩, n), ?_, rfl⟩, ?_⟩
    · exact List.mem_zipIdx_iff_getElem?.mpr (by simp [hn])
    · exact toNat_number (by omega)

/-- The accepted transactions of the key are the requested ones, numbered, and each was returned. -/
structure Numbered (c : Primitives) (key : String) (rs : List SendRequest) (l : Ledger) : Prop where
  accounted : l.history.Accounted
  accepted : l.history.acceptedOf key = numbered c key rs
  results : l.results = (numbered c key rs).map .ok

/-- The next number is the count of the requests so far. -/
theorem Numbered.next (h : Numbered c key rs l) (hlen : rs.length < 2 ^ 64) :
    ¬l.history.pool.Exhausted key ∧ l.history.pool.nextExpectedNonce key = .ofNat rs.length ∧
      TxPool.Within l.history.accepted key rs.length := by
  have hmem : ∀ n, (∃ t ∈ l.history.accepted, t.sender = key ∧ t.nonce.toNat = n) ↔ n < rs.length := by
    intro n
    rw [← @exists_numbered_iff c key rs (by omega) n, ← h.accepted]
    simp only [History.mem_acceptedOf, and_assoc]
  have hwithin : TxPool.Within l.history.accepted key rs.length := fun t ht hs => (hmem _).mp ⟨t, ht, hs, rfl⟩
  have hx : ¬l.history.pool.Exhausted key := by
    rw [h.accounted.exhausted_iff]
    rintro ⟨t, ht, hs, hn⟩
    have hlt := hwithin t ht hs
    have hmax : TxPool.maxNonce.toNat = 18446744073709551615 := rfl
    rw [hn] at hlt
    omega
  refine ⟨hx, UInt64.toNat_inj.mp ?_, hwithin⟩
  rw [toNat_number hlen]
  refine Nat.le_antisymm ((h.accounted.nextExpectedNonce_le hx).mpr hwithin) ?_
  -- the last number is behind the next one
  by_contra hlt
  obtain ⟨t, ht, hs, hn⟩ := (hmem (rs.length - 1)).mpr (by omega)
  have hbehind := (h.accounted.nextExpectedNonce_le hx).mp (Nat.le_refl _) t ht hs
  omega

/-- A send takes the next number, -/
theorem Numbered.send (h : Numbered c key rs l) (hlen : rs.length < 2 ^ 64) (r : SendRequest) :
    Numbered c key (rs ++ [r]) (l.step c key (.sendTransaction r)) := by
  obtain ⟨hx, hnext, hwithin⟩ := h.next hlen
  let tx := ZkTransaction.new c key r.receiver r.amountMicro (.ofNat rs.length) r.now
  have hfresh : ¬l.history.pool.Refused c tx := by
    refine (h.accounted.refused_iff hx).mpr ⟨ZkTransaction.hasValidProof_new c key _ _ _ _, ?_⟩
    show TxPool.Within l.history.accepted key (UInt64.ofNat rs.length).toNat
    rwa [toNat_number hlen]
  have hstep : l.step c key (.sendTransaction r) = ⟨l.history.step c (.submit tx), l.results ++ [.ok tx]⟩ := by
    have hsent : Crypto.sendTransaction c key l.history.pool r =
        .ok (tx, { l.history.pool with pending := l.history.pool.pending ++ [tx] }) := by
      rw [Crypto.sendTransaction]
      dsimp only
      rw [hnext, TxPool.submit_ok.mpr ⟨hfresh, rfl⟩]
      rfl
    rw [History.step_submit hfresh, step, hsent]
  rw [hstep]
  refine ⟨h.accounted.step _, ?_, ?_⟩
  · show (l.history.step c (.submit tx)).acceptedOf key = _
    rw [History.step_submit hfresh, numbered_append, ← h.accepted]
    simp [History.acceptedOf, tx, ZkTransaction.new]
  · rw [h.results, numbered_append, List.map_append]
    rfl

/-- and nobody else's step takes one. -/
theorem Numbered.others (h : Numbered c key rs l) {tx : ZkTransaction} (hs : tx.sender ≠ key) :
    Numbered c key rs (l.step c key (.submit tx)) :=
  ⟨h.accounted.step _, (History.acceptedOf_other hs).trans h.accepted, h.results⟩

theorem Numbered.commit (h : Numbered c key rs l) (maxBatch : Nat) :
    Numbered c key rs (l.step c key (.commitTransactions maxBatch)) :=
  ⟨h.accounted.step _, h.accepted, h.results⟩

theorem numbered_run (c : Primitives) (key : String) (ops : List LedgerOp)
    (hothers : ∀ tx, .submit tx ∈ ops → tx.sender ≠ key) (hlen : (requests ops).length ≤ 2 ^ 64) :
    Numbered c key (requests ops) (run c key ops) := by
  induction ops using List.reverseRecOn with
  | nil => exact ⟨⟨[], rfl, rfl⟩, rfl, rfl⟩
  | append_singleton ops op ih =>
    have hreq : requests (ops ++ [op]) = requests ops ++ op.request.toList := by
      cases hop : op.request <;> simp [requests, hop]
    have hrun : run c key (ops ++ [op]) = (run c key ops).step c key op := by simp [run, List.foldl_append]
    rw [hreq, List.length_append] at hlen
    have hpast := ih (fun tx htx => hothers tx (List.mem_append_left _ htx)) (by omega)
    rw [hreq, hrun]
    cases op with
    | sendTransaction r =>
      have hlt : (requests ops).length + 1 ≤ 2 ^ 64 := hlen
      exact hpast.send (by omega) r
    | submit tx =>
      simpa [LedgerOp.request] using hpast.others (hothers tx (by simp))
    | commitTransactions maxBatch => simpa [LedgerOp.request] using hpast.commit maxBatch

/-- **A node's own transactions are numbered 0, 1, 2, ... in the order of its requests**, up to `2^64` of them: no send
is refused, and the pool holds and commits them in this order, whatever others submit under their own names. -/
theorem own_numbered (c : Primitives) (key : String) (ops : List LedgerOp)
    (hothers : ∀ tx, .submit tx ∈ ops → tx.sender ≠ key) (hlen : (requests ops).length ≤ 2 ^ 64) :
    (run c key ops).results = (numbered c key (requests ops)).map .ok ∧
      (run c key ops).history.Holds key (numbered c key (requests ops)) := by
  have h := numbered_run c key ops hothers hlen
  exact ⟨h.results, h.accepted ▸ h.accounted.holds key⟩

/-- Two transactions of Bob around one of Alice. -/
def twoSends : List LedgerOp :=
  [.sendTransaction ⟨"carol", 5, 1⟩, .submit History.firstTx, .commitTransactions 1, .sendTransaction ⟨"carol", 7, 2⟩]

theorem own_numbered_two :
    (run History.lastHash "bob" twoSends).results = (numbered History.lastHash "bob" (requests twoSends)).map .ok ∧
      (run History.lastHash "bob" twoSends).history.Holds "bob" (numbered History.lastHash "bob" (requests twoSends)) :=
  own_numbered History.lastHash "bob" twoSends (fun tx htx => by
    rw [show tx = History.firstTx by simpa [twoSends] using htx]
    decide) (by decide)

end Ledger

end Onde.Crypto

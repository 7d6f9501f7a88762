import Onde.Node.Update

/-!
# Which chunk the node asks for

After a chunk the node asks for the next index, whatever it has already.

* `Effect.calls`: what an event does to the protocol is a run of its calls, so the transfer stays well formed;
* `handleIncomingUpdate_requested`: what a request says of the event before it;
* `missing_next`, `answered_iff`: the chunk asked for is missing if it was missing before the event, and exactly then
  the answer of an honest announcer is one chunk more;
* `InTurn`: when a chunk may come; `chunk_requests_iff`: exactly then the request is for a missing chunk;
* `exchange_completes`: the chunks of an APK in their order complete the transfer;
* `last_first`: the last chunk comes first, and the node asks for one that does not exist.
-/

namespace Onde

open Lib Crypto Reputation Protocol Update

namespace Update.UpdateProtocol

variable {c : Primitives} {p p' : UpdateProtocol} {t : PendingUpdate} {index : UInt32} {data : Bytes}
  {status : ChunkStatus}

/-- The transfer expects the chunk at an index and does not have it. -/
def Missing (p : UpdateProtocol) (index : UInt32) : Prop :=
  index.toNat < p.totalChunks ∧ ∀ t, p.pending = some t → index ∉ t.chunks

theorem missing_iff (hp : p.pending = some t) (i : UInt32) :
    p.Missing i ↔ i.toNat < t.expectedChunks ∧ i ∉ t.chunks := by
  simp [Missing, totalChunks, hp]

/-- A chunk that is stored is no longer missing, and nothing else changes. -/
theorem missing_handleChunk (h : p.handleChunk index data = .ok (status, p')) (i : UInt32) :
    p'.Missing i ↔ p.Missing i ∧ i ≠ index := by
  obtain ⟨t, hp, -, -, ⟨hknown, -, rfl⟩ | ⟨-, -, rfl⟩⟩ := handleChunk_ok.mp h
  · rw [missing_iff hp]
    constructor
    · rintro ⟨hi, hnew⟩
      refine ⟨⟨hi, hnew⟩, ?_⟩
      rintro rfl
      exact hnew hknown
    · exact And.left
  · rw [missing_iff rfl, missing_iff hp, AList.mem_insert, not_or]
    exact ⟨fun ⟨hi, hne, hnew⟩ => ⟨⟨hi, hnew⟩, hne⟩, fun ⟨⟨hi, hnew⟩, hne⟩ => ⟨hi, hne, hnew⟩⟩

/-- The index after an expected one is another. -/
theorem next_ne (hw : p.Wf c) (h : p.handleChunk index data = .ok (status, p')) : index + 1 ≠ index := by
  obtain ⟨t, hp, hindex, -⟩ := handleChunk_ok.mp h
  have hcount := (hw t hp).count
  simp only [maxChunks] at hcount
  intro heq
  have hnat := congrArg UInt32.toNat heq
  rw [UInt32.toNat_add, show (1 : UInt32).toNat = 1 from rfl, Nat.mod_eq_of_lt (by omega)] at hnat
  omega

/-- **The chunk after the one that came is missing if it was before.** -/
theorem missing_next (hw : p.Wf c) (h : p.handleChunk index data = .ok (status, p')) :
    p'.Missing (index + 1) ↔ p.Missing (index + 1) := by
  rw [missing_handleChunk h]
  exact and_iff_left (next_ne hw h)

/-- **A transfer lacks chunks exactly when one is missing.** -/
theorem received_lt_iff (hw : p.Wf c) : p.chunksReceived < p.totalChunks ↔ ∃ i, p.Missing i := by
  cases hp : p.pending with
  | none => simp [Missing, chunksReceived, totalChunks, hp]
  | some t =>
    have ht := hw t hp
    simp only [chunksReceived, totalChunks, hp, Option.elim_some, missing_iff hp]
    constructor
    · intro hless
      have hfull : ¬t.IsFull := Nat.ne_of_lt hless
      rw [ht.isFull_iff] at hfull
      push Not at hfull
      obtain ⟨i, hi, hnone⟩ := hfull
      refine ⟨UInt32.ofNat i, (ht.toNat_ofNat hi).symm ▸ hi, fun hmem => ?_⟩
      obtain ⟨data, hdata⟩ := Option.isSome_iff_exists.mp (AList.lookup_isSome.mpr hmem)
      exact hnone data hdata
    · -- with the missing one, the indices are still different and still expected
      rintro ⟨i, hi, hnew⟩
      have hnodup : ((i :: t.chunks.keys).map UInt32.toNat).Nodup :=
        (List.nodup_cons.mpr ⟨hnew, t.chunks.keys_nodup⟩).map fun a b => UInt32.toNat_inj.mp
      have hsub : (i :: t.chunks.keys).map UInt32.toNat ⊆ List.range t.expectedChunks := by
        intro j hj
        obtain ⟨index, hindex, rfl⟩ := List.mem_map.mp hj
        rcases List.mem_cons.mp hindex with rfl | hold
        · exact List.mem_range.mpr hi
        · exact List.mem_range.mpr (ht.inside index (AList.mem_keys.mpr hold))
      have hlen := (List.subperm_of_subset hnodup hsub).length_le
      rw [List.length_map, List.length_cons, List.length_range] at hlen
      exact hlen

/-- One more chunk, one more received. -/
theorem chunksReceived_stored (hnew : index ∉ t.chunks) :
    ({ p with pending := some { t with chunks := t.chunks.insert index data } } : UpdateProtocol).chunksReceived =
      t.chunks.keys.length + 1 := by
  have hkeys : index ∉ t.chunks.keys := hnew
  rw [chunksReceived, Option.elim_some, AList.keys_insert, List.length_cons, List.erase_of_not_mem hkeys]

/-- **The answer of an honest announcer is one chunk more exactly when the chunk asked for is missing.** -/
theorem answered_iff (hw : p.Wf c) (hp : p.pending = some t) {apk : Bytes}
    (hsize : t.manifest.apkSize.toNat = apk.length) (next : UInt32) :
    (∃ q, deliver apk t.manifest.chunkSize p next = .ok q ∧ q.chunksReceived = p.chunksReceived + 1) ↔
      p.Missing next := by
  have ht := hw t hp
  have hreceived : p.chunksReceived = t.chunks.keys.length := by rw [chunksReceived, hp, Option.elim_some]
  have hinside : next.toNat < t.expectedChunks ↔ next.toNat * t.manifest.chunkSize.toNat < apk.length := by
    rw [ht.expected, hsize]
    exact lt_divCeil ht.chunkSize
  rw [missing_iff hp, deliver, chunk_eq]
  by_cases hindex : next.toNat < t.expectedChunks
  · have hlen : (piece t.manifest.chunkSize.toNat apk next.toNat).length ≤ t.maxLen next := by
      have hmax := ht.maxLen_eq hindex
      rw [UInt32.ofNat_toNat, hsize] at hmax
      rw [hmax, length_piece]
    rw [if_pos (hinside.mp hindex)]
    dsimp only
    by_cases hknown : next ∈ t.chunks
    · rw [handleChunk_ok.mpr ⟨t, hp, hindex, hlen, .inl ⟨hknown, rfl, rfl⟩⟩]
      refine iff_of_false ?_ fun h => h.2 hknown
      rintro ⟨q, hq, hmore⟩
      cases hq
      exact absurd hmore (Nat.ne_of_lt (Nat.lt_succ_self _))
    · rw [handleChunk_ok.mpr ⟨t, hp, hindex, hlen, .inr ⟨hknown, rfl, rfl⟩⟩]
      refine iff_of_true ⟨_, rfl, ?_⟩ ⟨hindex, hknown⟩
      rw [hreceived]
      exact chunksReceived_stored hknown
  · rw [if_neg fun h => hindex (hinside.mpr h)]
    refine iff_of_false ?_ fun h => hindex h.1
    rintro ⟨q, hq, hmore⟩
    cases hq
    omega

/-! ## The pieces of an APK -/

/-- The first indices. -/
def firstIndices (k : Nat) : Finset UInt32 := ((List.range k).map UInt32.ofNat).toFinset

theorem firstIndices_succ (k : Nat) : firstIndices (k + 1) = insert (UInt32.ofNat k) (firstIndices k) := by
  rw [firstIndices, List.range_succ, List.map_append, List.toFinset_append, Finset.union_comm]
  rfl

variable {apk : Bytes} {rootPubkey : ByteArr 32} {k : Nat}

/-- Among the expected indices, the first ones have the small numbers. -/
theorem mem_firstIndices (ht : t.Wf c rootPubkey) (hk : k ≤ t.expectedChunks) (i : UInt32) :
    i ∈ firstIndices k ↔ i.toNat < k := by
  rw [firstIndices, List.mem_toFinset, List.mem_map]
  constructor
  · rintro ⟨j, hj, rfl⟩
    have hj := List.mem_range.mp hj
    rwa [ht.toNat_ofNat (hj.trans_le hk)]
  · intro hi
    exact ⟨i.toNat, List.mem_range.mpr hi, UInt32.ofNat_toNat⟩

/-- Of a transfer that holds the first chunks, the others are missing. -/
theorem Holds.missing_iff (hh : Holds apk t (firstIndices k) p) (ht : t.Wf c rootPubkey)
    (hsize : t.manifest.apkSize.toNat = apk.length) (hk : k ≤ t.expectedChunks) (i : UInt32) :
    p.Missing i ↔ k ≤ i.toNat ∧ i.toNat < t.expectedChunks := by
  obtain ⟨chunks, hp, hlookup⟩ := hh
  have hnone : i ∉ chunks ↔ chunks.lookup i = none := by
    rw [← AList.lookup_isSome, Option.not_isSome_iff_eq_none]
  rw [UpdateProtocol.missing_iff hp, and_comm]
  refine and_congr_left fun hi => ?_
  dsimp only at hi ⊢
  have hchunk : chunk apk i t.manifest.chunkSize.toNat ≠ none := by
    rw [ht.expected, hsize, lt_divCeil ht.chunkSize] at hi
    rw [chunk_eq, if_pos hi]
    exact Option.some_ne_none _
  rw [hnone, hlookup]
  simp [hchunk, mem_firstIndices ht hk]

/-- Nothing is missing once all are there, -/
theorem Holds.not_missing (hh : Holds apk t (firstIndices t.expectedChunks) p) (ht : t.Wf c rootPubkey)
    (hsize : t.manifest.apkSize.toNat = apk.length) : ¬∃ i, p.Missing i := by
  rintro ⟨i, hi⟩
  obtain ⟨hle, hlt⟩ := (hh.missing_iff ht hsize (Nat.le_refl _) i).mp hi
  omega

theorem toNat_next (ht : t.Wf c rootPubkey) (hk : k + 1 < t.expectedChunks) :
    (UInt32.ofNat k + 1).toNat = k + 1 := by
  have hcount := ht.count
  simp only [maxChunks] at hcount
  rw [UInt32.toNat_add, ht.toNat_ofNat (Nat.lt_of_succ_lt hk), show (1 : UInt32).toNat = 1 from rfl,
    Nat.mod_eq_of_lt (by omega)]

/-- and until then the index behind the first ones is. -/
theorem Holds.missing_next {j : Nat} (hh : Holds apk t (firstIndices j) p) (ht : t.Wf c rootPubkey)
    (hsize : t.manifest.apkSize.toNat = apk.length) (hj : j ≤ k + 1) (hk : k + 1 < t.expectedChunks) :
    p.Missing (UInt32.ofNat k + 1) := by
  rw [hh.missing_iff ht hsize (hj.trans hk.le), toNat_next ht hk]
  exact ⟨hj, hk⟩

/-- A delivery of a chunk there is takes it. -/
theorem handleChunk_of_deliver {chunkSize : UInt32} (hq : p.deliver apk chunkSize index = .ok p')
    (hchunk : chunk apk index chunkSize.toNat = some data) : ∃ status, p.handleChunk index data = .ok (status, p') := by
  rw [deliver, hchunk] at hq
  dsimp only at hq
  cases hr : p.handleChunk index data with
  | error err =>
    rw [hr] at hq
    cases hq
  | ok r =>
    rw [hr] at hq
    cases hq
    exact ⟨r.1, rfl⟩

/-- A transfer that holds every chunk of an APK is used up by the assembly. -/
theorem Holds.used_up (hh : Holds apk t (firstIndices t.expectedChunks) p) (hw : p.Wf c) (ht : t.Wf c rootPubkey)
    (hsize : t.manifest.apkSize.toNat = apk.length) : (p.assembleAndVerify c).2.pending = none := by
  have hmissing := hh.not_missing ht hsize
  obtain ⟨chunks, hp, hlookup⟩ := hh
  have hwp := hw _ hp
  have hfull : ({ t with chunks := chunks } : PendingUpdate).IsFull := by
    rw [hwp.isFull_iff]
    intro i hi
    by_contra hnone
    refine hmissing ⟨UInt32.ofNat i, (UpdateProtocol.missing_iff hp _).mpr ⟨?_, fun hmem => ?_⟩⟩
    · rwa [ht.toNat_ofNat hi]
    · exact hnone (Option.isSome_iff_exists.mp (AList.lookup_isSome.mpr hmem))
  have hexact : ({ t with chunks := chunks } : PendingUpdate).Exact := by
    intro index data hdata
    have hindex : index.toNat < t.expectedChunks := hwp.inside index (AList.lookup_isSome.mp (by rw [hdata]; rfl))
    have hmax := hwp.maxLen_eq hindex
    have hstart := hindex
    rw [ht.expected, hsize, lt_divCeil ht.chunkSize] at hstart
    rw [hlookup, if_pos ((mem_firstIndices ht (Nat.le_refl _) index).mpr hindex), chunk_eq, if_pos hstart] at hdata
    cases hdata
    rw [UInt32.ofNat_toNat] at hmax
    rw [hmax, length_piece, hsize]
  have hlen := (hwp.complete_iff hfull).mpr hexact
  rw [assembleAndVerify_full hw hp hfull, if_neg (not_not.mpr hlen)]
  split <;> rfl

end Update.UpdateProtocol

/-- The index a chunk event carries. -/
def Protocol.MeshEvent.chunkIndex (event : MeshEvent) : Option UInt32 := (tagGet event.tags tagIndex).bind parseIndex

/-- A chunk comes in turn: the one after it is missing, or no other one is. -/
def InTurn (p : UpdateProtocol) (event : MeshEvent) : Prop :=
  ∀ index, event.chunkIndex = some index → p.Missing (index + 1) ∨ ∀ i, p.Missing i → i = index

/-- The chunk behind the first ones comes in turn. -/
theorem inTurn_next {c : Primitives} {p : UpdateProtocol} {t : PendingUpdate} {apk : Bytes} {rootPubkey : ByteArr 32}
    {k : Nat} {event : MeshEvent} (hh : UpdateProtocol.Holds apk t (UpdateProtocol.firstIndices k) p)
    (ht : t.Wf c rootPubkey) (hsize : t.manifest.apkSize.toNat = apk.length) (hk : k < t.expectedChunks)
    (hcarries : event.chunkIndex = some (UInt32.ofNat k)) : InTurn p event := by
  intro index hindex
  rw [hcarries] at hindex
  cases hindex
  by_cases hlt : k + 1 < t.expectedChunks
  · exact .inl (hh.missing_next ht hsize (Nat.le_succ k) hlt)
  · refine .inr fun i hi => UInt32.toNat_inj.mp ?_
    obtain ⟨hle, hi⟩ := (hh.missing_iff ht hsize hk.le i).mp hi
    rw [ht.toNat_ofNat hk]
    omega

namespace UpdateNode

variable {u : UpdateHost} {n n' : UpdateNode u} {env : UpdateEnv} {event : MeshEvent} {next : UInt32}

/-- **What an event does to the protocol is a run of its calls.** -/
theorem Effect.calls {r : Except String UpdateHandlingOutcome} (he : Effect n r n') :
    ∃ calls, n'.updateProtocol = after u.toPrimitives n.updateProtocol calls := by
  cases he with
  | none hp | announced _ hp => exact ⟨[], hp⟩
  | @started a data sig peer _ h =>
    refine ⟨[.handleManifest a data sig peer], ?_⟩
    simp only [after, List.foldl_cons, List.foldl_nil, UpdateCall.apply, h]
  | @stored index data _ h =>
    refine ⟨[.handleChunk index data], ?_⟩
    simp only [after, List.foldl_cons, List.foldl_nil, UpdateCall.apply, h]
  | @assembled index data _ _ h hp =>
    refine ⟨[.handleChunk index data, .assembleAndVerify], ?_⟩
    simp only [after, List.foldl_cons, List.foldl_nil, UpdateCall.apply, h, hp]
  | @installed index data _ _ apk destPath installedAt write _ h hi =>
    refine ⟨[.handleChunk index data, .assembleAndVerify, .installVerified apk destPath installedAt write], ?_⟩
    simp only [after, List.foldl_cons, List.foldl_nil, UpdateCall.apply, h, hi]

/-- The transfer of a node stays well formed. -/
theorem Effect.wf {r : Except String UpdateHandlingOutcome} (he : Effect n r n')
    (hw : n.updateProtocol.Wf u.toPrimitives) : n'.updateProtocol.Wf u.toPrimitives := by
  obtain ⟨calls, hcalls⟩ := he.calls
  rw [hcalls]
  clear hcalls
  induction calls using List.reverseRecOn with
  | nil => exact hw
  | append_singleton calls call ih =>
    rw [after_snoc]
    exact ih.apply call

theorem wf_run (node : Node u.toHost) (rootPubkey : Option (ByteArr 32)) (version : String)
    (rootSeed : Option (ByteArr 32)) (steps : List (Step u)) :
    ((UpdateNode.new node rootPubkey version rootSeed).run steps).updateProtocol.Wf u.toPrimitives :=
  run_invariant (fun _ _ _ hw he => he.wf hw) (fun _ _ _ hw => hw) steps _ (UpdateProtocol.wf_of_none rfl)

/-! ## Requests -/

/-- An answer that is published has the outcome it was meant to have. -/
theorem answer_ok {kind : OndeMessageType} {content : String} {tags : List (String × String)}
    {outcome o : UpdateHandlingOutcome} (h : (n.answer env kind content tags outcome).1 = .ok o) : o = outcome := by
  unfold answer at h
  split at h
  · cases h
  · cases h
    rfl

/-- A finished transfer asks for nothing. -/
theorem finishTransfer_requests (n : UpdateNode u) (env : UpdateEnv) (next : UInt32) :
    (n.finishTransfer env).1 ≠ .ok (.chunkRequested next) := by
  unfold finishTransfer
  dsimp only
  split
  · simp
  · split <;> simp

/-- Only a chunk makes the node ask for a chunk. -/
theorem requested_kind (h : (n.handleIncomingUpdate env event).1 = .ok (.chunkRequested next)) :
    event.kind = .updateChunk := by
  by_contra hk
  have hother : ∀ {o kind content tags} {m : UpdateNode u}, o ≠ .chunkRequested next →
      (m.answer env kind content tags o).1 ≠ .ok (.chunkRequested next) :=
    fun ho h => ho (answer_ok h).symm
  unfold handleIncomingUpdate at h
  split at h
  · revert h
    unfold onUpdateAnnounce
    split
    · nofun
    split
    · nofun
    · exact hother nofun
  · revert h
    unfold onUpdateManifest
    split
    · nofun
    split
    · nofun
    split
    · nofun
    · exact hother nofun
  · next hchunk => exact hk hchunk
  · revert h
    unfold onUpdateRequest
    dsimp only
    split
    · nofun
    split
    · nofun
    split
    · exact hother nofun
    split
    · split
      · nofun
      split
      · nofun
      split
      · nofun
      · exact hother nofun
    · nofun
  · cases h

/-- **A request is for the index after the event's**, and it is made when the chunk is stored and another one is
missing. -/
theorem handleIncomingUpdate_requested (h : n.handleIncomingUpdate env event = (.ok (.chunkRequested next), n')) :
    ∃ index data status, event.chunkIndex = some index ∧ next = index + 1 ∧
      n.updateProtocol.handleChunk index data = .ok (status, n'.updateProtocol) ∧
      n'.updateProtocol.chunksReceived < n'.updateProtocol.totalChunks := by
  have hk : event.kind = .updateChunk := requested_kind (congrArg Prod.fst h)
  have hchunk : n.onUpdateChunk env event = (.ok (.chunkRequested next), n') := by
    rw [handleIncomingUpdate, hk] at h
    exact h
  unfold onUpdateChunk at hchunk
  split at hchunk
  · cases hchunk
  next text htag =>
  split at hchunk
  · cases hchunk
  next index hindex =>
  split at hchunk
  · cases hchunk
  next data _ =>
  split at hchunk
  · cases hchunk
  next status p hstored =>
  dsimp only at hchunk
  split at hchunk
  · next hless =>
    have hsame := (answer_frame { n with updateProtocol := p } env .updateRequest ""
      [(tagReqType, "chunk"), (tagTo, event.pubkey), (tagIndex, toString (index + 1))] (.chunkRequested (index + 1))
      nofun).1
    have hout := answer_ok (congrArg Prod.fst hchunk)
    rw [hchunk] at hsame
    cases hout
    have hp : n'.updateProtocol = p := hsame
    rw [hp]
    exact ⟨index, data, status, by rw [MeshEvent.chunkIndex, htag]; exact hindex, rfl, hstored, hless⟩
  · exact absurd (congrArg Prod.fst hchunk) (finishTransfer_requests _ _ _)

/-- **The chunk asked for is missing exactly when the event came in turn.** -/
theorem requested_missing_iff (hw : n.updateProtocol.Wf u.toPrimitives)
    (h : n.handleIncomingUpdate env event = (.ok (.chunkRequested next), n')) :
    n'.updateProtocol.Missing next ↔ InTurn n.updateProtocol event := by
  obtain ⟨index, data, status, hindex, rfl, hstored, hless⟩ := handleIncomingUpdate_requested h
  rw [UpdateProtocol.missing_next hw hstored]
  constructor
  · intro hmissing i hi
    rw [hindex] at hi
    cases hi
    exact .inl hmissing
  · intro hturn
    rcases hturn index hindex with hmissing | honly
    · exact hmissing
    · -- nothing else was missing, so the transfer is full now
      have hw' : n'.updateProtocol.Wf u.toPrimitives := by
        have he := n.handleIncomingUpdate_effect env event
        rw [h] at he
        exact he.wf hw
      obtain ⟨i, hi⟩ := (UpdateProtocol.received_lt_iff hw').mp hless
      obtain ⟨hi, hne⟩ := (UpdateProtocol.missing_handleChunk hstored i).mp hi
      exact absurd (honly i hi) hne

/-! ## Runs -/

/-- What an outcome asks for, with the protocol then. -/
def requestedBy : Except String UpdateHandlingOutcome × UpdateNode u → List (UpdateProtocol × UInt32)
  | (.ok (.chunkRequested next), n) => [(n.updateProtocol, next)]
  | _ => []

theorem mem_requestedBy {r : Except String UpdateHandlingOutcome × UpdateNode u} {p : UpdateProtocol}
    (h : (p, next) ∈ requestedBy r) : r.1 = .ok (.chunkRequested next) ∧ p = r.2.updateProtocol := by
  unfold requestedBy at h
  split at h
  · obtain ⟨rfl, rfl⟩ := Prod.mk.inj (List.mem_singleton.mp h)
    exact ⟨rfl, rfl⟩
  · cases h

/-- The chunks that a run asks for. -/
def requests (n : UpdateNode u) : List (Step u) → List (UpdateProtocol × UInt32)
  | [] => []
  | .incoming env event :: steps =>
    requestedBy (n.handleIncomingUpdate env event) ++ (n.handleIncomingUpdate env event).2.requests steps
  | .elsewhere node updateOffer :: steps =>
    ({ n with toNode := node, updateOffer := updateOffer } : UpdateNode u).requests steps

/-- Every chunk of a run comes in turn. -/
def InTurnRun (n : UpdateNode u) : List (Step u) → Prop
  | [] => True
  | .incoming env event :: steps =>
    (event.kind = .updateChunk → InTurn n.updateProtocol event) ∧ (n.handleIncomingUpdate env event).2.InTurnRun steps
  | .elsewhere node updateOffer :: steps =>
    ({ n with toNode := node, updateOffer := updateOffer } : UpdateNode u).InTurnRun steps

/-- **Every chunk that a run asks for is missing, if the chunks come in turn.** -/
theorem requests_missing : ∀ (steps : List (Step u)) (n : UpdateNode u), n.updateProtocol.Wf u.toPrimitives →
    n.InTurnRun steps → ∀ p next, (p, next) ∈ n.requests steps → p.Missing next
  | [], _, _, _, _, _, h => nomatch h
  | .elsewhere node updateOffer :: steps, n, hw, hturn, p, next, h =>
    requests_missing steps { n with toNode := node, updateOffer := updateOffer } hw hturn p next h
  | .incoming env event :: steps, n, hw, hturn, p, next, h => by
    rcases List.mem_append.mp h with hnow | hlater
    · obtain ⟨hr, rfl⟩ := mem_requestedBy hnow
      exact (requested_missing_iff hw (Prod.ext hr rfl)).mpr (hturn.1 (requested_kind hr))
    · exact requests_missing steps _ ((n.handleIncomingUpdate_effect env event).wf hw) hturn.2 p next hlater

/-! ## The exchange -/

/-- A chunk event that answers the request for an index of an APK. -/
structure Answers (u : UpdateHost) (apk : Bytes) (chunkSize index : UInt32) (event : MeshEvent) : Prop where
  kind : event.kind = .updateChunk
  carries : event.chunkIndex = some index
  content : ∃ data, u.base64Decode event.content = .ok data ∧ UpdateProtocol.chunk apk index chunkSize.toNat = some data

/-! ## What is accepted -/

/-- An announcement that is accepted, -/
theorem announce_accepted {data : Bytes} {sig : ByteArr 64} {a : UpdateAnnouncement} (hk : event.kind = .updateAnnounce)
    (hd : decodeUpdatePayload u event = .ok (data, sig))
    (ha : n.updateProtocol.handleAnnouncement u.toPrimitives data sig = .ok a) (env : UpdateEnv) :
    n.handleIncomingUpdate env event = ({ n with pendingAnnouncement := some a } : UpdateNode u).answer env
      .updateRequest "" [(tagReqType, "manifest"), (tagTo, event.pubkey)] .announcementRequested := by
  rw [handleIncomingUpdate, hk]
  dsimp only
  rw [onUpdateAnnounce, hd]
  dsimp only
  rw [ha]

/-- a manifest, -/
theorem manifest_accepted {data : Bytes} {sig : ByteArr 64} {a : UpdateAnnouncement} {p : UpdateProtocol}
    (hk : event.kind = .updateManifest) (ha : n.pendingAnnouncement = some a)
    (hd : decodeUpdatePayload u event = .ok (data, sig))
    (hm : n.updateProtocol.handleManifest u.toPrimitives a data sig event.pubkey = .ok p) (env : UpdateEnv) :
    n.handleIncomingUpdate env event = ({ n with updateProtocol := p } : UpdateNode u).answer env .updateRequest ""
      [(tagReqType, "chunk"), (tagTo, event.pubkey), (tagIndex, "0"), (tagVersion, a.version.text)]
      .manifestRequested := by
  rw [handleIncomingUpdate, hk]
  dsimp only
  rw [onUpdateManifest, ha]
  dsimp only
  rw [hd]
  dsimp only
  rw [hm]

/-- and a chunk. -/
theorem chunk_accepted {index : UInt32} {data : Bytes} {status : ChunkStatus} {p : UpdateProtocol}
    (hk : event.kind = .updateChunk) (hi : event.chunkIndex = some index)
    (hd : u.base64Decode event.content = .ok data)
    (hc : n.updateProtocol.handleChunk index data = .ok (status, p)) (env : UpdateEnv) :
    n.handleIncomingUpdate env event =
      if p.chunksReceived < p.totalChunks then
        ({ n with updateProtocol := p } : UpdateNode u).answer env .updateRequest ""
          [(tagReqType, "chunk"), (tagTo, event.pubkey), (tagIndex, toString (index + 1))] (.chunkRequested (index + 1))
      else ({ n with updateProtocol := p } : UpdateNode u).finishTransfer env := by
  obtain ⟨text, htag, hindex⟩ := Option.bind_eq_some_iff.mp hi
  rw [handleIncomingUpdate, hk]
  dsimp only
  rw [onUpdateChunk, htag]
  dsimp only
  rw [hindex]
  dsimp only
  rw [hd]
  dsimp only
  rw [hc]

/-- A chunk that is accepted is stored; the last one uses the transfer up if the assembly does. -/
theorem chunk_stored {index : UInt32} {data : Bytes} {status : ChunkStatus} {p : UpdateProtocol}
    (hk : event.kind = .updateChunk) (hi : event.chunkIndex = some index) (hd : u.base64Decode event.content = .ok data)
    (hc : n.updateProtocol.handleChunk index data = .ok (status, p)) (env : UpdateEnv) :
    (p.chunksReceived < p.totalChunks → (n.handleIncomingUpdate env event).2.updateProtocol = p) ∧
      (¬p.chunksReceived < p.totalChunks → (p.assembleAndVerify u.toPrimitives).2.pending = none →
        (n.handleIncomingUpdate env event).2.updateProtocol.pending = none) := by
  rw [chunk_accepted hk hi hd hc env]
  constructor
  · intro hless
    rw [if_pos hless]
    exact (answer_frame _ env .updateRequest "" _ (.chunkRequested (index + 1)) nofun).1
  · intro hless hnone
    rw [if_neg hless, finishTransfer]
    dsimp only
    split
    · exact hnone
    split
    · exact hnone
    next hinstalled =>
    obtain ⟨_, -, -, -, -, hp⟩ := UpdateProtocol.installVerified_ok.mp hinstalled
    rw [hp]

/-- The chunk events of an exchange. -/
def exchange (events : List (UpdateEnv × MeshEvent)) : List (Step u) := events.map fun x => .incoming x.1 x.2

/-- **The chunks of an APK in their order come in turn, and complete the transfer.** -/
theorem exchange_completes {rootPubkey : ByteArr 32} {t : PendingUpdate} {apk : Bytes}
    (ht : t.Wf u.toPrimitives rootPubkey) (hsize : t.manifest.apkSize.toNat = apk.length) :
    ∀ (events : List (UpdateEnv × MeshEvent)) (k : Nat) (n : UpdateNode u), n.updateProtocol.Wf u.toPrimitives →
    UpdateProtocol.Holds apk t (UpdateProtocol.firstIndices k) n.updateProtocol → events ≠ [] →
    k + events.length = t.expectedChunks →
    (∀ j x, events[j]? = some x → Answers u apk t.manifest.chunkSize (UInt32.ofNat (k + j)) x.2) →
    n.InTurnRun (exchange events) ∧ (n.run (exchange events)).updateProtocol.pending = none
  | [], _, _, _, _, hne, _, _ => absurd rfl hne
  | (env, event) :: events, k, n, hw, hh, _, hlen, hanswers => by
    have hanswer : Answers u apk t.manifest.chunkSize (UInt32.ofNat k) event := hanswers 0 (env, event) rfl
    obtain ⟨data, hdata, hchunk⟩ := hanswer.content
    have hk : k < t.expectedChunks := by
      rw [List.length_cons] at hlen
      omega
    obtain ⟨q, hq, hholds⟩ := hh.deliver ht hsize (UInt32.ofNat k)
    rw [← UpdateProtocol.firstIndices_succ] at hholds
    have hwq := hw.deliver hq
    obtain ⟨status, hstored⟩ := UpdateProtocol.handleChunk_of_deliver hq hchunk
    obtain ⟨hmore, hlast⟩ := chunk_stored hanswer.kind hanswer.carries hdata hstored env
    have hturn : InTurn n.updateProtocol event := inTurn_next hh ht hsize hk hanswer.carries
    have hwn := (n.handleIncomingUpdate_effect env event).wf hw
    cases events with
    | nil =>
      rw [List.length_singleton] at hlen
      rw [hlen] at hholds
      refine ⟨⟨fun _ => hturn, trivial⟩, hlast ?_ (hholds.used_up hwq ht hsize)⟩
      rw [UpdateProtocol.received_lt_iff hwq]
      exact hholds.not_missing ht hsize
    | cons x events =>
      rw [List.length_cons, List.length_cons] at hlen
      have hless : q.chunksReceived < q.totalChunks :=
        (UpdateProtocol.received_lt_iff hwq).mpr ⟨_, hholds.missing_next ht hsize (Nat.le_refl _) (by omega)⟩
      have hsame := hmore hless
      have ih := exchange_completes ht hsize (x :: events) (k + 1) (n.handleIncomingUpdate env event).2 hwn
        (by rwa [hsame]) (List.cons_ne_nil _ _) (by rw [List.length_cons]; omega) fun j y hy => by
          have := hanswers (j + 1) y hy
          rwa [← Nat.add_assoc, Nat.add_right_comm] at this
      exact ⟨⟨fun _ => hturn, ih.1⟩, ih.2⟩

/-! ## A node that asks nothing of itself -/

theorem run_pair (n : UpdateNode u) (env env' : UpdateEnv) (event event' : MeshEvent) :
    n.run [.incoming env event, .incoming env' event'] =
      ((n.handleIncomingUpdate env event).2.handleIncomingUpdate env' event').2 := rfl

/-- What a published answer leaves as it was. -/
structure SameSelf (n n' : UpdateNode u) : Prop where
  protocol : n'.updateProtocol = n.updateProtocol
  announced : n'.pendingAnnouncement = n.pendingAnnouncement
  reputation : n'.reputation = n.reputation
  identity : n'.identity = n.identity

/-- Its answers are published. -/
theorem answer_trusting (hl : u.toPrimitives.Lawful) (hfloor : n.reputation.requiredPowDifficulty n.pubkeyHex = 0)
    {kind : OndeMessageType} (hk : kind ≠ .alert) (env : UpdateEnv) (content : String)
    (tags : List (String × String)) (outcome : UpdateHandlingOutcome) :
    (n.answer env kind content tags outcome).1 = .ok outcome ∧
      SameSelf n (n.answer env kind content tags outcome).2 := by
  have hsigned : (MeshEvent.newSigned u.toPrimitives n.identity kind content (buildTags tags)
      env.fuzzyTimestampSecs).checkSigned u.toPrimitives env.clock = .ok () := by
    refine newSigned_checkSigned hl _ _ (fun h => absurd h hk) (env.fuzzyTimestampSecs_le.trans ?_)
    exact Nat.add_le_add_left (by decide) _
  generalize hevent : MeshEvent.newSigned u.toPrimitives n.identity kind content (buildTags tags)
    env.fuzzyTimestampSecs = event at hsigned
  have hvalid : (event.withPowDifficulty 0).validateWithReputation u.toPrimitives env.clock n.reputation = .ok () := by
    rw [MeshEvent.validateWithReputation, show (event.withPowDifficulty 0).pubkey = n.pubkeyHex by rw [← hevent]; rfl,
      hfloor]
    exact validateWithPowMin_ok.mpr ⟨hsigned, checkPow_ok.mpr ⟨UInt8.le_refl 0, verifyPow_zero _ _ _⟩⟩
  have hpublished : n.publishGossipEvent env kind content tags = .ok (event.withPowDifficulty 0,
      { n with toNode := { n.toNode with
        gossip := (n.gossip.insertNew env.order (event.withPowDifficulty 0)).2 } }) := by
    rw [publishGossipEvent, hevent]
    exact bind_eq_ok.mpr ⟨_, Node.publishSigned_trusted "PoW computation failed" hfloor hvalid, rfl⟩
  unfold answer
  rw [hpublished]
  exact ⟨rfl, rfl, rfl, rfl, rfl⟩

end UpdateNode

/-- **When the chunk asked for is missing.** In every reachable state, the chunk of a request is missing exactly when
the event before it came in turn, and exactly then the answer of an honest announcer is one chunk more. Hence in every
run whose chunks come in turn, every chunk asked for is missing; and so come the chunks of an APK in their order, which
complete the transfer. -/
theorem chunk_requests_iff (u : UpdateHost) (node : Node u.toHost) (rootPubkey : Option (ByteArr 32))
    (version : String) (rootSeed : Option (ByteArr 32)) (steps : List (UpdateNode.Step u)) :
    let n₀ := UpdateNode.new node rootPubkey version rootSeed
    let n := n₀.run steps
    (∀ env event next n', n.handleIncomingUpdate env event = (.ok (.chunkRequested next), n') →
      (n'.updateProtocol.Missing next ↔ InTurn n.updateProtocol event) ∧
      ∀ t apk, n'.updateProtocol.pending = some t → t.manifest.apkSize.toNat = apk.length →
        ((∃ q, UpdateProtocol.deliver apk t.manifest.chunkSize n'.updateProtocol next = .ok q ∧
          q.chunksReceived = n'.updateProtocol.chunksReceived + 1) ↔ InTurn n.updateProtocol event)) ∧
    (n₀.InTurnRun steps → ∀ p next, (p, next) ∈ n₀.requests steps → p.Missing next) ∧
    ∀ t apk events, n.updateProtocol.pending = some t → t.chunks = ∅ → t.manifest.apkSize.toNat = apk.length →
      events ≠ [] → events.length = t.expectedChunks →
      (∀ i x, events[i]? = some x → UpdateNode.Answers u apk t.manifest.chunkSize (UInt32.ofNat i) x.2) →
      n.InTurnRun (UpdateNode.exchange events) ∧
        (n.run (UpdateNode.exchange events)).updateProtocol.pending = none := by
  intro n₀ n
  have hw : n.updateProtocol.Wf u.toPrimitives := UpdateNode.wf_run node rootPubkey version rootSeed steps
  refine ⟨fun env event next n' h => ?_, ?_, ?_⟩
  · have hiff := UpdateNode.requested_missing_iff hw h
    have hw' : n'.updateProtocol.Wf u.toPrimitives := by
      have he := n.handleIncomingUpdate_effect env event
      rw [h] at he
      exact he.wf hw
    exact ⟨hiff, fun t apk hp hsize => (UpdateProtocol.answered_iff hw' hp hsize next).trans hiff⟩
  · exact UpdateNode.requests_missing steps n₀ (UpdateProtocol.wf_of_none rfl)
  · intro t apk events hp hempty hsize hne hlen hanswers
    have hholds : UpdateProtocol.Holds apk t (UpdateProtocol.firstIndices 0) n.updateProtocol := by
      refine ⟨t.chunks, hp, fun index => ?_⟩
      rw [hempty, AList.lookup_empty]
      rfl
    refine UpdateNode.exchange_completes (hw t hp) hsize events 0 n hw hholds hne (by omega) fun j x hx => ?_
    rw [Nat.zero_add]
    exact hanswers j x hx

/-! ## The last chunk first -/

/-- The key of the receiver. -/
def receiverKey : String := "8139770ea87d175f56a35466c34c7ecccb8d8a91b4ee37a25df60f5b8fc9b394"

/-- The tags of a request to the announcer. -/
def requestTags (reqType : String) (rest : List (String × String)) : List String :=
  buildTags ([(tagReqType, reqType), (tagTo, knownAuthor)] ++ rest)

/-- The values behind the requests of the receiver. -/
def requestValues : KnownValues where
  keys := knownKeys
  digests :=
    [((canonical receiverKey 1700000000 .updateRequest (requestTags "manifest" []) "").render,
      "8487a32541f555909bec4fd6e08617a9ffb03e2fefbde5bb114d1b44e5df6327"),
     ((canonical receiverKey 1700000000 .updateRequest
        (requestTags "chunk" [(tagIndex, "0"), (tagVersion, "1.0.1")]) "").render,
      "2f186addf63b882e327fe5ffd9b5ff80b3a6ed6b573eeb01649a8acf4f46cdb9"),
     ((canonical receiverKey 1700000000 .updateRequest (requestTags "chunk" [(tagIndex, "2")]) "").render,
      "42458dd6a4ce75ff917f126a4319d9d5ca093f0a9509f2bbbc7f7f9072100f9b")]
  signatures :=
    [(receiverKey, "8487a32541f555909bec4fd6e08617a9ffb03e2fefbde5bb114d1b44e5df6327",
      "14cc2423ceb407442be4e8cfb60b25196373d981e7e116024808e50cf20a9755" ++
      "76b204e4b4bb6ab8b9767cf2e16c8bb185083c76bc8a50c587abcca81b0f160a"),
     (receiverKey, "2f186addf63b882e327fe5ffd9b5ff80b3a6ed6b573eeb01649a8acf4f46cdb9",
      "fa917f927cda394c80ae6eee4c6796246008c31f9486dfaa2be03f4ce0878b81" ++
      "5ad9a4d647af0a44319d11573a7c06acf888952a694f3448f5d4328f40139b0d"),
     (receiverKey, "42458dd6a4ce75ff917f126a4319d9d5ca093f0a9509f2bbbc7f7f9072100f9b",
      "70918b7a77e7e9e566aebfbf02806fea5c87afd53a26c9baa77940f89f8b1ac7" ++
      "01dbc06b97c010bcc9757f1ddb892f88176f90268f278193b9c15b01d0b6b205")]

/-- The base64 texts of the announcement, the manifest and the second chunk. -/
def announcementText : String := "T05ERU5FVzEBAAAAAQDJeV9jeGn4QbSQyzYIpmmtBf5HNp3A+TIJ6DNWzWX4NQDxU2UAAAAA"

def manifestText : String :=
  "T05ERUFQSzHJeV9jeGn4QbSQyzYIpmmtBf5HNp3A+TIJ6DNWzWX4NYqI4910CfGV/VLb" ++
    "LTy6XXLKZwm/HZQSG/N0iAG0D29cAPFTZQAAAAAEAAAAAAAAAAIAAAA="

def secondChunkText : String := "ayE="

def exchangedTexts : List (String × Bytes) :=
  [(announcementText, knownAnnouncement.2.2), (manifestText, knownManifest.2.2), (secondChunkText, utf8Bytes "k!")]

/-- The primitives of the receiver: the signatures of the root key verify beside its own. -/
def exchangePrimitives : Primitives := { Primitives.ofKnown requestValues with
  verify := fun pk data sig =>
    (Primitives.ofKnown requestValues).verify pk data sig || updatePrimitives.verify pk data sig }

theorem exchangePrimitives_lawful : exchangePrimitives.Lawful :=
  ⟨fun seed data => by simp [exchangePrimitives, (Primitives.ofKnown_lawful requestValues).verify_sign seed data]⟩

def exchangeHost : UpdateHost := { Host.ofKnown requestValues [] [] with
  toPrimitives := exchangePrimitives
  base64Decode := fun text => match exchangedTexts.lookup text with
    | some data => .ok data
    | none => .error "Invalid padding"
  base64Encode := fun data => ((exchangedTexts.find? fun x => x.2 = data).map Prod.fst).getD ""
  tempPath := fun name => s!"/tmp/{name}" }

theorem exchangeHost_lawful : exchangeHost.toPrimitives.Lawful := exchangePrimitives_lawful

/-- A receiver of version 1.0.0 that pins the root key. -/
def receiver : UpdateNode exchangeHost := .new (Node.new .default (.ofByte 2) none none) (some knownRoot) "1.0.0" none

def exchangeEnv : UpdateEnv := { Env.still 1700000000 with write := fun _ _ => .ok () }

/-- The announcement, the manifest and the second of two chunks, as the announcer sends them. -/
def announceEvent : MeshEvent :=
  ⟨"8b6d2713a443cb20de08de6d63791f47d144dc50cf653b236c1418b83f073e36", knownAuthor, 1700000000, .updateAnnounce,
    buildTags [(tagRootSig, hexEncode knownAnnouncement.2.1.1), (tagVersion, "1.0.1"), (tagPeer, knownAuthor)],
    announcementText, "fe9da4676be0b165d45608c9f0445497d2572f90681b1ec5a90b7cb08f9dc266" ++
      "bf82d3dee8a2576c4e5861b54ba26b748d582acdc4c816f5f2ef308f8e018a08", 0, 0, 5⟩

def manifestEvent : MeshEvent :=
  ⟨"003dd995eff8cb8e9aa67eb5562d4e114a81fb1f055ae98ffb9a96eda8c1624e", knownAuthor, 1700000000, .updateManifest,
    buildTags [(tagRootSig, hexEncode knownManifest.2.1.1), (tagVersion, "1.0.1"), (tagPeer, knownAuthor)],
    manifestText, "c857fdf14a6502530de8faa592d296b0ba3b2fb5abe42e9df4f5784e7f90f7d2" ++
      "061349d7e30979c5fa4264d21d0fbe8b5b46eb949d2f3431b0060839e3f88e00", 0, 0, 5⟩

def secondChunkEvent : MeshEvent :=
  ⟨"adc833253a143a605bdb137f48b98ab662a5f7213762ac6b21b3946698550657", knownAuthor, 1700000000, .updateChunk,
    buildTags [(tagIndex, "1"), (tagTotal, "2"), (tagPeer, knownAuthor)], secondChunkText,
    "65fb47707b774eee933080e8a24db6b44f5324e96f99efbe6fbe2b02b29442ba" ++
      "c71f69b9db20c4d48d58ed4c7698e57edabd0a92ee1499a99a5d0fd2a5342702", 0, 0, 5⟩

theorem exchangeHost_reads {text : String} {data : Bytes} (hlookup : exchangedTexts.lookup text = some data) :
    exchangeHost.base64Decode text = .ok data := by
  show (match exchangedTexts.lookup text with
    | some data => .ok data
    | none => .error "Invalid padding" : Except String Bytes) = .ok data
  rw [hlookup]

theorem announce_decodes : decodeUpdatePayload exchangeHost announceEvent =
    .ok (knownAnnouncement.2.2, knownAnnouncement.2.1) :=
  decodeUpdatePayload_signed (exchangeHost_reads List.lookup_cons_self) (tagGet_head _ _ _)

theorem manifest_decodes : decodeUpdatePayload exchangeHost manifestEvent =
    .ok (knownManifest.2.2, knownManifest.2.1) := by
  have hread : exchangedTexts.lookup manifestText = some knownManifest.2.2 := by
    have hne : (manifestText == announcementText) = false := by decide
    rw [exchangedTexts, List.lookup_cons, hne, List.lookup_cons_self]
  exact decodeUpdatePayload_signed (exchangeHost_reads hread) (tagGet_head _ _ _)

theorem secondChunk_reads : secondChunkEvent.chunkIndex = some 1 ∧
    exchangeHost.base64Decode secondChunkEvent.content = .ok (utf8Bytes "k!") := by
  have hread : exchangedTexts.lookup secondChunkText = some (utf8Bytes "k!") := by
    have hann : (secondChunkText == announcementText) = false := by decide
    have hman : (secondChunkText == manifestText) = false := by decide
    rw [exchangedTexts, List.lookup_cons, hann, List.lookup_cons, hman, List.lookup_cons_self]
  have hindex : secondChunkEvent.chunkIndex = parseIndex "1" := congrArg (·.bind parseIndex) (tagGet_head _ _ _)
  exact ⟨hindex.trans rfl, exchangeHost_reads hread⟩

theorem receiver_protocol : receiver.updateProtocol = knownReceiver := by
  have hversion : parseUpdateVersion "1.0.0" = ⟨1, 0, 0⟩ := by decide +kernel
  show UpdateProtocol.new knownRoot (parseUpdateVersion "1.0.0") = _
  rw [hversion]
  rfl

/-- The transfer of the receiver, and its protocol then. -/
def receiverTransfer : PendingUpdate :=
  UpdateProtocol.transferOf knownAnnouncement.1 knownManifest.1 knownManifest.2.1 knownAuthor

def receiverStarted : UpdateProtocol := { knownReceiver with pending := some receiverTransfer, lastVerified := none }

theorem receiver_accepts : knownReceiver.handleAnnouncement exchangeHost.toPrimitives knownAnnouncement.2.2
    knownAnnouncement.2.1 = .ok knownAnnouncement.1 :=
  UpdateProtocol.handleAnnouncement_ok.mpr ⟨⟨rfl, by decide +kernel⟩, by decide +kernel⟩

theorem receiver_starts : knownReceiver.handleManifest exchangeHost.toPrimitives knownAnnouncement.1
    knownManifest.2.2 knownManifest.2.1 knownAuthor = .ok receiverStarted := by
  obtain ⟨hwire, -, hannounced, hsize, hchunk, hcount⟩ := known_transferable
  exact UpdateProtocol.handleManifest_ok.mpr
    ⟨_, ⟨hwire, by decide +kernel, hannounced, hsize, hchunk, hcount⟩, rfl⟩

/-- The receiver with a protocol and an announcement. -/
structure Receiving (n : UpdateNode exchangeHost) (p : UpdateProtocol) (a : Option UpdateAnnouncement) : Prop where
  protocol : n.updateProtocol = p
  announced : n.pendingAnnouncement = a
  reputation : n.reputation = receiver.reputation
  identity : n.identity = receiver.identity

section

variable {n : UpdateNode exchangeHost} {p : UpdateProtocol} {a : Option UpdateAnnouncement}

theorem Receiving.answer (hr : Receiving n p a) {kind : OndeMessageType} (hk : kind ≠ .alert) (env : UpdateEnv)
    (content : String) (tags : List (String × String)) (outcome : UpdateHandlingOutcome) :
    (n.answer env kind content tags outcome).1 = .ok outcome ∧
      Receiving (n.answer env kind content tags outcome).2 p a := by
  have hfloor : n.reputation.requiredPowDifficulty n.pubkeyHex = 0 := by
    rw [hr.reputation, Node.pubkeyHex, hr.identity]
    exact Node.new_floor .default (.ofByte 2) none none
  obtain ⟨hout, hs⟩ := UpdateNode.answer_trusting exchangeHost_lawful hfloor hk env content tags outcome
  exact ⟨hout, hs.protocol.trans hr.protocol, hs.announced.trans hr.announced, hs.reputation.trans hr.reputation,
    hs.identity.trans hr.identity⟩

theorem request_not_alert : OndeMessageType.updateRequest ≠ .alert := nofun

theorem Receiving.announce (hr : Receiving n knownReceiver a) :
    Receiving (n.handleIncomingUpdate exchangeEnv announceEvent).2 knownReceiver (some knownAnnouncement.1) := by
  obtain ⟨hp, -, hrep, hid⟩ := hr
  have hnow : Receiving { n with pendingAnnouncement := some knownAnnouncement.1 } knownReceiver
      (some knownAnnouncement.1) := ⟨hp, rfl, hrep, hid⟩
  rw [UpdateNode.announce_accepted rfl announce_decodes (hp.symm ▸ receiver_accepts)]
  exact (hnow.answer request_not_alert _ _ _ _).2

theorem Receiving.manifest (hr : Receiving n knownReceiver (some knownAnnouncement.1)) :
    Receiving (n.handleIncomingUpdate exchangeEnv manifestEvent).2 receiverStarted (some knownAnnouncement.1) := by
  obtain ⟨hp, ha, hrep, hid⟩ := hr
  have hnow : Receiving { n with updateProtocol := receiverStarted } receiverStarted (some knownAnnouncement.1) :=
    ⟨rfl, ha, hrep, hid⟩
  have hm : n.updateProtocol.handleManifest exchangeHost.toPrimitives knownAnnouncement.1 knownManifest.2.2
      knownManifest.2.1 manifestEvent.pubkey = .ok receiverStarted := by
    rw [hp]
    exact receiver_starts
  rw [UpdateNode.manifest_accepted rfl ha manifest_decodes hm]
  exact (hnow.answer request_not_alert _ _ _ _).2

/-- The receiver after the second chunk. -/
def secondStored : UpdateProtocol := { receiverStarted with
  pending := some { receiverTransfer with chunks := receiverTransfer.chunks.insert 1 (utf8Bytes "k!") } }

theorem Receiving.secondChunk (hr : Receiving n receiverStarted a) :
    (n.handleIncomingUpdate exchangeEnv secondChunkEvent).1 = .ok (.chunkRequested 2) ∧
      Receiving (n.handleIncomingUpdate exchangeEnv secondChunkEvent).2 secondStored a := by
  obtain ⟨hp, ha, hrep, hid⟩ := hr
  have hstored : n.updateProtocol.handleChunk 1 (utf8Bytes "k!") = .ok (.accepted, secondStored) := by
    rw [hp]
    exact UpdateProtocol.handleChunk_ok.mpr ⟨receiverTransfer, rfl, by decide +kernel, by decide +kernel,
      .inr ⟨AList.notMem_empty _, rfl, rfl⟩⟩
  have hless : secondStored.chunksReceived < secondStored.totalChunks := by decide +kernel
  have hnow : Receiving { n with updateProtocol := secondStored } secondStored a := ⟨rfl, ha, hrep, hid⟩
  rw [UpdateNode.chunk_accepted rfl secondChunk_reads.1 secondChunk_reads.2 hstored, if_pos hless]
  exact hnow.answer request_not_alert _ _ _ _

end

/-- The receiver after the announcement and the manifest. -/
theorem receiver_receiving : Receiving
    (receiver.run [.incoming exchangeEnv announceEvent, .incoming exchangeEnv manifestEvent]) receiverStarted
      (some knownAnnouncement.1) := by
  have hstart : Receiving receiver knownReceiver none := ⟨receiver_protocol, rfl, rfl, rfl⟩
  rw [UpdateNode.run_pair]
  exact hstart.announce.manifest

/-- **The last of two chunks comes first**, and the node asks for a third one, which the announcer does not have. -/
theorem last_first :
    ∃ n', (receiver.run [.incoming exchangeEnv announceEvent, .incoming exchangeEnv manifestEvent]).handleIncomingUpdate
        exchangeEnv secondChunkEvent = (.ok (.chunkRequested 2), n') ∧
      n'.updateProtocol.totalChunks = 2 ∧ ¬n'.updateProtocol.Missing 2 ∧ UpdateProtocol.chunk knownApk 2 2 = none := by
  obtain ⟨hout, hr⟩ := receiver_receiving.secondChunk
  have htotal : secondStored.totalChunks = 2 := by decide +kernel
  have hmissing : ¬secondStored.Missing 2 := by
    intro hmissing
    have hlt := hmissing.1
    rw [htotal] at hlt
    exact absurd hlt (by decide)
  generalize (receiver.run _).handleIncomingUpdate exchangeEnv secondChunkEvent = r at hout hr ⊢
  obtain ⟨out, n'⟩ := r
  refine ⟨n', congrArg (·, n') hout, ?_, ?_, ?_⟩
  · rw [hr.protocol, htotal]
  · rwa [hr.protocol]
  · rw [UpdateProtocol.chunk_eq]
    exact if_neg (by decide)

end Onde

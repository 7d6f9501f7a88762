import Onde.Update.Protocol

/-!
# Transfers

* `PendingUpdate.Wf`: what holds of every transfer in every reachable state (`wf_after`);
* `assembleAndVerify_full`: what the assembly of a full transfer returns, and `incomplete_iff`: it is incomplete exactly
  when a chunk is shorter than its index demands;
* `transfer_round_trip`: the chunks of an APK, in any order and repeated, assemble to the APK;
* `full_transfer`: a full transfer finishes if no chunk was short; `dead_end`: otherwise it never does.
-/

namespace Onde.Update

open Lib Crypto

variable {c : Primitives} {p p' : UpdateProtocol} {t : PendingUpdate}

namespace PendingUpdate

/-- A transfer that a manifest signed by the root key has started. -/
structure Wf (c : Primitives) (rootPubkey : ByteArr 32) (t : PendingUpdate) : Prop where
  wire : t.manifestWire = t.manifest.toWireBytes
  signed : c.verify rootPubkey t.manifest.apkManifest.toSignedBytes t.manifestSignature = true
  chunkSize : 0 < t.manifest.chunkSize.toNat
  expected : t.expectedChunks = divCeil t.manifest.apkSize.toNat t.manifest.chunkSize.toNat
  count : t.expectedChunks ≤ maxChunks
  inside : ∀ index ∈ t.chunks, index.toNat < t.expectedChunks
  fits : ∀ index data, t.chunks.lookup index = some data → data.length ≤ t.maxLen index

/-- Every chunk has the length its index demands. -/
def Exact (t : PendingUpdate) : Prop := ∀ index data, t.chunks.lookup index = some data → data.length = t.maxLen index

/-- The chunk at an index, empty if it is not there. -/
def contents (t : PendingUpdate) (i : Nat) : Bytes := (t.chunks.lookup (UInt32.ofNat i)).getD []

/-- The chunks that are there, in order. -/
def assembled (t : PendingUpdate) : Bytes := (List.range t.expectedChunks).flatMap t.contents

/-- The transfer with one more chunk. -/
def withChunk (t : PendingUpdate) (index : UInt32) (data : Bytes) : PendingUpdate :=
  { t with chunks := t.chunks.insert index data }

variable {rootPubkey : ByteArr 32} {index : UInt32} {data : Bytes}

theorem wf_transferOf {announcement : UpdateAnnouncement} {m : UpdateManifest} {wire : Bytes} {sig : ByteArr 64}
    (h : UpdateProtocol.Transferable c p announcement m wire sig) (peer : String) :
    (UpdateProtocol.transferOf announcement m sig peer).Wf c p.rootPubkey := by
  have hpos : 0 < m.chunkSize.toNat := Nat.pos_of_ne_zero fun h0 => h.chunkSize (UInt32.toNat_inj.mp h0)
  refine ⟨rfl, h.signed, hpos, ?_, h.count, fun index hindex => ?_, fun index data hdata => ?_⟩
  · exact if_neg (Nat.ne_of_gt hpos)
  · exact absurd hindex (AList.notMem_empty index)
  · rw [UpdateProtocol.transferOf, AList.lookup_empty] at hdata
    cases hdata

theorem Wf.withChunk (hw : t.Wf c rootPubkey) (hindex : index.toNat < t.expectedChunks)
    (hlen : data.length ≤ t.maxLen index) : (t.withChunk index data).Wf c rootPubkey := by
  refine ⟨hw.wire, hw.signed, hw.chunkSize, hw.expected, hw.count, fun i hi => ?_, fun i d hd => ?_⟩
  · rcases (AList.mem_insert _).mp hi with rfl | hold
    · exact hindex
    · exact hw.inside i hold
  · by_cases hi : i = index
    · subst hi
      rw [PendingUpdate.withChunk, AList.lookup_insert] at hd
      cases hd
      exact hlen
    · rw [PendingUpdate.withChunk, AList.lookup_insert_ne hi] at hd
      exact hw.fits i d hd

/-- An expected index is the number of a 32-bit index. -/
theorem Wf.toNat_ofNat (hw : t.Wf c rootPubkey) {i : Nat} (hi : i < t.expectedChunks) : (UInt32.ofNat i).toNat = i := by
  have hcount := hw.count
  rw [UInt32.toNat_ofNat', Nat.mod_eq_of_lt]
  simp only [maxChunks] at hcount
  omega

/-- The bound on the chunk at an index is the length of the piece there. -/
theorem Wf.maxLen_eq (hw : t.Wf c rootPubkey) {i : Nat} (hi : i < t.expectedChunks) :
    t.maxLen (UInt32.ofNat i) = pieceLen t.manifest.chunkSize.toNat t.manifest.apkSize.toNat i := by
  have hi' := hi
  rw [hw.expected] at hi'
  rw [pieceLen_eq hw.chunkSize hi', maxLen, hw.toNat_ofNat hi, hw.expected]

/-- **A full transfer has every expected chunk.** -/
theorem Wf.present (hw : t.Wf c rootPubkey) (hfull : t.IsFull) {i : Nat} (hi : i < t.expectedChunks) :
    ∃ data, t.chunks.lookup (UInt32.ofNat i) = some data := by
  have hmem : i ∈ t.chunks.keys.map UInt32.toNat := by
    refine mem_of_full (t.chunks.keys_nodup.map fun a b => UInt32.toNat_inj.mp) (fun j hj => ?_) ?_ hi
    · obtain ⟨index, hindex, rfl⟩ := List.mem_map.mp hj
      exact hw.inside index (AList.mem_keys.mpr hindex)
    · rw [List.length_map]
      exact hfull
  obtain ⟨index, hindex, rfl⟩ := List.mem_map.mp hmem
  rw [UInt32.ofNat_toNat]
  exact Option.isSome_iff_exists.mp (AList.lookup_isSome.mpr (AList.mem_keys.mpr hindex))

theorem Wf.isFull_iff (hw : t.Wf c rootPubkey) :
    t.IsFull ↔ ∀ i < t.expectedChunks, ∃ data, t.chunks.lookup (UInt32.ofNat i) = some data := by
  refine ⟨fun hfull i hi => hw.present hfull hi, fun hall => ?_⟩
  have hkeys : (t.chunks.keys.map UInt32.toNat).toFinset = Finset.range t.expectedChunks := by
    ext i
    rw [List.mem_toFinset, Finset.mem_range]
    constructor
    · intro hi
      obtain ⟨index, hindex, rfl⟩ := List.mem_map.mp hi
      exact hw.inside index (AList.mem_keys.mpr hindex)
    · intro hi
      obtain ⟨data, hdata⟩ := hall i hi
      have hmem : UInt32.ofNat i ∈ t.chunks := AList.lookup_isSome.mp (by rw [hdata]; rfl)
      exact List.mem_map.mpr ⟨_, AList.mem_keys.mp hmem, hw.toNat_ofNat hi⟩
  have hnodup : (t.chunks.keys.map UInt32.toNat).Nodup := t.chunks.keys_nodup.map fun a b => UInt32.toNat_inj.mp
  have hcard := List.toFinset_card_of_nodup hnodup
  rw [hkeys, Finset.card_range, List.length_map] at hcard
  exact hcard.symm

/-- The loop of the assembly, where no chunk is missing. -/
theorem foldlM_contents : ∀ (is : List Nat) (apk : Bytes),
    (∀ i ∈ is, ∃ data, t.chunks.lookup (UInt32.ofNat i) = some data) →
    is.foldlM t.addChunk apk = .ok (apk ++ is.flatMap t.contents)
  | [], apk, _ => by
    rw [List.flatMap_nil, List.append_nil]
    rfl
  | i :: is, apk, h => by
    obtain ⟨data, hdata⟩ := h i List.mem_cons_self
    have hc : t.contents i = data := by rw [contents, hdata, Option.getD_some]
    have hstep : t.addChunk apk i = .ok (apk ++ data) := by rw [addChunk, hdata]
    have ih := foldlM_contents is (apk ++ data) fun j hj => h j (List.mem_cons_of_mem _ hj)
    rw [List.foldlM_cons, hstep, List.flatMap_cons, hc, ← List.append_assoc]
    exact ih

theorem Wf.gather_full (hw : t.Wf c rootPubkey) (hfull : t.IsFull) : t.gather = .ok t.assembled :=
  foldlM_contents _ [] fun _ hi => hw.present hfull (List.mem_range.mp hi)

/-- **A full transfer is complete exactly when each chunk has the length its index demands.** -/
theorem Wf.complete_iff (hw : t.Wf c rootPubkey) (hfull : t.IsFull) :
    t.assembled.length = t.manifest.apkSize.toNat ↔ t.Exact := by
  have hle : ∀ i < divCeil t.manifest.apkSize.toNat t.manifest.chunkSize.toNat,
      (t.contents i).length ≤ pieceLen t.manifest.chunkSize.toNat t.manifest.apkSize.toNat i := by
    intro i hi
    rw [← hw.expected] at hi
    obtain ⟨data, hdata⟩ := hw.present hfull hi
    rw [← hw.maxLen_eq hi, contents, hdata, Option.getD_some]
    exact hw.fits _ data hdata
  rw [assembled, length_flatMap_range, hw.expected, sum_pieceLen_iff hw.chunkSize hle, ← hw.expected]
  constructor
  · intro hall index data hdata
    have hindex := hw.inside index (AList.lookup_isSome.mp (by rw [hdata]; rfl))
    have hlen := hall index.toNat hindex
    rwa [← hw.maxLen_eq hindex, contents, UInt32.ofNat_toNat, hdata, Option.getD_some] at hlen
  · intro hexact i hi
    obtain ⟨data, hdata⟩ := hw.present hfull hi
    rw [← hw.maxLen_eq hi, contents, hdata, Option.getD_some]
    exact hexact _ data hdata

end PendingUpdate

namespace UpdateProtocol

/-! ## Reachable states -/

/-- The transfer in progress, if any, is well formed. -/
def Wf (c : Primitives) (p : UpdateProtocol) : Prop := ∀ t, p.pending = some t → t.Wf c p.rootPubkey

theorem wf_of_none (h : p.pending = none) : p.Wf c := fun t ht => by rw [h] at ht; cases ht

/-- What a call leaves behind, with what the code has checked on the way. -/
inductive Outcome (c : Primitives) (p : UpdateProtocol) (call : UpdateCall) : UpdateProtocol → Prop
  | kept : Outcome c p call p
  | started {announcement : UpdateAnnouncement} {data : Bytes} {sig : ByteArr 64} {peer : String} {m : UpdateManifest}
    (hcall : call = .handleManifest announcement data sig peer) (hm : Transferable c p announcement m data sig) :
    Outcome c p call { p with pending := some (transferOf announcement m sig peer), lastVerified := none }
  | stored {index : UInt32} {data : Bytes} {t : PendingUpdate} (hcall : call = .handleChunk index data)
    (ht : p.pending = some t) (hindex : index.toNat < t.expectedChunks) (hlen : data.length ≤ t.maxLen index)
    (hnew : index ∉ t.chunks) : Outcome c p call { p with pending := some (t.withChunk index data) }
  | purged : Outcome c p call { p with pending := none }
  | verified {t : PendingUpdate} {apk : Bytes} {m : ApkManifest} (ht : p.pending = some t)
    (hm : verifyApkSignature c apk (t.manifestWire.take signedManifestLen) t.manifestSignature p.rootPubkey = .ok m) :
    Outcome c p call { p with
      pending := none, lastVerified := some ⟨t.version, UpdateAnnouncement.hashApk c apk⟩ }
  | installed (u : InstalledUpdate) : Outcome c p call { p.keepInstalled u with lastVerified := none, pending := none }
  | recorded (u : InstalledUpdate) : Outcome c p call (p.keepInstalled u)
  | rejected : Outcome c p call { p with pending := none, lastVerified := none }

/-- **What any call does.** -/
theorem outcome_apply (c : Primitives) (p : UpdateProtocol) (call : UpdateCall) :
    Outcome c p call (call.apply c p) := by
  cases call with
  | handleAnnouncement data sig => exact .kept
  | handleManifest announcement data sig peer =>
    simp only [UpdateCall.apply]
    cases h : p.handleManifest c announcement data sig peer with
    | error err => exact .kept
    | ok p' =>
      obtain ⟨m, hm, rfl⟩ := handleManifest_ok.mp h
      exact .started rfl hm
  | handleChunk index data =>
    simp only [UpdateCall.apply]
    cases h : p.handleChunk index data with
    | error err => exact .kept
    | ok r =>
      obtain ⟨status, p'⟩ := r
      obtain ⟨t, ht, hindex, hlen, ⟨-, -, rfl⟩ | ⟨hnew, -, rfl⟩⟩ := handleChunk_ok.mp h
      · exact .kept
      · exact .stored rfl ht hindex hlen hnew
  | assembleAndVerify =>
    simp only [UpdateCall.apply]
    rcases p.assembleAndVerify_cases c with ⟨err, h⟩ | ⟨t, apk, ht, -, -, -, ⟨err, h⟩ | ⟨⟨m, hm⟩, h⟩⟩ <;> rw [h]
    · exact .kept
    · exact .purged
    · exact .verified ht hm
  | installVerified apk destPath installedAt write =>
    simp only [UpdateCall.apply]
    cases h : p.installVerified c apk destPath installedAt write with
    | error err => exact .kept
    | ok r =>
      obtain ⟨installed, p'⟩ := r
      obtain ⟨last, -, -, -, -, rfl⟩ := installVerified_ok.mp h
      exact .installed installed
  | recordInstall version apkSha256 installedAt apkPath => exact .recorded _
  | rejectPending => exact .rejected

/-- Every call keeps the root key. -/
theorem Outcome.rootPubkey {call : UpdateCall} (h : Outcome c p call p') : p'.rootPubkey = p.rootPubkey := by
  cases h <;> rfl

/-- **What a call does to the transfer in progress**: it keeps it, drops it, starts one, or adds a chunk. -/
theorem Outcome.pending {call : UpdateCall} (h : Outcome c p call p') :
    p'.pending = p.pending ∨ p'.pending = none ∨
    (∃ announcement data sig peer m, call = .handleManifest announcement data sig peer ∧
      Transferable c p announcement m data sig ∧ p'.pending = some (transferOf announcement m sig peer)) ∨
    ∃ index data t, call = .handleChunk index data ∧ p.pending = some t ∧ index.toNat < t.expectedChunks ∧
      data.length ≤ t.maxLen index ∧ index ∉ t.chunks ∧ p'.pending = some (t.withChunk index data) := by
  cases h with
  | kept | recorded => exact .inl rfl
  | purged | verified | installed | rejected => exact .inr (.inl rfl)
  | started hcall hm => exact .inr (.inr (.inl ⟨_, _, _, _, _, hcall, hm, rfl⟩))
  | stored hcall ht hindex hlen hnew => exact .inr (.inr (.inr ⟨_, _, _, hcall, ht, hindex, hlen, hnew, rfl⟩))

/-- **Every call keeps the transfer well formed.** -/
theorem Wf.apply (hw : p.Wf c) (call : UpdateCall) : (call.apply c p).Wf c := by
  intro t ht
  rw [(outcome_apply c p call).rootPubkey]
  rcases (outcome_apply c p call).pending with
    h | h | ⟨announcement, data, sig, peer, m, -, hm, h⟩ | ⟨index, data, t', -, ht', hindex, hlen, -, h⟩ <;>
    rw [h] at ht
  · exact hw t ht
  · cases ht
  · cases ht
    exact PendingUpdate.wf_transferOf hm peer
  · cases ht
    exact (hw t' ht').withChunk hindex hlen

theorem wf_after (rootPubkey : ByteArr 32) (version : Version) (calls : List UpdateCall) :
    (after c (.new rootPubkey version) calls).Wf c := by
  induction calls using List.reverseRecOn with
  | nil => exact wf_of_none rfl
  | append_singleton calls call ih =>
    rw [after_snoc]
    exact ih.apply call

/-! ## The assembly -/

/-- **The assembly of a full transfer**: incomplete, or the transfer is used up. -/
theorem assembleAndVerify_full (hw : p.Wf c) (hp : p.pending = some t) (hfull : t.IsFull) :
    p.assembleAndVerify c =
      if t.assembled.length ≠ t.manifest.apkSize.toNat then
        (.error (.incompleteTransfer t.assembled.length t.manifest.apkSize.toNat), p)
      else if c.sha256 t.assembled = t.manifest.apkManifest.apkHash then
        (.ok t.assembled,
          { p with pending := none, lastVerified := some ⟨t.version, c.sha256 t.assembled⟩ })
      else (.error (.verificationFailed "APK content hash mismatch (tampered APK)"), { p with pending := none }) := by
  have ht := hw t hp
  unfold assembleAndVerify
  rw [hp]
  dsimp only
  rw [if_neg (not_not.mpr hfull), ht.gather_full hfull, ht.wire, UpdateManifest.take_toWireBytes]
  dsimp only
  rw [verifyApkSignature_signed ht.signed]
  by_cases hlen : t.assembled.length = t.manifest.apkSize.toNat
  · rw [if_neg (not_not.mpr hlen), if_neg (not_not.mpr hlen)]
    by_cases hhash : c.sha256 t.assembled = t.manifest.apkManifest.apkHash
    · rw [if_pos hhash, if_pos hhash]
      rfl
    · rw [if_neg hhash, if_neg hhash]
  · rw [if_pos hlen, if_pos hlen]

/-- **A full transfer is a dead end exactly when a chunk is short.** -/
theorem incomplete_iff (hw : p.Wf c) (hp : p.pending = some t) (hfull : t.IsFull) :
    (∀ received expected, (p.assembleAndVerify c).1 ≠ .error (.incompleteTransfer received expected)) ↔ t.Exact := by
  rw [← (hw t hp).complete_iff hfull, assembleAndVerify_full hw hp hfull]
  by_cases hlen : t.assembled.length = t.manifest.apkSize.toNat
  · rw [if_neg (not_not.mpr hlen)]
    refine iff_of_true (fun received expected => ?_) hlen
    split <;> simp
  · rw [if_pos hlen]
    exact iff_of_false (fun h => h _ _ rfl) hlen

/-- An assembly of a transfer that is not full changes nothing. -/
theorem assembleAndVerify_partial (hp : p.pending = some t) (hfull : ¬t.IsFull) :
    p.assembleAndVerify c = (.error (.incompleteTransfer p.chunksReceived p.totalChunks), p) := by
  unfold assembleAndVerify chunksReceived totalChunks
  rw [hp]
  exact if_pos hfull

/-- A full transfer takes no more chunks. -/
theorem handleChunk_full (hw : p.Wf c) (hp : p.pending = some t) (hfull : t.IsFull) (index : UInt32) (data : Bytes) :
    (UpdateCall.handleChunk index data).apply c p = p := by
  simp only [UpdateCall.apply]
  cases h : p.handleChunk index data with
  | error err => rfl
  | ok r =>
    obtain ⟨status, p'⟩ := r
    obtain ⟨t', ht', hindex, -, ⟨-, -, rfl⟩ | ⟨hnew, -, rfl⟩⟩ := handleChunk_ok.mp h
    · rfl
    · rw [hp] at ht'
      cases ht'
      obtain ⟨old, hold⟩ := (hw t hp).present hfull hindex
      rw [UInt32.ofNat_toNat] at hold
      exact absurd (AList.lookup_isSome.mp (by rw [hold]; rfl)) hnew

/-! ## Round trip -/

/-- The chunks are the pieces of the APK. -/
theorem chunk_eq (apk : Bytes) (index : UInt32) (k : Nat) :
    chunk apk index k = if index.toNat * k < apk.length then some (piece k apk index.toNat) else none := by
  unfold chunk
  dsimp only
  by_cases hstart : apk.length ≤ index.toNat * k
  · rw [if_pos hstart, if_neg (not_lt.mpr hstart)]
  · rw [if_neg hstart, if_pos (not_le.mp hstart), piece, List.drop_take]
    refine congrArg some (List.take_eq_take_iff.mpr ?_)
    rw [List.length_drop]
    omega

/-- The receiver is given the chunk of the APK at an index, if there is one. -/
def deliver (apk : Bytes) (chunkSize : UInt32) (p : UpdateProtocol) (index : UInt32) :
    Except UpdateError UpdateProtocol :=
  match chunk apk index chunkSize.toNat with
  | some data => Prod.snd <$> p.handleChunk index data
  | none => .ok p

/-- The transfer holds the chunks of the APK that were delivered. -/
def Holds (apk : Bytes) (t : PendingUpdate) (seen : Finset UInt32) (p : UpdateProtocol) : Prop :=
  ∃ chunks, p.pending = some { t with chunks := chunks } ∧ ∀ index, chunks.lookup index =
    if index ∈ seen then chunk apk index t.manifest.chunkSize.toNat else none

variable {apk : Bytes} {seen : Finset UInt32} {rootPubkey : ByteArr 32}

/-- **One delivery** is accepted, and the transfer holds the chunk. -/
theorem Holds.deliver (hh : Holds apk t seen p) (ht : t.Wf c rootPubkey)
    (hsize : t.manifest.apkSize.toNat = apk.length) (index : UInt32) :
    ∃ q, deliver apk t.manifest.chunkSize p index = .ok q ∧ Holds apk t (insert index seen) q := by
  obtain ⟨chunks, hp, hlookup⟩ := hh
  by_cases hstart : index.toNat * t.manifest.chunkSize.toNat < apk.length
  · have hchunk : chunk apk index t.manifest.chunkSize.toNat =
        some (piece t.manifest.chunkSize.toNat apk index.toNat) := by rw [chunk_eq, if_pos hstart]
    have hindex : index.toNat < t.expectedChunks := by
      rw [ht.expected, hsize]
      exact (lt_divCeil ht.chunkSize).mpr hstart
    have hlen : (piece t.manifest.chunkSize.toNat apk index.toNat).length ≤ t.maxLen index := by
      have hmax := ht.maxLen_eq hindex
      rw [UInt32.ofNat_toNat, hsize] at hmax
      rw [hmax, length_piece]
    by_cases hknown : index ∈ chunks
    · refine ⟨p, ?_, chunks, hp, fun i => ?_⟩
      · have hok := handleChunk_ok.mpr ⟨_, hp, hindex, hlen, .inl ⟨hknown, rfl, rfl⟩⟩
        rw [UpdateProtocol.deliver, hchunk]
        dsimp only
        rw [hok]
        rfl
      · rw [hlookup]
        by_cases hi : i = index
        · have hsome := AList.lookup_isSome.mpr hknown
          rw [hlookup] at hsome
          have hseen : index ∈ seen := by
            by_contra hnot
            rw [if_neg hnot] at hsome
            cases hsome
          rw [hi, if_pos hseen, if_pos (Finset.mem_insert_self _ _)]
        · simp [hi]
    · refine ⟨{ p with pending := some { t with
        chunks := chunks.insert index (piece t.manifest.chunkSize.toNat apk index.toNat) } }, ?_, _, rfl, fun i => ?_⟩
      · have hok := handleChunk_ok.mpr ⟨_, hp, hindex, hlen, .inr ⟨hknown, rfl, rfl⟩⟩
        rw [UpdateProtocol.deliver, hchunk]
        dsimp only
        rw [hok]
        rfl
      · by_cases hi : i = index
        · rw [hi, AList.lookup_insert, if_pos (Finset.mem_insert_self _ _), hchunk]
        · rw [AList.lookup_insert_ne hi, hlookup]
          simp [hi]
  · have hchunk : chunk apk index t.manifest.chunkSize.toNat = none := by rw [chunk_eq, if_neg hstart]
    refine ⟨p, by rw [UpdateProtocol.deliver, hchunk], chunks, hp, fun i => ?_⟩
    rw [hlookup]
    by_cases hi : i = index
    · rw [hi, hchunk, ite_self, ite_self]
    · simp [hi]

/-- A delivery is a call. -/
theorem Wf.deliver {q : UpdateProtocol} {k : UInt32} {index : UInt32} (hw : p.Wf c)
    (h : UpdateProtocol.deliver apk k p index = .ok q) : q.Wf c := by
  unfold UpdateProtocol.deliver at h
  cases hc : chunk apk index k.toNat with
  | none =>
    rw [hc] at h
    cases h
    exact hw
  | some data =>
    have hstep := hw.apply (.handleChunk index data)
    simp only [UpdateCall.apply] at hstep
    simp only [hc] at h
    cases hr : p.handleChunk index data with
    | error err =>
      rw [hr] at h
      cases h
    | ok r =>
      rw [hr] at h hstep
      cases h
      exact hstep

theorem Holds.deliverAll (ht : t.Wf c rootPubkey) (hsize : t.manifest.apkSize.toNat = apk.length) :
    ∀ (order : List UInt32) (seen : Finset UInt32) (p : UpdateProtocol), Holds apk t seen p → p.Wf c →
    ∃ q, order.foldlM (UpdateProtocol.deliver apk t.manifest.chunkSize) p = .ok q ∧
      Holds apk t (seen ∪ order.toFinset) q ∧ q.Wf c
  | [], seen, p, hh, hw => ⟨p, rfl, by rwa [List.toFinset_nil, Finset.union_empty], hw⟩
  | index :: order, seen, p, hh, hw => by
    obtain ⟨q, hq, hh'⟩ := hh.deliver ht hsize index
    obtain ⟨r, hr, hh'', hw''⟩ := Holds.deliverAll ht hsize order (insert index seen) q hh' (hw.deliver hq)
    refine ⟨r, by rw [List.foldlM_cons, hq]; exact hr, ?_, hw''⟩
    rwa [List.toFinset_cons, Finset.union_insert, ← Finset.insert_union]

/-- **A transfer that holds every chunk of the APK assembles to it**, and one that does not is incomplete. -/
theorem Holds.assemble (hh : Holds apk t seen p) (hw : p.Wf c) (ht : t.Wf c rootPubkey)
    (hsize : t.manifest.apkSize.toNat = apk.length) (hhash : t.manifest.apkManifest.apkHash = c.sha256 apk) :
    ((∀ i < t.expectedChunks, UInt32.ofNat i ∈ seen) → (p.assembleAndVerify c).1 = .ok apk) ∧
    ((∃ i < t.expectedChunks, UInt32.ofNat i ∉ seen) →
      p.assembleAndVerify c = (.error (.incompleteTransfer p.chunksReceived p.totalChunks), p)) := by
  obtain ⟨chunks, hp, hlookup⟩ := hh
  have hwp := hw _ hp
  -- an expected index is inside the APK
  have hpiece : ∀ i < t.expectedChunks, chunk apk (UInt32.ofNat i) t.manifest.chunkSize.toNat =
      some (piece t.manifest.chunkSize.toNat apk i) := by
    intro i hi
    have hstart := hi
    rw [ht.expected, hsize, lt_divCeil ht.chunkSize] at hstart
    rw [chunk_eq, ht.toNat_ofNat hi, if_pos hstart]
  constructor
  · intro hall
    have hpresent : ∀ i < t.expectedChunks, chunks.lookup (UInt32.ofNat i) =
        some (piece t.manifest.chunkSize.toNat apk i) := by
      intro i hi
      rw [hlookup, if_pos (hall i hi), hpiece i hi]
    have hfull : ({ t with chunks := chunks } : PendingUpdate).IsFull :=
      hwp.isFull_iff.mpr fun i hi => ⟨_, hpresent i hi⟩
    have hassembled : ({ t with chunks := chunks } : PendingUpdate).assembled = apk := by
      have hcontents : ∀ i ∈ List.range t.expectedChunks,
          ({ t with chunks := chunks } : PendingUpdate).contents i = piece t.manifest.chunkSize.toNat apk i := by
        intro i hi
        rw [PendingUpdate.contents, hpresent i (List.mem_range.mp hi), Option.getD_some]
      have hpieces := flatMap_piece ht.chunkSize apk
      rw [← hsize, ← ht.expected] at hpieces
      rw [PendingUpdate.assembled, List.flatMap_congr hcontents, hpieces]
    rw [assembleAndVerify_full hw hp hfull, hassembled, if_neg (not_not.mpr hsize.symm), if_pos hhash.symm]
  · rintro ⟨i, hi, hmissing⟩
    refine assembleAndVerify_partial hp fun hfull => ?_
    obtain ⟨data, hdata⟩ := hwp.present hfull hi
    rw [hlookup, if_neg hmissing] at hdata
    cases hdata

end UpdateProtocol

/-- **Round trip.** After a manifest built for an APK is accepted with the announcement built for it, the chunks of
the APK are accepted in any order and any number of times; once all are there the assembly returns the APK, and before
it is incomplete and changes nothing. -/
theorem transfer_round_trip (c : Primitives) (p p' : UpdateProtocol) (root : Identity) (version : Version)
    (apk : Bytes) (devPubkey : ByteArr 32) (announcedAt builtAt : UInt64) (chunkSize : UInt32) (peer : String)
    (hsize : apk.length ≤ maxApkSize)
    (haccepted : p.handleManifest c (UpdateProtocol.buildAnnouncement c version apk root announcedAt).1
      (UpdateProtocol.buildManifest c apk root devPubkey builtAt chunkSize).2.2
      (UpdateProtocol.buildManifest c apk root devPubkey builtAt chunkSize).2.1 peer = .ok p') (order : List UInt32) :
    ∃ q, order.foldlM (UpdateProtocol.deliver apk chunkSize) p' = .ok q ∧
      ((∀ i < UpdateProtocol.chunkCount apk.length chunkSize.toNat, UInt32.ofNat i ∈ order) →
        (q.assembleAndVerify c).1 = .ok apk) ∧
      ((∃ i < UpdateProtocol.chunkCount apk.length chunkSize.toNat, UInt32.ofNat i ∉ order) →
        q.assembleAndVerify c = (.error (.incompleteTransfer q.chunksReceived q.totalChunks), q)) := by
  obtain ⟨m, hm, rfl⟩ := UpdateProtocol.handleManifest_ok.mp haccepted
  have hbuilt : m = (UpdateProtocol.buildManifest c apk root devPubkey builtAt chunkSize).1 :=
    UpdateManifest.toWireBytes_injective hm.wire.symm
  have hlen : m.apkSize.toNat = apk.length := by
    rw [hbuilt]
    refine (UInt64.toNat_ofNat' ..).trans (Nat.mod_eq_of_lt (lt_of_le_of_lt hsize ?_))
    decide
  have hchunk : m.chunkSize = chunkSize := by rw [hbuilt]; rfl
  have hhash : m.apkManifest.apkHash = c.sha256 apk := by rw [hbuilt]; rfl
  have ht := PendingUpdate.wf_transferOf hm peer
  generalize hann : (UpdateProtocol.buildAnnouncement c version apk root announcedAt).1 = announcement at hm ht
  have hstart : UpdateProtocol.Holds apk (UpdateProtocol.transferOf announcement m
      (UpdateProtocol.buildManifest c apk root devPubkey builtAt chunkSize).2.1 peer) ∅
      { p with
        pending := some (UpdateProtocol.transferOf announcement m
          (UpdateProtocol.buildManifest c apk root devPubkey builtAt chunkSize).2.1 peer)
        lastVerified := none } := ⟨∅, rfl, fun index => by rw [AList.lookup_empty]; rfl⟩
  obtain ⟨q, hq, hh, hw⟩ := UpdateProtocol.Holds.deliverAll ht hlen order ∅ _ hstart (by rintro t ⟨⟩; exact ht)
  have hend := hh.assemble hw ht hlen hhash
  have hcount : (UpdateProtocol.transferOf announcement m
      (UpdateProtocol.buildManifest c apk root devPubkey builtAt chunkSize).2.1 peer).expectedChunks =
      UpdateProtocol.chunkCount apk.length chunkSize.toNat := by
    rw [UpdateProtocol.transferOf, hlen, hchunk]
  have hsize' : (UpdateProtocol.transferOf announcement m
      (UpdateProtocol.buildManifest c apk root devPubkey builtAt chunkSize).2.1 peer).manifest.chunkSize =
      chunkSize := hchunk
  rw [hsize'] at hq
  rw [hcount] at hend
  simp only [Finset.empty_union, List.mem_toFinset] at hend
  exact ⟨q, hq, hend⟩

/-- Two chunks, the second one first and twice. -/
theorem transfer_known : ∃ q, [1, 1, 0].foldlM (UpdateProtocol.deliver knownApk 2)
      { knownReceiver with pending := some knownTransfer, lastVerified := none } = .ok q ∧
    (q.assembleAndVerify updatePrimitives).1 = .ok knownApk := by
  obtain ⟨q, hq, hall, -⟩ := transfer_round_trip updatePrimitives knownReceiver _ (.ofByte 1) ⟨1, 0, 1⟩ knownApk
    knownRoot 1700000000 1700000000 2 "peer" (by decide) known_accepted [1, 1, 0]
  exact ⟨q, hq, hall (by decide)⟩

/-! ## Dead ends -/

/-- The call stores no chunk shorter than its index demands. -/
def UpdateCall.Whole (p : UpdateProtocol) : UpdateCall → Prop
  | .handleChunk index data =>
    ∀ t, p.pending = some t → index.toNat < t.expectedChunks → index ∉ t.chunks → t.maxLen index ≤ data.length
  | _ => True

theorem whole_handleChunk {index : UInt32} {data : Bytes}
    (h : (p.pending.all fun t => t.maxLen index ≤ data.length) = true) :
    (UpdateCall.handleChunk index data).Whole p := by
  intro t ht _ _
  rw [ht] at h
  exact of_decide_eq_true h

/-- Every chunk that is stored has the length its index demands. -/
theorem exact_apply (he : ∀ t, p.pending = some t → t.Exact) (call : UpdateCall) (hwhole : call.Whole p) :
    ∀ t, (call.apply c p).pending = some t → t.Exact := by
  intro t ht
  rcases (UpdateProtocol.outcome_apply c p call).pending with
    h | h | ⟨announcement, data, sig, peer, m, -, hm, h⟩ | ⟨index, data, t', rfl, ht', hindex, hlen, hnew, h⟩ <;>
    rw [h] at ht
  · exact he t ht
  · cases ht
  · cases ht
    intro index data hdata
    rw [UpdateProtocol.transferOf, AList.lookup_empty] at hdata
    cases hdata
  · cases ht
    have hlong := hwhole t' ht' hindex hnew
    intro i d hd
    by_cases hi : i = index
    · subst hi
      rw [PendingUpdate.withChunk, AList.lookup_insert] at hd
      cases hd
      exact Nat.le_antisymm hlen hlong
    · rw [PendingUpdate.withChunk, AList.lookup_insert_ne hi] at hd
      exact he t' ht' i d hd

/-- Each call of the run stores no shorter chunk. -/
def WholeRun (c : Primitives) : UpdateProtocol → List UpdateCall → Prop
  | _, [] => True
  | p, call :: calls => call.Whole p ∧ WholeRun c (call.apply c p) calls

theorem exact_after : ∀ (calls : List UpdateCall) (p : UpdateProtocol), (∀ t, p.pending = some t → t.Exact) →
    WholeRun c p calls → ∀ t, (after c p calls).pending = some t → t.Exact
  | [], _, he, _ => he
  | call :: calls, _, he, hwhole => exact_after calls _ (exact_apply he call hwhole.1) hwhole.2

/-- **When a full transfer finishes.** In every reachable state whose transfer is full, the assembly finds it complete
exactly when every stored chunk has the length its index demands. Hence in every run that stores no shorter chunk, the
assembly of a full transfer uses it up. -/
theorem full_transfer (c : Primitives) (rootPubkey : ByteArr 32) (version : Version) (calls : List UpdateCall)
    (t : PendingUpdate) :
    let p := after c (.new rootPubkey version) calls
    p.pending = some t → p.chunksReceived = p.totalChunks →
      ((∀ received expected, (p.assembleAndVerify c).1 ≠ .error (.incompleteTransfer received expected)) ↔ t.Exact) ∧
      (WholeRun c (.new rootPubkey version) calls →
        (∀ received expected, (p.assembleAndVerify c).1 ≠ .error (.incompleteTransfer received expected)) ∧
        (p.assembleAndVerify c).2.pending = none) := by
  intro p hp hcount
  have hw : p.Wf c := UpdateProtocol.wf_after rootPubkey version calls
  have hfull : t.IsFull := by
    rw [UpdateProtocol.chunksReceived, UpdateProtocol.totalChunks, hp] at hcount
    exact hcount
  have hiff := UpdateProtocol.incomplete_iff hw hp hfull
  refine ⟨hiff, fun hwhole => ?_⟩
  have hexact : t.Exact := exact_after calls _ (fun t' ht' => by cases ht') hwhole t hp
  refine ⟨hiff.mpr hexact, ?_⟩
  rw [UpdateProtocol.assembleAndVerify_full hw hp hfull,
    if_neg (not_not.mpr (((hw t hp).complete_iff hfull).mpr hexact))]
  split <;> rfl

/-- The known transfer, whose chunks are whole. -/
def uncut : List UpdateCall :=
  [.handleManifest knownAnnouncement.1 knownManifest.2.2 knownManifest.2.1 "peer", .handleChunk 1 (utf8Bytes "k!"),
    .handleChunk 0 (utf8Bytes "ap")]

theorem uncut_finishes : ∃ t, (after updatePrimitives (.new knownRoot ⟨1, 0, 0⟩) uncut).pending = some t ∧
    ((after updatePrimitives (.new knownRoot ⟨1, 0, 0⟩) uncut).assembleAndVerify updatePrimitives).2.pending =
      none := by
  have hpending : (after updatePrimitives (.new knownRoot ⟨1, 0, 0⟩) uncut).pending.isSome = true := by
    decide +kernel
  have hwhole : WholeRun updatePrimitives (.new knownRoot ⟨1, 0, 0⟩) uncut :=
    ⟨trivial, whole_handleChunk (by decide +kernel), whole_handleChunk (by decide +kernel), trivial⟩
  obtain ⟨t, ht⟩ := Option.isSome_iff_exists.mp hpending
  have hend := full_transfer updatePrimitives knownRoot ⟨1, 0, 0⟩ uncut t ht (by decide +kernel)
  exact ⟨t, ht, (hend.2 hwhole).2⟩

/-- The known transfer, whose first chunk is cut short. -/
def cutShort : List UpdateCall :=
  [.handleManifest knownAnnouncement.1 knownManifest.2.2 knownManifest.2.1 "peer", .handleChunk 0 (utf8Bytes "a"),
    .handleChunk 1 (utf8Bytes "k!")]

/-- **A transfer can be a dead end**: with its first chunk cut short by one byte it is full, the assembly finds it
incomplete and keeps it, and no chunk changes it any more. -/
theorem dead_end :
    let p := after updatePrimitives knownReceiver cutShort
    p.pending ≠ none ∧ p.chunksReceived = p.totalChunks ∧
      p.assembleAndVerify updatePrimitives = (.error (.incompleteTransfer 3 4), p) ∧
      ∀ index data, (UpdateCall.handleChunk index data).apply updatePrimitives p = p := by
  intro p
  have hw : p.Wf updatePrimitives := UpdateProtocol.wf_after knownRoot ⟨1, 0, 0⟩ cutShort
  have hcount : p.chunksReceived = 2 ∧ p.totalChunks = 2 := by decide +kernel
  have hincomplete : (p.assembleAndVerify updatePrimitives).1 = .error (.incompleteTransfer 3 4) := by decide +kernel
  cases hp : p.pending with
  | none =>
    rw [UpdateProtocol.chunksReceived, hp] at hcount
    exact absurd hcount.1 (by decide)
  | some t =>
    rw [UpdateProtocol.chunksReceived, UpdateProtocol.totalChunks, hp] at hcount
    have hfull : t.IsFull := hcount.1.trans hcount.2.symm
    refine ⟨Option.some_ne_none t, ?_, ?_, fun index data => UpdateProtocol.handleChunk_full hw hp hfull index data⟩
    · rw [UpdateProtocol.chunksReceived, UpdateProtocol.totalChunks, hp]
      exact hfull
    · rcases p.assembleAndVerify_cases updatePrimitives with
        ⟨err, h⟩ | ⟨t, apk, -, -, -, -, ⟨err, h⟩ | ⟨-, h⟩⟩ <;> rw [h] at hincomplete
      · cases hincomplete
        exact h
      · cases hincomplete
      · cases hincomplete

end Onde.Update

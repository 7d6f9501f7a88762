import Onde.Zim.Layout

/-!
# What is a cluster?

A code, then blobs each behind its size, up to the end of the range: this is what is accepted, and nothing else.

* `ClusterAt`: the grammar; `accepts_iff`: the walk takes exactly what it produces (`walk_sound`, `walk_laidOut`);
* `Lists`: the blobs are in order, apart, inside the cluster, and where they say they are (`lists_rawBlobs`);
* `acceptsGrammar_iff`: they are exactly if each begins in the first `2 ^ 32` bytes (`fits_of_ordered`).
-/

namespace Onde.Zim

open Lib Outcome

variable {w : Nat} {data : Bytes} {start stop : Nat}

/-! ## The grammar -/

/-- The range is the cluster: a known code, then each blob behind its size, and no more. -/
structure ClusterAt (data : Bytes) (start stop : Nat) (c : ZimCluster) : Prop where
  known : c.code = compNone ∨ c.code = compLz4 ∨ c.code = compZstd
  sizes : ∀ b ∈ c.blobs, b.length < 2 ^ 32
  bytes : getRange data start stop = some c.encode

/-- The range is where the cluster is laid out, and ends with it. -/
theorem ClusterAt.located {c : ZimCluster} (hc : ClusterAt data start stop c) :
    At data start c.encode ∧ stop = start + c.encode.length := by
  obtain ⟨hle, _, htake⟩ := getRange_eq_some.mp hc.bytes
  have hlength := length_of_getRange hc.bytes
  refine ⟨?_, by omega⟩
  unfold At
  rw [← htake]
  exact List.take_prefix _ _

/-- A blob is its size field and its bytes. -/
theorem at_encodeBlob {pos : Nat} (hin : pos + 4 + sizeAt data pos ≤ data.length) :
    At data pos (encodeBlob ((data.drop (pos + 4)).take (sizeAt data pos))) := by
  have hlength : ((data.drop (pos + 4)).take (sizeAt data pos)).length = sizeAt data pos := by
    rw [List.length_take, List.length_drop]
    omega
  have hfour : ((data.drop pos).take 4).length = 4 := by
    rw [List.length_take, List.length_drop]
    omega
  have hfield := leBytes_ofLe ((data.drop pos).take 4)
  rw [hfour, ← sizeAt] at hfield
  rw [encodeBlob, hlength, at_append, length_leBytes, hfield]
  exact ⟨List.take_prefix _ _, List.take_prefix _ _⟩

/-- **A walk that comes to its end has read blobs laid out one after the other.** -/
theorem walk_sound (hw : 32 ≤ w) (hlen : data.length < 2 ^ (w - 1)) (hstop : stop ≤ data.length) {n pos : Nat}
    {acc blobs : List BlobRaw} (hpos : start ≤ pos) (hle : pos ≤ stop)
    (h : loop (blobStep w data start stop) n (pos, acc) = .ok blobs) :
    ∃ bs : List Bytes, (∀ b ∈ bs, b.length < 2 ^ 32) ∧ At data pos (bs.flatMap encodeBlob) ∧
      pos + (bs.flatMap encodeBlob).length = stop ∧ blobs = acc ++ (rawBlobs (pos - start) bs).map .recorded := by
  induction n generalizing pos acc with
  | zero => cases h
  | succ n ih =>
    rcases blobStep_cases hw hlen hstop start pos acc with
      ⟨hend, hstep⟩ | ⟨_, _, hstep⟩ | ⟨_, _, _, hstep⟩ | ⟨_, _, hstep⟩ | ⟨hfits, hstep⟩
    · rw [loop_done hstep] at h
      obtain rfl := Outcome.ok.inj h
      refine ⟨[], nofun, List.nil_prefix, ?_, (List.append_nil acc).symm⟩
      rw [List.flatMap_nil, List.length_nil]
      omega
    · rw [loop, hstep] at h
      cases h
    · rw [loop, hstep] at h
      cases h
    · rw [loop, hstep] at h
      cases h
    · rw [loop_again hstep] at h
      obtain ⟨bs, hsizes, hat, hend, rfl⟩ := ih (by omega) (by omega) h
      have hsize := sizeAt_lt data pos
      have hblob := at_encodeBlob (show pos + 4 + sizeAt data pos ≤ data.length by omega)
      have hlength : ((data.drop (pos + 4)).take (sizeAt data pos)).length = sizeAt data pos := by
        rw [List.length_take, List.length_drop]
        omega
      have hencode : (encodeBlob ((data.drop (pos + 4)).take (sizeAt data pos))).length = 4 + sizeAt data pos := by
        rw [length_encodeBlob, hlength]
      refine ⟨(data.drop (pos + 4)).take (sizeAt data pos) :: bs, ?_, ?_, ?_, ?_⟩
      · exact List.forall_mem_cons.mpr ⟨by omega, hsizes⟩
      · rw [List.flatMap_cons, at_append, hencode, ← Nat.add_assoc]
        exact ⟨hblob, hat⟩
      · rw [List.flatMap_cons, List.length_append, hencode]
        omega
      · rw [List.append_assoc, rawBlobs, hlength,
          show pos + 4 + sizeAt data pos - start = pos - start + (4 + sizeAt data pos) by omega]
        rfl

/-- **A cluster is accepted exactly if it is in the grammar**, and its blobs are then recorded in order. -/
theorem parseCluster_eq_ok (hw : 32 ≤ w) (hlen : data.length < 2 ^ (w - 1)) {code : UInt8} {blobs : List BlobRaw} :
    (∃ fuel, parseCluster w data start stop fuel = .ok (code, blobs)) ↔
      ∃ payloads, ClusterAt data start stop ⟨code, payloads⟩ ∧ blobs = (rawBlobs 1 payloads).map .recorded := by
  constructor
  · rintro ⟨fuel, h⟩
    unfold parseCluster at h
    obtain ⟨_, hguard, h⟩ := bind_eq_ok.mp h
    obtain ⟨code', hcode, h⟩ := bind_eq_ok.mp h
    obtain ⟨_, hknown, h⟩ := bind_eq_ok.mp h
    obtain ⟨blobs', hwalk, h⟩ := bind_eq_ok.mp h
    cases h
    have hguard := failIf_eq_ok.mp hguard
    have hone : wadd w start 1 = start + 1 := wadd_within hw hlen (by omega)
    rw [hone] at hguard hwalk
    obtain ⟨payloads, hsizes, hat, hend, rfl⟩ := walk_sound hw hlen (by omega) (by omega) (by omega) hwalk
    have hknown := failIf_eq_ok.mp hknown
    refine ⟨payloads, ⟨by tauto, hsizes, ?_⟩, ?_⟩
    · have hencode : At data start (ZimCluster.encode ⟨code, payloads⟩) := at_cons.mpr ⟨okOr_eq_ok.mp hcode, hat⟩
      have hlength : (ZimCluster.encode ⟨code, payloads⟩).length = (payloads.flatMap encodeBlob).length + 1 :=
        List.length_cons
      have hrange := hencode.getRange (by omega)
      rwa [show start + (ZimCluster.encode ⟨code, payloads⟩).length = stop by omega] at hrange
    · rw [List.nil_append, Nat.add_sub_cancel_left]
  · rintro ⟨payloads, hc, rfl⟩
    obtain ⟨hat, rfl⟩ := hc.located
    exact ⟨data.length + 1, cluster_recorded hw hlen hc.known hc.sizes hat (Nat.lt_succ_self _)⟩

/-! ## Where the blobs are -/

/-- The records list the blobs of the cluster: in order, apart, inside the range, each where it says it is. -/
structure Lists (data : Bytes) (start stop : Nat) (payloads : List Bytes) (blobs : List BlobRaw) : Prop where
  payloads : blobs.map BlobRaw.data = payloads
  sizes : ∀ b ∈ blobs, b.size = b.data.length
  ordered : blobs.Pairwise fun a b => a.offsetInCluster + 4 + a.size ≤ b.offsetInCluster
  inside : ∀ b ∈ blobs, 1 ≤ b.offsetInCluster ∧ start + b.offsetInCluster + 4 + b.size ≤ stop
  placed : ∀ b ∈ blobs, At data (start + b.offsetInCluster) (encodeBlob b.data)

theorem map_data_rawBlobs : ∀ (off : Nat) (bs : List Bytes), (rawBlobs off bs).map BlobRaw.data = bs
  | _, [] => rfl
  | off, b :: bs => congrArg (b :: ·) (map_data_rawBlobs (off + (4 + b.length)) bs)

theorem size_rawBlobs {off : Nat} {bs : List Bytes} {b : BlobRaw} (h : b ∈ rawBlobs off bs) :
    b.size = b.data.length := by
  induction bs generalizing off with
  | nil => cases h
  | cons p bs ih =>
    rcases List.mem_cons.mp h with rfl | h
    · rfl
    · exact ih h

theorem ordered_rawBlobs (off : Nat) (bs : List Bytes) :
    (rawBlobs off bs).Pairwise fun a b => a.offsetInCluster + 4 + a.size ≤ b.offsetInCluster := by
  induction bs generalizing off with
  | nil => exact .nil
  | cons p bs ih =>
    refine .cons (fun b hb => ?_) (ih _)
    have hwithin := (rawBlobs_within hb).1
    dsimp only
    omega

theorem placed_rawBlobs {off : Nat} {bs : List Bytes} (h : At data (start + off) (bs.flatMap encodeBlob)) :
    ∀ b ∈ rawBlobs off bs, At data (start + b.offsetInCluster) (encodeBlob b.data) := by
  induction bs generalizing off with
  | nil => exact nofun
  | cons p bs ih =>
    rw [List.flatMap_cons, at_append, length_encodeBlob, Nat.add_assoc] at h
    exact List.forall_mem_cons.mpr ⟨h.1, ih h.2⟩

/-- **The offsets of a cluster list its blobs.** -/
theorem lists_rawBlobs {c : ZimCluster} (hc : ClusterAt data start stop c) :
    Lists data start stop c.blobs (rawBlobs 1 c.blobs) := by
  obtain ⟨hat, rfl⟩ := hc.located
  refine ⟨map_data_rawBlobs 1 _, fun b hb => size_rawBlobs hb, ordered_rawBlobs 1 _, fun b hb => ?_,
    placed_rawBlobs (at_cons.mp hat).2⟩
  have hsize := size_rawBlobs hb
  have hwithin := rawBlobs_within hb
  have hlength : c.encode.length = (c.blobs.flatMap encodeBlob).length + 1 := List.length_cons
  rw [length_encodeBlob] at hwithin
  omega

/-- Offsets that are recorded in order are recorded whole. -/
theorem fits_of_ordered {off : Nat} {bs : List Bytes} (hoff : off < 2 ^ 32)
    (h : ((rawBlobs off bs).map BlobRaw.recorded).Pairwise fun a b =>
      a.offsetInCluster + 4 + a.size ≤ b.offsetInCluster) :
    ∀ b ∈ rawBlobs off bs, b.offsetInCluster < 2 ^ 32 := by
  induction bs generalizing off with
  | nil => exact nofun
  | cons p bs ih =>
    obtain ⟨hhead, htail⟩ := List.pairwise_cons.mp h
    refine List.forall_mem_cons.mpr ⟨hoff, ?_⟩
    cases bs with
    | nil => exact nofun
    | cons q bs =>
      -- the next blob is recorded where this one ends, or before that
      have hnext := hhead _ (List.mem_cons_self ..)
      have hlt : asU32 (off + (4 + p.length)) < 2 ^ 32 := Nat.mod_lt _ (by decide)
      have hoff' : asU32 off = off := Nat.mod_eq_of_lt hoff
      simp only [BlobRaw.recorded, hoff'] at hnext
      exact ih (by omega) htail

/-! ## The parser and the grammar -/

/-- The parser accepts the range exactly if it is a cluster, and then lists its blobs. -/
structure AcceptsGrammar (data : Bytes) (start stop : Nat) : Prop where
  accepts : ∀ code, (∃ fuel blobs, parseCluster 64 data start stop fuel = .ok (code, blobs)) ↔
    ∃ payloads, ClusterAt data start stop ⟨code, payloads⟩
  lists : ∀ fuel code blobs, parseCluster 64 data start stop fuel = .ok (code, blobs) →
    ∀ payloads, ClusterAt data start stop ⟨code, payloads⟩ → Lists data start stop payloads blobs

/-- **What is accepted is the grammar; the blobs are listed exactly if each begins in the first `2 ^ 32` bytes.** -/
theorem acceptsGrammar_iff (b : Buffer 64) (start stop : Nat) : AcceptsGrammar b.bytes start stop ↔
    ∀ c, ClusterAt b.bytes start stop c → ∀ blob ∈ rawBlobs 1 c.blobs, blob.offsetInCluster < 2 ^ 32 := by
  have hparse : ∀ code blobs, (∃ fuel, parseCluster 64 b.bytes start stop fuel = .ok (code, blobs)) ↔
      ∃ payloads, ClusterAt b.bytes start stop ⟨code, payloads⟩ ∧ blobs = (rawBlobs 1 payloads).map .recorded :=
    fun _ _ => parseCluster_eq_ok (by decide) b.length_lt
  constructor
  · intro h c hc
    obtain ⟨fuel, hread⟩ := (hparse c.code _).mpr ⟨c.blobs, hc, rfl⟩
    exact fits_of_ordered (by decide) (h.lists fuel c.code _ hread c.blobs hc).ordered
  · intro h
    refine ⟨fun code => ⟨?_, ?_⟩, fun fuel code blobs hread payloads hc => ?_⟩
    · rintro ⟨fuel, blobs, hread⟩
      obtain ⟨payloads, hc, _⟩ := (hparse code blobs).mp ⟨fuel, hread⟩
      exact ⟨payloads, hc⟩
    · rintro ⟨payloads, hc⟩
      obtain ⟨fuel, hread⟩ := (hparse code _).mpr ⟨payloads, hc, rfl⟩
      exact ⟨fuel, _, hread⟩
    · obtain ⟨fuel', hread'⟩ := (hparse code _).mpr ⟨payloads, hc, rfl⟩
      have heq := (settles_parseCluster 64 b.bytes start stop).eq (n := fuel) (k := fuel') (by rw [hread]; nofun)
        (by rw [hread']; nofun)
      rw [hread, hread'] at heq
      obtain ⟨_, rfl⟩ := Prod.mk.inj (Outcome.ok.inj heq)
      rw [map_recorded (h _ hc)]
      exact lists_rawBlobs hc

/-! ### A cluster of more than four gibibytes -/

/-- A blob of zeros, then an empty one. -/
def twoBlobs (n : Nat) : ZimCluster := ⟨compNone, [List.replicate n 0, []]⟩

theorem length_twoBlobs (n : Nat) : (twoBlobs n).encode.length = n + 9 := by
  simp only [twoBlobs, ZimCluster.encode, List.length_cons, List.flatMap_cons, List.flatMap_nil, List.length_append,
    length_encodeBlob, List.length_replicate, List.length_nil]
  omega

theorem twoBlobs_at {n : Nat} (hn : n < 2 ^ 32) : ClusterAt (twoBlobs n).encode 0 (n + 9) (twoBlobs n) := by
  refine ⟨Or.inl rfl, ?_, ?_⟩
  · refine List.forall_mem_cons.mpr ⟨by rwa [List.length_replicate], List.forall_mem_singleton.mpr (by decide)⟩
  · rw [getRange, if_pos ⟨Nat.zero_le _, (length_twoBlobs n).ge⟩, List.drop_zero, Nat.sub_zero, ← length_twoBlobs,
      List.take_length]

/-- Behind a blob as long as its size field can say, the offset of the next one wraps. -/
theorem second_blob_misplaced : ¬AcceptsGrammar (twoBlobs (2 ^ 32 - 1)).encode 0 (2 ^ 32 + 8) := by
  obtain ⟨n, hn⟩ : ∃ n, n = 2 ^ 32 - 1 := ⟨_, rfl⟩
  rw [← hn, show 2 ^ 32 + 8 = n + 9 by omega]
  intro h
  have hc := twoBlobs_at (n := n) (by omega)
  have hlen : (twoBlobs n).encode.length < 2 ^ (64 - 1) := by
    rw [length_twoBlobs]
    omega
  obtain ⟨fuel, hread⟩ := (parseCluster_eq_ok (by decide) hlen).mpr ⟨_, hc, rfl⟩
  have hordered := (h.lists fuel compNone _ hread _ hc).ordered
  have hfits := fits_of_ordered (by decide) hordered
  simp only [rawBlobs, List.length_replicate, List.forall_mem_cons] at hfits
  omega

end Onde.Zim

import Onde.Lib.Base64
import Onde.Lib.Run
import Onde.Node.Distribution

/-!
# An update from one node to another

An announcer and a receiver, and a network between them that loses, delays, repeats and reorders what their handlers
publish.

* `Rollout.Delivers`: any event the other node has published is handled; `Apart`: the nodes do something else;
* `together_run`: in every run both sides keep to the release; `settled_run`: and the receiver installs it at most once;
* `rollout`: only the announced APK is written, at most once, and as long as it is not there is a way to get there,
  unless the APK is empty.
-/

namespace Onde

open Lib Crypto Reputation Protocol Update

variable {u : UpdateHost}

/-- The two nodes, with the events each of them has published. -/
structure Rollout (u : UpdateHost) where
  announcer : UpdateNode u
  receiver : UpdateNode u
  offered : List MeshEvent
  requested : List MeshEvent

/-- An event handled by one of the nodes. -/
inductive Delivery where
  | toReceiver (env : UpdateEnv) (event : MeshEvent)
  | toAnnouncer (env : UpdateEnv) (event : MeshEvent)

def Delivery.env : Delivery → UpdateEnv
  | .toReceiver env _ | .toAnnouncer env _ => env

namespace Rollout

def step (x : Rollout u) : Delivery → Rollout u
  | .toReceiver env event => { x with
    receiver := (x.receiver.handleIncomingUpdate env event).2
    requested := x.requested ++ (x.receiver.published env event).toList }
  | .toAnnouncer env event => { x with
    announcer := (x.announcer.handleIncomingUpdate env event).2
    offered := x.offered ++ (x.announcer.published env event).toList }

/-- The event has been published by the other node, however long ago. -/
def UnderWay (x : Rollout u) : Delivery → Prop
  | .toReceiver _ event => event ∈ x.offered
  | .toAnnouncer _ event => event ∈ x.requested

def Delivers (l : Delivery) (x x' : Rollout u) : Prop := x.UnderWay l ∧ x' = x.step l

/-- What a node does besides: it keeps its key, what it knows of updates and what it offers, and still asks no proof of
work of itself. -/
structure Aside (n n' : UpdateNode u) : Prop where
  identity : n'.identity = n.identity
  protocol : n'.updateProtocol = n.updateProtocol
  announced : n'.pendingAnnouncement = n.pendingAnnouncement
  offer : n'.updateOffer = n.updateOffer
  floor : n'.reputation.requiredPowDifficulty n'.pubkeyHex = 0

structure Apart (x x' : Rollout u) : Prop where
  announcer : Aside x.announcer x'.announcer
  receiver : Aside x.receiver x'.receiver
  offered : x'.offered = x.offered
  requested : x'.requested = x.requested

abbrev Runs (x : Rollout u) : List (Visit (Rollout u) Delivery) → Rollout u → Prop := Run Delivers Apart x

/-- What the receiver installs at a step. -/
def installedAt (v : Visit (Rollout u) Delivery) : List Version :=
  match v.label with
  | .toReceiver env event => UpdateNode.installedBy (v.state.receiver.handleIncomingUpdate env event).1
  | .toAnnouncer _ _ => []

def installs (vs : List (Visit (Rollout u) Delivery)) : List Version := vs.flatMap installedAt

theorem installs_append (vs ws : List (Visit (Rollout u) Delivery)) :
    installs (vs ++ ws) = installs vs ++ installs ws := List.flatMap_append

/-! ## Both sides keep to the release -/

/-- The nodes are on the two sides of a release, and so is all they have published. -/
structure Together (d : Release) (old : Version) (x : Rollout u) : Prop where
  serves : UpdateNode.Serves d x.announcer
  receives : UpdateNode.Receives d old x.receiver
  offered : ∀ e ∈ x.offered, ∃ part, Offers u d part e
  requested : ∀ e ∈ x.requested, ∃ part, Requests d part e
  announced : ∃ e ∈ x.offered, Offers u d .announcement e

variable {d : Release} {old : Version} {x x' y : Rollout u} {l : Delivery} {env : UpdateEnv} {event e : MeshEvent}

/-- A list with what was published is as good as the list and what was published. -/
theorem forall_mem_published {P : MeshEvent → Prop} {es : List MeshEvent} {o : Option MeshEvent}
    (hes : ∀ e ∈ es, P e) (ho : ∀ e, o = some e → P e) : ∀ e ∈ es ++ o.toList, P e := by
  intro e he
  rcases List.mem_append.mp he with hold | hnew
  · exact hes e hold
  · exact ho e (Option.mem_toList.mp hnew)

/-- **One delivery keeps both to it.** -/
theorem Together.delivers (hl : u.toPrimitives.Lawful)
    (hbase : ∀ data, u.base64Decode (u.base64Encode data) = .ok data) (hsize : d.apk.length ≤ maxApkSize)
    (ht : Together d old x) (hd : Delivers l x x') : Together d old x' := by
  obtain ⟨hunder, rfl⟩ := hd
  cases l with
  | toReceiver env event =>
    obtain ⟨part, ho⟩ := ht.offered event hunder
    have hr := ht.receives.offer hl hsize ho env
    exact ⟨ht.serves, (ht.receives.received hr).1, ht.offered, forall_mem_published ht.requested hr.requests,
      ht.announced⟩
  | toAnnouncer env event =>
    obtain ⟨part, hreq⟩ := ht.requested event hunder
    have hs := ht.serves.request hl hbase hreq env
    refine ⟨hs.serves, ht.receives, forall_mem_published ht.offered hs.offers, ht.requested, ?_⟩
    obtain ⟨e, he, ho⟩ := ht.announced
    exact ⟨e, List.mem_append_left _ he, ho⟩

theorem Together.apart (ht : Together d old x) (ha : Apart x x') : Together d old x' := by
  obtain ⟨hann, hrec, hoffered, hrequested⟩ := ha
  have hkey : x'.announcer.pubkeyHex = x.announcer.pubkeyHex := by
    rw [Node.pubkeyHex, Node.pubkeyHex, hann.identity]
  have hr := ht.receives
  refine ⟨⟨hkey.trans ht.serves.pubkey, hann.offer.trans ht.serves.offer, hann.floor⟩, ⟨⟨?_, ?_⟩, ?_, ?_, ?_, ?_, ?_,
    hrec.floor⟩, ?_, ?_, ?_⟩
  · rw [hrec.protocol]
    exact hr.newer.protocol
  · rw [hrec.protocol, hrec.announced]
    exact hr.newer.announced
  · rw [hrec.protocol]
    exact hr.wf
  · rw [hrec.protocol, hr.root]
  · rw [hrec.announced]
    exact hr.announced
  · rw [hrec.protocol]
    exact hr.pending
  · rw [hrec.protocol]
    exact hr.current
  · rw [hoffered]
    exact ht.offered
  · rw [hrequested]
    exact ht.requested
  · rw [hoffered]
    exact ht.announced

/-- **Both keep to the release in every run.** -/
theorem together_run (hl : u.toPrimitives.Lawful)
    (hbase : ∀ data, u.base64Decode (u.base64Encode data) = .ok data) (hsize : d.apk.length ≤ maxApkSize)
    (h₀ : Together d old x) {vs : List (Visit (Rollout u) Delivery)} (hr : Runs x vs y) : Together d old y :=
  hr.invariant h₀ (fun _ _ _ ht hd => ht.delivers hl hbase hsize hd) fun _ _ ht ha => ht.apart ha

/-! ## At most once, and nothing else -/

/-- Whatever the receiver installs at a step, it has written the APK there. -/
def Written (d : Release) (v : Visit (Rollout u) Delivery) : Prop :=
  ∀ env event w, v.label = .toReceiver env event →
    (v.state.receiver.handleIncomingUpdate env event).1 = .ok (.installed w) →
    w = d.version ∧ env.write v.state.receiver.updateInstallPath d.apk = .ok () ∧ d.apk ≠ []

/-- One delivery installs nothing and keeps the version, or installs the release over the older one. -/
theorem Together.installs (hl : u.toPrimitives.Lawful) (hsize : d.apk.length ≤ maxApkSize) (ht : Together d old x)
    (hd : Delivers l x x') : Written d ⟨x, l⟩ ∧
      (installedAt ⟨x, l⟩ = [] ∧
        x'.receiver.updateProtocol.currentVersion = x.receiver.updateProtocol.currentVersion ∨
      installedAt ⟨x, l⟩ = [d.version] ∧ x.receiver.updateProtocol.currentVersion < d.version ∧
        x'.receiver.updateProtocol.currentVersion = d.version) := by
  obtain ⟨hunder, rfl⟩ := hd
  cases l with
  | toAnnouncer env event => exact ⟨fun _ _ _ hv => (nomatch hv), .inl ⟨rfl, rfl⟩⟩
  | toReceiver env event =>
    obtain ⟨part, ho⟩ := ht.offered event hunder
    have hr := ht.receives.offer hl hsize ho env
    refine ⟨?_, ?_⟩
    · rintro _ _ w ⟨⟩ hw
      exact hr.installs w hw
    · rcases (ht.receives.received hr).2 with ⟨hno, hcur⟩ | ⟨hinst, hlt, hcur⟩
      · exact .inl ⟨UpdateNode.installedBy_eq_nil hno, hcur⟩
      · refine .inr ⟨?_, hlt, hcur⟩
        show UpdateNode.installedBy (x.receiver.handleIncomingUpdate env event).1 = _
        rw [hinst]
        rfl

/-- What is installed at a step is not empty. -/
theorem Written.nonempty {v : Visit (Rollout u) Delivery} (hw : Written d v) (hv : installedAt v ≠ []) :
    d.apk ≠ [] := by
  obtain ⟨x, l⟩ := v
  cases l with
  | toAnnouncer env event => exact absurd rfl hv
  | toReceiver env event =>
    by_contra hnil
    refine hv (UpdateNode.installedBy_eq_nil fun w hout => ?_)
    exact (hw env event w rfl hout).2.2 hnil

/-- Where a run of the receiver stands: before the release, or after it. -/
def Settled (d : Release) (old : Version) (vs : List (Visit (Rollout u) Delivery)) (y : Rollout u) : Prop :=
  installs vs = [] ∧ y.receiver.updateProtocol.currentVersion = old ∨
    installs vs = [d.version] ∧ y.receiver.updateProtocol.currentVersion = d.version

/-- **In every run the receiver installs the release at most once, and nothing else.** -/
theorem settled_run (hl : u.toPrimitives.Lawful)
    (hbase : ∀ data, u.base64Decode (u.base64Encode data) = .ok data) (hsize : d.apk.length ≤ maxApkSize)
    (h₀ : Together d old x) (hcur : x.receiver.updateProtocol.currentVersion = old)
    {vs : List (Visit (Rollout u) Delivery)} (hr : Runs x vs y) : Settled d old vs y ∧ ∀ v ∈ vs, Written d v := by
  induction hr with
  | start => exact ⟨.inl ⟨rfl, hcur⟩, fun v hv => (nomatch hv)⟩
  | @visit ws t t' l hw hstep ih =>
    obtain ⟨hsettled, hwritten⟩ := ih
    obtain ⟨hnow, hcases⟩ := (together_run hl hbase hsize h₀ hw).installs hl hsize hstep
    refine ⟨?_, fun v hv => ?_⟩
    · rw [Settled, installs_append]
      rcases hcases with ⟨hnone, hsame⟩ | ⟨hone, hlt, hafter⟩
      · rw [show installs [⟨t, l⟩] = [] from (List.append_nil _).trans hnone, List.append_nil, hsame]
        exact hsettled
      · refine .inr ⟨?_, hafter⟩
        rcases hsettled with ⟨hnone, -⟩ | ⟨-, hdone⟩
        · rw [hnone]
          exact (List.append_nil _).trans hone
        · rw [hdone] at hlt
          exact absurd hlt (lt_irrefl _)
    · rcases List.mem_append.mp hv with hold | hnew
      · exact hwritten v hold
      · rw [List.mem_singleton.mp hnew]
        exact hnow
  | @silent ws t t' hw hstep ih =>
    obtain ⟨hsettled, hwritten⟩ := ih
    refine ⟨?_, hwritten⟩
    rw [Settled, hstep.receiver.protocol]
    exact hsettled

/-! ## The way to the end -/

/-- The environments of the deliveries of a run. -/
def envs (vs : List (Visit (Rollout u) Delivery)) : List UpdateEnv := vs.map fun v => v.label.env

theorem mem_published {es : List MeshEvent} {o : Option MeshEvent} (ho : o = some e) : e ∈ es ++ o.toList := by
  rw [ho]
  exact List.mem_append_right _ (List.mem_singleton.mpr rfl)

/-- The receiver has the first `k` chunks and has asked for the next one. -/
structure Turn (d : Release) (old : Version) (k : Nat) (x : Rollout u) : Prop where
  together : Together d old x
  newer : x.receiver.updateProtocol.currentVersion < d.version
  holds : UpdateProtocol.Holds d.apk (d.transfer u.toPrimitives) (UpdateProtocol.firstIndices k)
    x.receiver.updateProtocol
  asked : ∃ e ∈ x.requested, Requests d (.chunk (UInt32.ofNat k)) e

/-- **From any state three deliveries start the transfer**: the announcement, the request for the manifest, and the
manifest. -/
theorem Together.opening (hl : u.toPrimitives.Lawful)
    (hbase : ∀ data, u.base64Decode (u.base64Encode data) = .ok data) (hsize : d.apk.length ≤ maxApkSize)
    (ht : Together d old x) (hnew : x.receiver.updateProtocol.currentVersion < d.version)
    (env₁ env₂ env₃ : UpdateEnv) : ∃ vs y, Runs x vs y ∧ envs vs = [env₁, env₂, env₃] ∧ Turn d old 0 y := by
  obtain ⟨e, he, ho⟩ := ht.announced
  have hd₁ : Delivers (.toReceiver env₁ e) x (x.step (.toReceiver env₁ e)) := ⟨he, rfl⟩
  have ht₁ := ht.delivers hl hbase hsize hd₁
  have ha₁ := UpdateNode.announcement_answered hl ht.receives ho hnew env₁
  obtain ⟨q, hq, hc⟩ := ha₁.published
  generalize hx₁ : x.step (.toReceiver env₁ e) = x₁ at hd₁ ht₁
  have hasked : q ∈ x₁.requested := hx₁ ▸ mem_published hq
  have hann : x₁.receiver.pendingAnnouncement = some (d.announcement u.toPrimitives).1 := hx₁ ▸ ha₁.same.announced
  have hp₁ : x₁.receiver.updateProtocol = x.receiver.updateProtocol := hx₁ ▸ ha₁.same.protocol
  -- the announcer sends the manifest
  have hd₂ : Delivers (.toAnnouncer env₂ q) x₁ (x₁.step (.toAnnouncer env₂ q)) := ⟨hasked, rfl⟩
  have ht₂ := ht₁.delivers hl hbase hsize hd₂
  have hs := ht₁.serves.request hl hbase (UpdateNode.requests_manifest hc) env₂
  obtain ⟨m, hm, hom⟩ := hs.manifest rfl
  have hrec : (x₁.step (.toAnnouncer env₂ q)).receiver = x₁.receiver := rfl
  generalize hx₂ : x₁.step (.toAnnouncer env₂ q) = x₂ at hd₂ ht₂ hrec
  have hoffered : m ∈ x₂.offered := hx₂ ▸ mem_published hm
  -- and the receiver asks for the first chunk
  have hd₃ : Delivers (.toReceiver env₃ m) x₂ (x₂.step (.toReceiver env₃ m)) := ⟨hoffered, rfl⟩
  have ha₃ := UpdateNode.manifest_answered hl hsize ht₂.receives hom (hrec ▸ hann) env₃
  obtain ⟨r, hr, hc₃⟩ := ha₃.published
  have hp₃ : (x₂.step (.toReceiver env₃ m)).receiver.updateProtocol = { x₂.receiver.updateProtocol with
      pending := some (d.transfer u.toPrimitives), lastVerified := none } := ha₃.same.protocol
  refine ⟨_, _, ((Run.single hd₁).append (Run.single hd₂)).append (Run.single hd₃), rfl,
    ht₂.delivers hl hbase hsize hd₃, ?_, ?_, r, mem_published hr, UpdateNode.requests_chunk hc₃⟩
  · rw [hp₃, hrec, hp₁]
    exact hnew
  · rw [hp₃]
    exact Release.holds_nothing _

/-- **Two more deliveries bring the next chunk**, and the last one the installation. -/
theorem Turn.next (hl : u.toPrimitives.Lawful)
    (hbase : ∀ data, u.base64Decode (u.base64Encode data) = .ok data) (hsize : d.apk.length ≤ maxApkSize) {k : Nat}
    (ht : Turn d old k x) (hk : k < d.chunkCount) (env₁ env₂ : UpdateEnv)
    (hwrite : ∀ path, env₂.write path d.apk = .ok ()) : ∃ vs y, Runs x vs y ∧ envs vs = [env₁, env₂] ∧
      (k + 1 < d.chunkCount → Turn d old (k + 1) y) ∧
      (k + 1 = d.chunkCount → y.receiver.updateProtocol.currentVersion = d.version) := by
  have hwf := Release.transfer_wf hl hsize (d := d)
  have hexpected := Release.expectedChunks hsize (c := u.toPrimitives)
  have hindex : (UInt32.ofNat k).toNat = k := hwf.toNat_ofNat (hexpected.symm ▸ hk)
  obtain ⟨q, hq, hreq⟩ := ht.asked
  have hd₁ : Delivers (.toAnnouncer env₁ q) x (x.step (.toAnnouncer env₁ q)) := ⟨hq, rfl⟩
  have ht₁ := ht.together.delivers hl hbase hsize hd₁
  obtain ⟨m, hm, hom⟩ := (ht.together.serves.request hl hbase hreq env₁).chunk _ rfl (hindex.symm ▸ hk)
  have hrec : (x.step (.toAnnouncer env₁ q)).receiver = x.receiver := rfl
  generalize hx₁ : x.step (.toAnnouncer env₁ q) = x₁ at hd₁ ht₁ hrec
  have hoffered : m ∈ x₁.offered := hx₁ ▸ mem_published hm
  have hd₂ : Delivers (.toReceiver env₂ m) x₁ (x₁.step (.toReceiver env₂ m)) := ⟨hoffered, rfl⟩
  have ht₂ := ht₁.delivers hl hbase hsize hd₂
  have hnew : x₁.receiver.updateProtocol.currentVersion < d.version := hrec ▸ ht.newer
  obtain ⟨data, hread, hdata⟩ := (hom.chunk _ rfl).content
  obtain ⟨status, p, hstored, hholds⟩ := UpdateNode.chunk_taken hl hsize (hrec ▸ ht.holds) hdata
  rw [← UpdateProtocol.firstIndices_succ] at hholds
  have hpwf : p.Wf u.toPrimitives := ht₁.receives.wf.stored hstored
  have hcurrent : p.currentVersion = x₁.receiver.updateProtocol.currentVersion :=
    (ht₁.receives.newer.protocol.handleChunk hstored).2
  refine ⟨_, _, (Run.single hd₁).append (Run.single hd₂), rfl, fun hmore => ?_, fun hlast => ?_⟩
  · have hmissing := hholds.missing_next hwf (Release.apkSize hsize) (Nat.le_refl _) (hexpected.symm ▸ hmore)
    have hless := (UpdateProtocol.received_lt_iff hpwf).mpr ⟨_, hmissing⟩
    have ha := UpdateNode.chunk_answered hl ht₁.receives hom hread hstored hless env₂
    obtain ⟨r, hr, hc⟩ := ha.published
    have hp : (x₁.step (.toReceiver env₂ m)).receiver.updateProtocol = p := ha.same.protocol
    have hnext : UInt32.ofNat k + 1 = UInt32.ofNat (k + 1) := by
      refine UInt32.toNat_inj.mp ?_
      rw [UpdateProtocol.toNat_next hwf (hexpected.symm ▸ hmore), hwf.toNat_ofNat (hexpected.symm ▸ hmore)]
    rw [hnext] at hc
    refine ⟨ht₂, ?_, hp.symm ▸ hholds, r, mem_published hr, UpdateNode.requests_chunk hc⟩
    rw [hp, hcurrent]
    exact hnew
  · have hfull : ¬p.chunksReceived < p.totalChunks := by
      rw [UpdateProtocol.received_lt_iff hpwf]
      rw [hlast, ← hexpected] at hholds
      exact hholds.not_missing hwf (Release.apkSize hsize)
    have hf := UpdateNode.chunk_finished hl hsize ht₁.receives hom hread hstored hholds hfull env₂
    have hinstalled := hf.written (hwrite _)
    have hr := ht₁.receives.offer hl hsize hom env₂
    rcases (ht₁.receives.received hr).2 with ⟨hno, -⟩ | ⟨-, -, hcur⟩
    · exact absurd hinstalled (hno _)
    · exact hcur

/-- All chunks one after the other. -/
theorem Turn.rest (hl : u.toPrimitives.Lawful)
    (hbase : ∀ data, u.base64Decode (u.base64Encode data) = .ok data) (hsize : d.apk.length ≤ maxApkSize) :
    ∀ (es : List UpdateEnv) (k : Nat) (x : Rollout u), Turn d old k x → k < d.chunkCount →
    2 * k + es.length = 2 * d.chunkCount → (∀ env ∈ es, ∀ path, env.write path d.apk = .ok ()) →
    ∃ vs y, Runs x vs y ∧ envs vs = es ∧ y.receiver.updateProtocol.currentVersion = d.version
  | [], k, x, _, hk, hlen, _ => by
    rw [List.length_nil] at hlen
    omega
  | [_], k, x, _, _, hlen, _ => by
    rw [List.length_singleton] at hlen
    omega
  | env₁ :: env₂ :: es, k, x, ht, hk, hlen, hwrite => by
    rw [List.length_cons, List.length_cons] at hlen
    obtain ⟨vs, y, hr, hes, hmore, hlast⟩ := ht.next hl hbase hsize hk env₁ env₂
      (hwrite env₂ (List.mem_cons_of_mem _ List.mem_cons_self))
    by_cases hk' : k + 1 < d.chunkCount
    · obtain ⟨ws, z, hr', hes', hdone⟩ := Turn.rest hl hbase hsize es (k + 1) y (hmore hk') hk' (by omega)
        fun env henv => hwrite env (List.mem_cons_of_mem _ (List.mem_cons_of_mem _ henv))
      refine ⟨vs ++ ws, z, hr.append hr', ?_, hdone⟩
      rw [envs, List.map_append]
      exact congrArg₂ (· ++ ·) hes hes'
    · have hnil : es = [] := List.length_eq_zero_iff.mp (by omega)
      rw [hnil]
      exact ⟨vs, y, hr, hes, hlast (by omega)⟩

/-- **From any state there is a way to the end**: the three deliveries of the opening, and two for each chunk. -/
theorem Together.finish (hl : u.toPrimitives.Lawful)
    (hbase : ∀ data, u.base64Decode (u.base64Encode data) = .ok data) (hsize : d.apk.length ≤ maxApkSize)
    (ht : Together d old x) (hnew : x.receiver.updateProtocol.currentVersion < d.version) (hne : d.apk ≠ [])
    {es : List UpdateEnv} (hlen : es.length = 2 * d.chunkCount + 3)
    (hwrite : ∀ env ∈ es, ∀ path, env.write path d.apk = .ok ()) :
    ∃ vs y, Runs x vs y ∧ envs vs = es ∧ y.receiver.updateProtocol.currentVersion = d.version := by
  match es, hlen, hwrite with
  | env₁ :: env₂ :: env₃ :: rest, hlen, hwrite =>
    simp only [List.length_cons] at hlen
    obtain ⟨vs, y, hr, hes, hturn⟩ := ht.opening hl hbase hsize hnew env₁ env₂ env₃
    obtain ⟨ws, z, hr', hes', hdone⟩ := Turn.rest hl hbase hsize rest 0 y hturn (Release.chunkCount_pos.mpr hne)
      (by omega) fun env henv => hwrite env (by simp [henv])
    refine ⟨vs ++ ws, z, hr.append hr', ?_, hdone⟩
    rw [envs, List.map_append]
    exact congrArg₂ (· ++ ·) hes hes'

end Rollout

/-- **An update from one node to another.** A node announces a release that is signed by the root key, and a receiver
that pins this key, has nothing else in progress and is of an older version handles what the announcer publishes, as
the announcer handles its requests: any of these events at any time, any number of times and in any order, or never,
whether the files can be written or not, and whatever else the nodes do in between. Then the receiver installs the
release at most once and nothing else, and the file it writes is the announced APK. As long as it has not installed it,
deliveries that lead there are left, three and two for each chunk, unless the APK is empty. -/
theorem rollout (u : UpdateHost) (hl : u.toPrimitives.Lawful)
    (hbase : ∀ data, u.base64Decode (u.base64Encode data) = .ok data)
    (a a' : UpdateNode u) (root : Identity) (hroot : a.updateRootSigning = some root)
    (hfloor : a.reputation.requiredPowDifficulty a.pubkeyHex = 0) (env : UpdateEnv) (version : Version) (apk : Bytes)
    (timestamp : UInt64) (announced : MeshEvent)
    (hannounce : a.announceUpdate env version apk timestamp = .ok (announced, a'))
    (node : Node u.toHost) (rootPubkey : Option (ByteArr 32)) (current : String) (rootSeed : Option (ByteArr 32))
    (steps : List (UpdateNode.Step u)) (r : UpdateNode u)
    (hreached : r = (UpdateNode.new node rootPubkey current rootSeed).run steps)
    (hpinned : r.updateProtocol.rootPubkey = u.publicKey root.seed) (hidle : r.updateProtocol.pending = none)
    (hunannounced : r.pendingAnnouncement = none) (hnewer : r.updateProtocol.currentVersion < version)
    (hfloor' : r.reputation.requiredPowDifficulty r.pubkeyHex = 0)
    (vs : List (Visit (Rollout u) Delivery)) (x : Rollout u) (hruns : Rollout.Runs ⟨a', r, [announced], []⟩ vs x) :
    (Rollout.installs vs = [] ∧ x.receiver.updateProtocol.currentVersion = r.updateProtocol.currentVersion ∨
      Rollout.installs vs = [version] ∧ x.receiver.updateProtocol.currentVersion = version) ∧
    (∀ v ∈ vs, ∀ env event w, v.label = .toReceiver env event →
      (v.state.receiver.handleIncomingUpdate env event).1 = .ok (.installed w) →
      env.write v.state.receiver.updateInstallPath apk = .ok ()) ∧
    (Rollout.installs vs = [] → ∀ es : List UpdateEnv,
      es.length = 2 * UpdateProtocol.chunkCount apk.length defaultChunkSize.toNat + 3 →
      (∀ env ∈ es, ∀ path, env.write path apk = .ok ()) →
      ((∃ ws y, Rollout.Runs x ws y ∧ Rollout.envs ws = es ∧ Rollout.installs ws = [version]) ↔ apk ≠ [])) := by
  obtain ⟨hsize, hserves, hoffers⟩ := UpdateNode.announceUpdate_ok hbase hroot hfloor hannounce
  generalize hd : (⟨root, version, apk, timestamp, a.pubkeyHex⟩ : Release) = d at hserves hoffers
  obtain rfl : d.version = version := by rw [← hd]
  obtain rfl : d.apk = apk := by rw [← hd]
  have hrootd : d.root = root := by rw [← hd]
  have hreceives : UpdateNode.Receives d r.updateProtocol.currentVersion r := by
    refine ⟨?_, ?_, hrootd ▸ hpinned, .inl hunannounced, .inl hidle, .inl rfl, hfloor'⟩
    · rw [hreached]
      exact UpdateNode.onlyNewer_run _ steps (UpdateNode.onlyNewer_new node rootPubkey current rootSeed)
    · exact UpdateProtocol.wf_of_none hidle
  have h₀ : Rollout.Together d r.updateProtocol.currentVersion ⟨a', r, [announced], []⟩ :=
    ⟨hserves, hreceives, by simpa using ⟨_, hoffers⟩, by simp, announced, by simp, hoffers⟩
  have ht := Rollout.together_run hl hbase hsize h₀ hruns
  obtain ⟨hsettled, hwritten⟩ := Rollout.settled_run hl hbase hsize h₀ rfl hruns
  refine ⟨hsettled, fun v hv env event w hlabel hw => (hwritten v hv env event w hlabel hw).2.1, ?_⟩
  intro hnone es hlen hwrite
  constructor
  · rintro ⟨ws, y, hr, -, hinst⟩
    have hafter := (Rollout.settled_run hl hbase hsize h₀ rfl (hruns.append hr)).2
    have hsome : d.version ∈ Rollout.installs ws := by rw [hinst]; exact List.mem_singleton.mpr rfl
    obtain ⟨v, hv, hin⟩ := List.mem_flatMap.mp hsome
    exact (hafter v (List.mem_append_right _ hv)).nonempty (List.ne_nil_of_mem hin)
  · intro hne
    have hnew : x.receiver.updateProtocol.currentVersion < d.version := by
      rcases hsettled with ⟨-, hcur⟩ | ⟨hone, -⟩
      · rw [hcur]
        exact hnewer
      · rw [hnone] at hone
        cases hone
    obtain ⟨ws, y, hr, hes, hdone⟩ := ht.finish hl hbase hsize hnew hne hlen hwrite
    refine ⟨ws, y, hr, hes, ?_⟩
    rcases (Rollout.settled_run hl hbase hsize h₀ rfl (hruns.append hr)).1 with ⟨-, hcur⟩ | ⟨hone, -⟩
    · rw [hdone] at hcur
      exact absurd hcur.symm (ne_of_lt hnewer)
    · rwa [Rollout.installs_append, hnone, List.nil_append] at hone

/-! ## A release of four bytes -/

def releaseTags (tag value : String) (rest : List (String × String)) : List String :=
  buildTags ((tag, value) :: rest ++ [(tagPeer, knownAuthor)])

/-- The values behind the events of the announcer, beside those of the receiver. -/
def releaseValues : KnownValues where
  keys := knownKeys
  digests := requestValues.digests ++
    [((canonical knownAuthor 1700000000 .updateAnnounce
        (releaseTags tagRootSig (hexEncode knownAnnouncement.2.1.1) [(tagVersion, "1.0.1")])
        announcementText).render,
      "8b6d2713a443cb20de08de6d63791f47d144dc50cf653b236c1418b83f073e36"),
     ((canonical knownAuthor 1700000000 .updateManifest
        (releaseTags tagRootSig (hexEncode knownManifest.2.1.1) [(tagVersion, "1.0.1")])
        ("T05ERUFQSzHJeV9jeGn4QbSQyzYIpmmtBf5HNp3A+TIJ6DNWzWX4NYqI4910CfGV/VLbLTy6XXLKZwm/HZQSG/N0iAG0D29c" ++
          "APFTZQAAAAAEAAAAAAAAAABAAAA=")).render,
      "73981bdc8a5af8144745ffd473f5fbaec75f03772deab3090ebeccd25c0cc08d"),
     ((canonical knownAuthor 1700000000 .updateChunk (releaseTags tagIndex "0" [(tagTotal, "1")]) "YXBrIQ==").render,
      "9b447a853f5acdd018369f28e3a19fe10775e6d3e5078819e32f5804c832fede")]
  signatures := requestValues.signatures ++
    [(knownAuthor, "8b6d2713a443cb20de08de6d63791f47d144dc50cf653b236c1418b83f073e36",
      "fe9da4676be0b165d45608c9f0445497d2572f90681b1ec5a90b7cb08f9dc266" ++
      "bf82d3dee8a2576c4e5861b54ba26b748d582acdc4c816f5f2ef308f8e018a08"),
     (knownAuthor, "73981bdc8a5af8144745ffd473f5fbaec75f03772deab3090ebeccd25c0cc08d",
      "06afaee067f3972b0b6039f33c01b20cb34ec3ad6ad2af86375c7d48fc24053c" ++
      "01244f7d4c0b41381b4e92e55252404f45f45d09c6c3330538d29b3dfa5a9405"),
     (knownAuthor, "9b447a853f5acdd018369f28e3a19fe10775e6d3e5078819e32f5804c832fede",
      "4c4ce1e36a10b95d0eea71c00abb061885e8f37d4226903cb8309a52519bee74" ++
      "964d138b998de193169026a63bc2b063014b695afb93af2f3ef5b83866f90903")]

/-- The root key signs the release, and both nodes their events. -/
def releasePrimitives : Primitives where
  sha256 data :=
    if data = knownApk then updatePrimitives.sha256 data else (Primitives.ofKnown releaseValues).sha256 data
  publicKey := (Primitives.ofKnown releaseValues).publicKey
  sign seed data :=
    if seed = (Identity.ofByte 1).seed ∧ data ∈ updateValues.signatures.map Prod.fst then
      updatePrimitives.sign seed data
    else (Primitives.ofKnown releaseValues).sign seed data
  verify pk data sig :=
    (Primitives.ofKnown releaseValues).verify pk data sig || updatePrimitives.verify pk data sig

theorem releasePrimitives_lawful : releasePrimitives.Lawful := by
  refine ⟨fun seed data => ?_⟩
  have hknown := (Primitives.ofKnown_lawful releaseValues).verify_sign seed data
  by_cases hsigned : seed = (Identity.ofByte 1).seed ∧ data ∈ updateValues.signatures.map Prod.fst
  · have hkey : (Primitives.ofKnown releaseValues).publicKey (Identity.ofByte 1).seed = knownRoot := by decide +kernel
    have hroot : ∀ data ∈ updateValues.signatures.map Prod.fst,
        updatePrimitives.verify knownRoot data (updatePrimitives.sign (Identity.ofByte 1).seed data) = true := by
      decide +kernel
    obtain ⟨rfl, hdata⟩ := hsigned
    simp only [releasePrimitives, true_and, if_pos hdata, hkey, hroot data hdata, Bool.or_true]
  · simp only [releasePrimitives, if_neg hsigned, hknown, Bool.true_or]

def releaseHost : UpdateHost := { Host.ofKnown releaseValues [] [] with
  toPrimitives := releasePrimitives
  base64Decode := fun text => match Base64.decode text.toList with
    | some data => .ok data
    | none => .error "Invalid padding"
  base64Encode := fun data => String.ofList (Base64.encode data)
  tempPath := fun name => s!"/tmp/{name}" }

theorem releaseHost_base64 (data : Bytes) : releaseHost.base64Decode (releaseHost.base64Encode data) = .ok data := by
  show (match Base64.decode (String.ofList (Base64.encode data)).toList with
    | some data => .ok data
    | none => .error "Invalid padding" : Except String Bytes) = .ok data
  rw [String.toList_ofList, Base64.decode_encode]

/-- A node that holds the root key, and one of version 1.0.0 that pins it. -/
def releaseAnnouncer : UpdateNode releaseHost :=
  .new (Node.new .default (.ofByte 1) none none) none "1.0.1" (some (Identity.ofByte 1).seed)

def releaseReceiver : UpdateNode releaseHost :=
  .new (Node.new .default (.ofByte 2) none none) (some (releaseHost.publicKey (Identity.ofByte 1).seed)) "1.0.0" none

theorem releaseReceiver_pins :
    releaseReceiver.updateProtocol.rootPubkey = releaseHost.publicKey (Identity.ofByte 1).seed := rfl

theorem releaseReceiver_older : releaseReceiver.updateProtocol.currentVersion < ⟨1, 0, 1⟩ := by
  show parseUpdateVersion "1.0.0" < ⟨1, 0, 1⟩
  decide +kernel

theorem knownApk_size : knownApk.length ≤ maxApkSize ∧ knownApk ≠ [] ∧
    UpdateProtocol.chunkCount knownApk.length defaultChunkSize.toNat = 1 := by decide +kernel

/-- Five deliveries install the release. -/
theorem rollout_apk : ∃ announced a',
    releaseAnnouncer.announceUpdate exchangeEnv ⟨1, 0, 1⟩ knownApk 1700000000 = .ok (announced, a') ∧
    ∃ ws y, Rollout.Runs ⟨a', releaseReceiver, [announced], []⟩ ws y ∧
      Rollout.envs ws = List.replicate 5 exchangeEnv ∧ Rollout.installs ws = [⟨1, 0, 1⟩] := by
  obtain ⟨hsize, hne, hcount⟩ := knownApk_size
  have hown : releaseAnnouncer.reputation.requiredPowDifficulty releaseAnnouncer.pubkeyHex = 0 :=
    Node.new_floor .default (.ofByte 1) none none
  have hown' : releaseReceiver.reputation.requiredPowDifficulty releaseReceiver.pubkeyHex = 0 :=
    Node.new_floor .default (.ofByte 2) none none
  obtain ⟨announced, a', hannounce⟩ := UpdateNode.announceUpdate_trusting releasePrimitives_lawful
    (show releaseAnnouncer.updateRootSigning = some (.ofByte 1) from rfl) hown hsize exchangeEnv ⟨1, 0, 1⟩ 1700000000
  have hend := (rollout releaseHost releasePrimitives_lawful releaseHost_base64 releaseAnnouncer a' (.ofByte 1) rfl
    hown exchangeEnv ⟨1, 0, 1⟩ knownApk 1700000000 announced hannounce _ _ _ _ [] releaseReceiver rfl
    releaseReceiver_pins rfl rfl releaseReceiver_older hown' [] _ .start).2.2 rfl (List.replicate 5 exchangeEnv)
  rw [hcount] at hend
  have hwrite : ∀ env ∈ List.replicate 5 exchangeEnv, ∀ path, env.write path knownApk = .ok () := by
    intro env henv path
    rw [(List.mem_replicate.mp henv).2]
    rfl
  exact ⟨announced, a', hannounce, (hend (List.length_replicate) hwrite).mpr hne⟩

end Onde

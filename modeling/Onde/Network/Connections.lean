import Mathlib.Data.List.Range
import Mathlib.Data.BitVec

/-!
# The accept loops and their connection slots

* `AcceptLoop`: the thread that accepts connections, the threads that serve them and the counter they share; the health
  server and the transport run the same loop and differ in the cap and in how a connection's function returns;
* `step`: one atomic operation of one of the threads, in any order; `step_cases` says what each can do;
* `Accounted`: every accepted connection is with a thread or has given its slot back, once, and the counter counts the
  connections that are with a thread;
* `slots_accounted`: the counter, the cap and the slots in every run; `admits_iff`: no slot is lost.
-/

namespace Onde.Network

/-! ## The loop and its threads -/

/-- The connections the health server serves at a time. -/
def maxConcurrentConnections : Nat := 16

/-- The accept errors in a row after which a listener gives up, the same in both servers. -/
def maxConsecutiveAcceptErrors : Nat := 32

/-- How the health server's function for a connection returns. -/
inductive RequestEnd where
  | answered
  | tooLarge
  | dead

/-- How the transport's function for a connection returns. -/
inductive ServeEnd where
  | stopped
  | eof
  | fatal (reason : String)

/-- Where the accepting thread is. The slot is taken in the same operation that decides. -/
inductive AcceptPhase where
  | polling
  | accepting
  /-- The counter was at the cap and the slot is not yet given back. -/
  | refusing (conn : Nat)
  | spawning (conn : Nat)
  /-- There is no thread for the connection and the slot is not yet given back. -/
  | spawnFailed (conn : Nat)
  | ended

/-- The connection whose thread is about to be started. -/
def AcceptPhase.starting : AcceptPhase → List Nat
  | .spawning conn => [conn]
  | _ => []

/-- The connection whose slot the accepting thread is about to give back. -/
def AcceptPhase.returning : AcceptPhase → List Nat
  | .refusing conn | .spawnFailed conn => [conn]
  | _ => []

/-- The accepting thread has no slot. -/
def AcceptPhase.Idle (p : AcceptPhase) : Prop := p.starting = [] ∧ p.returning = []

/-- The thread of a connection. -/
structure Handler (ε : Type) where
  conn : Nat
  /-- How its function returned; the slot is not yet given back. -/
  returned : Option ε

/-- How a connection ended. -/
inductive Ending (ε : Type) where
  | busy
  | spawnFailed
  | served (how : ε)

/-- The accepting thread, the live handler threads and what they share. Connections are numbered as they are
accepted, and every return of a slot is recorded with the connection it is for. -/
structure AcceptLoop (w : Nat) (ε : Type) where
  maxConnections : BitVec w
  stopFlag : Bool
  active : BitVec w
  consecutiveErrors : Nat
  phase : AcceptPhase
  handlers : List (Handler ε)
  accepted : Nat
  released : List (Nat × Ending ε)
  /-- The connections turned away: the busy answers of the health server, a counter of the transport. -/
  refusedBusy : Nat

/-- What `accept` answers. -/
inductive AcceptResult where
  | connection
  /-- Nothing to accept yet, or interrupted. -/
  | notReady
  | failed

/-- One atomic operation: the stop flag is set; the accepting thread reads it, accepts, spawns or gives a slot back; the
function of a handler returns, or the handler gives its slot back as its last statement. -/
inductive AcceptAction (ε : Type) where
  | setStop
  | poll
  | accept (result : AcceptResult)
  | spawn (succeeds : Bool)
  | giveBack
  | handlerReturns (i : Nat) (how : ε)
  | handlerExits (i : Nat)

namespace AcceptLoop

variable {w : Nat} {ε : Type}

/-- Before the first connection. -/
def start (maxConnections : BitVec w) : AcceptLoop w ε :=
  ⟨maxConnections, false, 0, 0, .polling, [], 0, [], 0⟩

/-- The accepting thread has its answer. -/
def onAccept (s : AcceptLoop w ε) : AcceptResult → AcceptLoop w ε
  | .connection => { s with
      consecutiveErrors := 0
      accepted := s.accepted + 1
      active := s.active + 1
      phase := if s.maxConnections ≤ s.active then .refusing s.accepted else .spawning s.accepted }
  | .notReady => { s with phase := .polling }
  | .failed =>
    if s.stopFlag then { s with phase := .ended }
    else { s with
      consecutiveErrors := s.consecutiveErrors + 1
      phase := if maxConsecutiveAcceptErrors ≤ s.consecutiveErrors + 1 then .ended else .polling }

/-- A slot is given back for a connection. -/
def release (s : AcceptLoop w ε) (conn : Nat) (ending : Ending ε) : AcceptLoop w ε :=
  { s with active := s.active - 1, released := s.released ++ [(conn, ending)] }

/-- One operation; `none` when the thread is not there. -/
def step (s : AcceptLoop w ε) : AcceptAction ε → Option (AcceptLoop w ε)
  | .setStop => some { s with stopFlag := true }
  | .poll => match s.phase with
    | .polling => some { s with phase := if s.stopFlag then .ended else .accepting }
    | _ => none
  | .accept result => match s.phase with
    | .accepting => some (s.onAccept result)
    | _ => none
  | .spawn succeeds => match s.phase with
    | .spawning conn =>
      if succeeds then some { s with phase := .polling, handlers := s.handlers ++ [⟨conn, none⟩] }
      else some { s with phase := .spawnFailed conn }
    | _ => none
  | .giveBack => match s.phase with
    | .refusing conn => some { s.release conn .busy with phase := .polling, refusedBusy := s.refusedBusy + 1 }
    | .spawnFailed conn => some { s.release conn .spawnFailed with phase := .polling }
    | _ => none
  | .handlerReturns i how => match s.handlers[i]? with
    | some ⟨conn, none⟩ => some { s with handlers := s.handlers.set i ⟨conn, some how⟩ }
    | _ => none
  | .handlerExits i => match s.handlers[i]? with
    | some ⟨conn, some how⟩ => some { s.release conn (.served how) with handlers := s.handlers.eraseIdx i }
    | _ => none

/-- Operations one after the other. -/
def run : AcceptLoop w ε → List (AcceptAction ε) → Option (AcceptLoop w ε)
  | s, [] => some s
  | s, a :: as => (s.step a).bind fun s => run s as

/-! ## Who has a slot -/

/-- The connections that have a slot. -/
def holders (s : AcceptLoop w ε) : List Nat :=
  s.handlers.map Handler.conn ++ (s.phase.starting ++ s.phase.returning)

/-- How often a connection gave a slot back. -/
def releases (s : AcceptLoop w ε) (conn : Nat) : Nat := (s.released.map Prod.fst).count conn

/-- A connection was accepted and is no longer with a thread. -/
def Ended (s : AcceptLoop w ε) (conn : Nat) : Prop := conn < s.accepted ∧ conn ∉ s.holders

/-! ## What one operation does -/

variable {s s' : AcceptLoop w ε} {a : AcceptAction ε}

/-- The slots after an operation: nobody's changed hands, the connection just accepted has one, or one was given
back. -/
inductive Moves (s s' : AcceptLoop w ε) : Prop
  | keeps (hactive : s'.active = s.active) (hholders : s'.holders = s.holders) (haccepted : s'.accepted = s.accepted)
    (hreleased : s'.released = s.released)
  | takes (hactive : s'.active = s.active + 1) (hholders : s'.holders = s.holders ++ [s.accepted])
    (haccepted : s'.accepted = s.accepted + 1) (hreleased : s'.released = s.released)
  | gives (conn : Nat) (ending : Ending ε) (hactive : s'.active = s.active - 1)
    (hholders : (conn :: s'.holders).Perm s.holders) (haccepted : s'.accepted = s.accepted)
    (hreleased : s'.released = s.released ++ [(conn, ending)])

/-- The connections that have a thread or are about to. -/
def served (s : AcceptLoop w ε) : Nat := s.handlers.length + s.phase.starting.length

theorem length_holders (s : AcceptLoop w ε) : s.holders.length = s.served + s.phase.returning.length := by
  simp only [holders, served, List.length_append, List.length_map]
  omega

/-- What one operation may do: it moves at most one slot, and one more connection is served only below the cap. -/
def Does (s s' : AcceptLoop w ε) : Prop :=
  s.Moves s' ∧ s'.maxConnections = s.maxConnections ∧
    (s'.served ≤ s.served ∨ s.active < s.maxConnections ∧ s.phase.returning = [] ∧ s'.served ≤ s.served + 1)

/-- The accepting thread goes on without a slot. -/
theorem does_idle {p : AcceptPhase} (hs : s.phase.Idle) (hp : p.Idle) (n : Nat) :
    s.Does { s with phase := p, consecutiveErrors := n } := by
  refine ⟨.keeps rfl ?_ rfl rfl, rfl, .inl ?_⟩
  · simp only [holders, hs.1, hs.2, hp.1, hp.2]
  · simp only [served, hs.1, hp.1, Nat.le_refl]

/-- An accepted connection takes a slot, whatever is decided. -/
theorem does_connection (hs : s.phase = .accepting) : s.Does (s.onAccept .connection) := by
  by_cases hfull : s.maxConnections ≤ s.active
  · simp only [onAccept, if_pos hfull]
    refine ⟨.takes rfl ?_ rfl rfl, rfl, .inl ?_⟩
    · simp [holders, hs, AcceptPhase.starting, AcceptPhase.returning]
    · simp [served, hs, AcceptPhase.starting]
  · simp only [onAccept, if_neg hfull]
    refine ⟨.takes rfl ?_ rfl rfl, rfl, .inr ⟨BitVec.not_le.mp hfull, by rw [hs]; rfl, ?_⟩⟩
    · simp [holders, hs, AcceptPhase.starting, AcceptPhase.returning]
    · simp [served, hs, AcceptPhase.starting]

theorem does_accept (hs : s.phase = .accepting) (result : AcceptResult) : s.Does (s.onAccept result) := by
  have hidle : s.phase.Idle := by
    rw [hs]
    exact ⟨rfl, rfl⟩
  cases result with
  | connection => exact does_connection hs
  | notReady => exact does_idle hidle (p := .polling) ⟨rfl, rfl⟩ _
  | failed =>
    unfold onAccept
    dsimp only
    split
    · exact does_idle hidle (p := .ended) ⟨rfl, rfl⟩ _
    · refine does_idle hidle ?_ _
      split
      · exact ⟨rfl, rfl⟩
      · exact ⟨rfl, rfl⟩

/-- The thread of a connection has its slot from now on, or there is none and the slot is to be given back. -/
theorem does_spawn {conn : Nat} (hs : s.phase = .spawning conn) :
    s.Does { s with phase := .polling, handlers := s.handlers ++ [⟨conn, none⟩] } ∧
      s.Does { s with phase := .spawnFailed conn } := by
  refine ⟨⟨.keeps rfl ?_ rfl rfl, rfl, .inl ?_⟩, ⟨.keeps rfl ?_ rfl rfl, rfl, .inl ?_⟩⟩
  · simp [holders, hs, AcceptPhase.starting, AcceptPhase.returning]
  · simp [served, hs, AcceptPhase.starting]
  · simp [holders, hs, AcceptPhase.starting, AcceptPhase.returning]
  · simp [served, hs, AcceptPhase.starting]

/-- The accepting thread gives back the slot it has. -/
theorem does_giveBack {conn : Nat} (hs : s.phase.starting = [] ∧ s.phase.returning = [conn]) (ending : Ending ε)
    (refusedBusy : Nat) : s.Does { s.release conn ending with phase := .polling, refusedBusy := refusedBusy } := by
  refine ⟨.gives conn ending rfl ?_ rfl rfl, rfl, .inl ?_⟩
  · rw [holders, holders, hs.1, hs.2]
    simpa [release, AcceptPhase.starting, AcceptPhase.returning] using (List.perm_append_singleton conn _).symm
  · simp [served, release, AcceptPhase.starting]

/-- A handler whose function returned keeps its slot. -/
theorem does_handlerReturns {i conn : Nat} (hi : s.handlers[i]? = some ⟨conn, none⟩) (how : ε) :
    s.Does { s with handlers := s.handlers.set i ⟨conn, some how⟩ } := by
  obtain ⟨hlt, hget⟩ := List.getElem?_eq_some_iff.mp hi
  have hconns : (s.handlers.set i ⟨conn, some how⟩).map Handler.conn = s.handlers.map Handler.conn := by
    have hmap : i < (s.handlers.map Handler.conn).length := by simpa using hlt
    have hconn : conn = (s.handlers.map Handler.conn)[i] := by simp [hget]
    rw [List.map_set]
    dsimp only
    rw [hconn, List.set_getElem_self]
  refine ⟨.keeps rfl ?_ rfl rfl, rfl, .inl ?_⟩
  · simp only [holders, hconns]
  · simp only [served, List.length_set, Nat.le_refl]

/-- A handler gives back the slot of its connection. -/
theorem does_handlerExits {i conn : Nat} {how : ε} (hi : s.handlers[i]? = some ⟨conn, some how⟩) :
    s.Does { s.release conn (.served how) with handlers := s.handlers.eraseIdx i } := by
  obtain ⟨hlt, hget⟩ := List.getElem?_eq_some_iff.mp hi
  have hconns := (List.getElem_cons_eraseIdx_perm hlt).map Handler.conn
  rw [hget, List.map_cons] at hconns
  refine ⟨.gives conn (.served how) rfl (hconns.append_right _) rfl rfl, rfl, .inl ?_⟩
  simp only [served, release, List.length_eraseIdx, hlt, if_true]
  omega

/-- **What one operation does.** -/
theorem step_does (h : s.step a = some s') : s.Does s' := by
  cases a with
  | setStop =>
    obtain rfl := Option.some.inj h
    exact ⟨.keeps rfl rfl rfl rfl, rfl, .inl (Nat.le_refl _)⟩
  | poll =>
    simp only [step] at h
    split at h
    · next hs =>
      obtain rfl := Option.some.inj h
      refine does_idle (by rw [hs]; exact ⟨rfl, rfl⟩) ?_ _
      split
      · exact ⟨rfl, rfl⟩
      · exact ⟨rfl, rfl⟩
    · cases h
  | accept result =>
    simp only [step] at h
    split at h
    · next hs =>
      obtain rfl := Option.some.inj h
      exact does_accept hs result
    · cases h
  | spawn succeeds =>
    simp only [step] at h
    split at h
    · next conn hs =>
      cases succeeds
      · obtain rfl := Option.some.inj h
        exact (does_spawn hs).2
      · obtain rfl := Option.some.inj h
        exact (does_spawn hs).1
    · cases h
  | giveBack =>
    simp only [step] at h
    split at h
    · next conn hs =>
      obtain rfl := Option.some.inj h
      exact does_giveBack (by rw [hs]; exact ⟨rfl, rfl⟩) .busy _
    · next conn hs =>
      obtain rfl := Option.some.inj h
      exact does_giveBack (by rw [hs]; exact ⟨rfl, rfl⟩) .spawnFailed _
    · cases h
  | handlerReturns i how =>
    simp only [step] at h
    split at h
    · next conn hi =>
      obtain rfl := Option.some.inj h
      exact does_handlerReturns hi how
    · cases h
  | handlerExits i =>
    simp only [step] at h
    split at h
    · next conn how hi =>
      obtain rfl := Option.some.inj h
      exact does_handlerExits hi
    · cases h

/-! ## Every run -/

/-- Each accepted connection has a slot or gave it back, the counter counts the slots, and the cap holds. -/
structure Accounted (maxConnections : BitVec w) (s : AcceptLoop w ε) : Prop where
  configured : s.maxConnections = maxConnections
  counted : s.active = BitVec.ofNat w s.holders.length
  capped : s.served ≤ maxConnections.toNat
  located : (s.released.map Prod.fst ++ s.holders).Perm (List.range s.accepted)

variable {maxConnections : BitVec w}

theorem start_accounted : Accounted maxConnections (start maxConnections : AcceptLoop w ε) where
  configured := rfl
  counted := rfl
  capped := Nat.zero_le _
  located := .refl _

/-- While no slot is being given back, the counter is the number of connections served, below its width. -/
theorem Accounted.active_toNat (hs : Accounted maxConnections s) (hret : s.phase.returning = []) :
    s.active.toNat = s.served := by
  have hlt := maxConnections.isLt
  have hcap := hs.capped
  rw [hs.counted, s.length_holders, hret, BitVec.toNat_ofNat, List.length_nil, Nat.add_zero]
  exact Nat.mod_eq_of_lt (by omega)

/-- **One operation keeps the accounts.** -/
theorem Accounted.step (hs : Accounted maxConnections s) (h : s.step a = some s') : Accounted maxConnections s' := by
  obtain ⟨hmoves, hmax, hserved⟩ := step_does h
  have hcap : s'.served ≤ maxConnections.toNat := by
    rcases hserved with hle | ⟨hroom, hret, hle⟩
    · exact hle.trans hs.capped
    · -- the counter that was compared with the cap is the number of connections served
      have hlt : s.active.toNat < maxConnections.toNat := hs.configured ▸ BitVec.lt_def.mp hroom
      rw [hs.active_toNat hret] at hlt
      omega
  have hcounted := hs.counted
  have hlocated := hs.located
  cases hmoves with
  | keeps hactive hholders haccepted hreleased =>
    exact ⟨hmax.trans hs.configured, by rw [hactive, hholders, hcounted], hcap,
      by rw [hholders, haccepted, hreleased]; exact hlocated⟩
  | takes hactive hholders haccepted hreleased =>
    refine ⟨hmax.trans hs.configured, ?_, hcap, ?_⟩
    · rw [hactive, hholders, hcounted, List.length_append, List.length_singleton, BitVec.ofNat_add]
      rfl
    · rw [hholders, haccepted, hreleased, ← List.append_assoc, List.range_succ]
      exact hlocated.append_right _
  | gives conn ending hactive hholders haccepted hreleased =>
    refine ⟨hmax.trans hs.configured, ?_, hcap, ?_⟩
    · rw [hactive, hcounted, ← hholders.length_eq, List.length_cons, BitVec.ofNat_add]
      exact BitVec.add_sub_cancel _ _
    · rw [haccepted, hreleased, List.map_append, List.append_assoc]
      exact (hholders.append_left _).trans hlocated

/-- **Every run keeps the accounts.** -/
theorem Accounted.run {as : List (AcceptAction ε)} (hs : Accounted maxConnections s) (h : s.run as = some s') :
    Accounted maxConnections s' := by
  induction as generalizing s with
  | nil =>
    obtain rfl := Option.some.inj h
    exact hs
  | cons a as ih =>
    obtain ⟨t, hstep, hrest⟩ := Option.bind_eq_some_iff.mp h
    exact ih (hs.step hstep) hrest

/-- A connection that has no slot any more gave it back once, the others not at all. -/
theorem Accounted.releases (hs : Accounted maxConnections s) (conn : Nat) :
    (s.Ended conn → s.releases conn = 1) ∧ (¬ s.Ended conn → s.releases conn = 0) := by
  have hnodup : (s.released.map Prod.fst ++ s.holders).Nodup := hs.located.nodup_iff.mpr List.nodup_range
  have hcount : s.releases conn + s.holders.count conn = (List.range s.accepted).count conn := by
    rw [AcceptLoop.releases, ← List.count_append, hs.located.count_eq]
  constructor
  · rintro ⟨hlt, hfree⟩
    have hone := List.count_eq_one_of_mem List.nodup_range (List.mem_range.mpr hlt)
    rwa [List.count_eq_zero_of_not_mem hfree, hone] at hcount
  · intro hheld
    by_cases hlt : conn < s.accepted
    · have hmem : conn ∈ s.holders := not_not.mp fun hfree => hheld ⟨hlt, hfree⟩
      have hgone := (List.nodup_append.mp hnodup).2.2
      exact List.count_eq_zero_of_not_mem fun hback => hgone _ hback _ hmem rfl
    · rw [List.count_eq_zero_of_not_mem (List.mem_range.not.mpr hlt)] at hcount
      omega

end AcceptLoop

/-- The two servers. -/
inductive Listener (w : Nat) where
  | health
  | tcp (maxConnections : BitVec w)

namespace Listener

variable {w : Nat}

/-- How the function for a connection returns. -/
def Ends : Listener w → Type
  | health => RequestEnd
  | tcp _ => ServeEnd

/-- The connections served at a time. -/
def maxConnections : Listener w → BitVec w
  | health => BitVec.ofNat w maxConcurrentConnections
  | tcp maxConnections => maxConnections

/-- The server as it is started. -/
def start (l : Listener w) : AcceptLoop w l.Ends := .start l.maxConnections

end Listener

/-- **The counter, the cap and the slots**, between any two operations of any run of either server. -/
theorem slots_accounted {w : Nat} (l : Listener w) {as : List (AcceptAction l.Ends)} {s : AcceptLoop w l.Ends}
    (h : l.start.run as = some s) :
    s.active = BitVec.ofNat w (s.handlers.length + s.phase.starting.length + s.phase.returning.length) ∧
      (s.phase.returning = [] → s.active.toNat = s.handlers.length + s.phase.starting.length) ∧
      s.handlers.length + s.phase.starting.length ≤ l.maxConnections.toNat ∧
      ∀ conn, (s.Ended conn → s.releases conn = 1) ∧ (¬ s.Ended conn → s.releases conn = 0) := by
  have hs : s.Accounted l.maxConnections := AcceptLoop.start_accounted.run h
  refine ⟨?_, hs.active_toNat, hs.capped, hs.releases⟩
  rw [hs.counted, s.length_holders, AcceptLoop.served]

/-- A connection is admitted exactly if fewer than the cap are served: no slot is lost. -/
theorem admits_iff {w : Nat} (l : Listener w) {as : List (AcceptAction l.Ends)} {s : AcceptLoop w l.Ends}
    (h : l.start.run as = some s) (hphase : s.phase = .accepting) :
    (s.onAccept .connection).phase = .spawning s.accepted ↔ s.handlers.length < l.maxConnections.toNat := by
  have hs : s.Accounted l.maxConnections := AcceptLoop.start_accounted.run h
  have hactive : s.active.toNat = s.handlers.length := by
    rw [hs.active_toNat (by rw [hphase]; rfl), AcceptLoop.served, hphase]
    rfl
  have hfull : s.maxConnections ≤ s.active ↔ l.maxConnections.toNat ≤ s.handlers.length := by
    rw [hs.configured, BitVec.le_def, hactive]
  by_cases hcap : s.maxConnections ≤ s.active
  · simp [AcceptLoop.onAccept, hcap, hfull.mp hcap]
  · simp [AcceptLoop.onAccept, hcap, Nat.not_le.mp (hfull.not.mp hcap)]

/-- A connection served, one refused meanwhile and one without a thread: all three slots are back. -/
def threeConnections : List (AcceptAction ServeEnd) :=
  [.poll, .accept .connection, .spawn true, .poll, .accept .connection, .giveBack, .handlerReturns 0 .eof,
    .handlerExits 0, .poll, .accept .connection, .spawn false, .giveBack]

theorem slots_accounted_three : ∃ s, (Listener.tcp 1 : Listener 64).start.run threeConnections = some s ∧
    s.active.toNat = 0 ∧ ∀ conn < 3, s.releases conn = 1 := by
  have hend : ((Listener.tcp 1 : Listener 64).start.run threeConnections).map
      (fun s => (s.accepted, s.handlers.length + s.phase.starting.length, s.phase.returning, s.holders)) =
      some (3, 0, [], []) := by decide +kernel
  obtain ⟨s, hrun, heq⟩ := Option.map_eq_some_iff.mp hend
  simp only [Prod.mk.injEq] at heq
  obtain ⟨haccepted, hserved, hreturning, hholders⟩ := heq
  obtain ⟨-, hactive, -, hreleases⟩ := slots_accounted _ hrun
  refine ⟨s, hrun, (hactive hreturning).trans hserved, fun conn hconn => (hreleases conn).1 ⟨?_, ?_⟩⟩
  · rwa [haccepted]
  · rw [hholders]
    exact List.not_mem_nil

/-- Sixteen connections with a thread each, and one more accepted. -/
def seventeenConnections : List (AcceptAction RequestEnd) :=
  (List.replicate 16 [.poll, .accept .connection, .spawn true]).flatten ++ [.poll, .accept .connection]

/-- The counter is 17 while 16 connections are served and none is being started. -/
theorem refusal_counted : ∃ s, (Listener.health : Listener 64).start.run seventeenConnections = some s ∧
    s.active.toNat ≠ s.handlers.length + s.phase.starting.length := by
  have hcount : ((Listener.health : Listener 64).start.run seventeenConnections).map
      (fun s => (s.active.toNat, s.handlers.length, s.phase.starting.length)) = some (17, 16, 0) := by decide +kernel
  obtain ⟨s, hrun, heq⟩ := Option.map_eq_some_iff.mp hcount
  refine ⟨s, hrun, ?_⟩
  simp only [Prod.mk.injEq] at heq
  omega

end Onde.Network

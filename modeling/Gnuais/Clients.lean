import Mathlib.Data.List.Count
import Mathlib.Data.List.Nodup
import Gnuais.Lib.Buffer

/-!
# The clients of the map socket

`ipc.c`: a thread accepts connections and enters them in a table, and
`ipc_write` writes every sentence to every entry of the table.

* `IpcSystem` — the table, the thread, and what the operating system keeps: the
  connections `accept` has yet to return and the clients that are there.
* `IpcEvent` — what happens, in any order: a client connects or leaves, the
  thread moves, a sentence is written.

A client that leaves stays in the table: nothing ever takes one out. So the
table holds the first `MAX_CLIENT_SOCKETS - 2` connections of a run, however few
of them are left, and the thread ends with the next one
(`connection_served_iff`).
-/

namespace Gnuais

open Buffer

/-- `MAX_CLIENT_SOCKETS` -/
def maxClientSockets : ℕ := 20

/-- `struct ipc_state_t` -/
structure IpcState where
  /-- the number of entries; it is never counted down -/
  numclientsockets : ℕ
  /-- the descriptors, of which only the entries below that number mean anything -/
  clientsocket : Vector ℕ maxClientSockets
  deriving DecidableEq

/-- Where `gnuais_ipc_socketlistener` is. -/
inductive Listener where
  /-- in `accept` -/
  | accepting
  /-- in the body of the loop -/
  | storing (connectionFd : ℕ)
  /-- behind the loop -/
  | stopped
  deriving DecidableEq

/-- The daemon's side and the operating system's. A connection is named by the
descriptor `accept` returns for it: none is ever closed, so none comes twice. -/
structure IpcSystem where
  /-- the table, which the mutex guards -/
  ipc : IpcState
  /-- where the thread is -/
  listener : Listener
  /-- what `accept` has yet to return, oldest first -/
  pending : List ℕ
  /-- the clients whose end of the connection is still open -/
  connected : List ℕ
  deriving DecidableEq

/-- An event, one per step of a run. -/
inductive IpcEvent where
  /-- a client connects, and waits for `accept` -/
  | connect (connectionFd : ℕ)
  /-- a client closes its end; nobody tells the daemon -/
  | disconnect (connectionFd : ℕ)
  /-- one step of the listener -/
  | listen
  /-- the daemon writes a sentence -/
  | ipcWrite (buffer : List UInt8)
  deriving DecidableEq

/-- A `write` to a client. -/
abbrev ClientWrite : Type := ℕ × List UInt8

/-! ## The two threads

The listener works in two halves: `accept` with the test whether there is room, and then
the store under the mutex. Anything may come in between, also a sentence, which then does
not go to the connection in the thread's hands. -/

/-- `gnuais_ipc_init`; `malloc` leaves the table as it was. -/
def gnuaisIpcInit (clientsocket : Vector ℕ maxClientSockets) : IpcSystem where
  ipc := ⟨0, clientsocket⟩
  listener := .accepting
  pending := []
  connected := []

/-- `gnuais_ipc_socketlistener`, from one wait to the next: `accept` with the
test of the loop, and the body under the mutex. -/
def gnuaisIpcSocketlistener (s : IpcSystem) : Option IpcSystem :=
  match s.listener with
  | .accepting =>
    match s.pending with
    | [] => some s
    | connectionFd :: pending =>
      if s.ipc.numclientsockets < maxClientSockets - 2 then
        some { s with listener := .storing connectionFd, pending := pending }
      else some { s with listener := .stopped, pending := pending }
  | .storing connectionFd => do
    let clientsocket ← wr s.ipc.clientsocket s.ipc.numclientsockets connectionFd
    return { s with
      ipc := ⟨s.ipc.numclientsockets + 1, clientsocket⟩
      listener := .accepting }
  | .stopped => some s

/-- `ipc_write`. `SIGPIPE` is caught, so a client that is gone stops nothing. What `write`
returns is logged at most, and the loop goes on with the next entry. -/
def ipcWrite (ipc : IpcState) (buffer : List UInt8) : Option (List ClientWrite) :=
  (List.range ipc.numclientsockets).mapM fun i => do
    let clientsocket ← ipc.clientsocket[i]?
    return (clientsocket, buffer)

/-- One event, with the writes it makes. `none` is an access outside the
table. -/
def IpcSystem.step (s : IpcSystem) : IpcEvent → Option (IpcSystem × List ClientWrite)
  | .connect connectionFd =>
    some ({ s with
      pending := s.pending ++ [connectionFd]
      connected := s.connected ++ [connectionFd] }, [])
  | .disconnect connectionFd =>
    some ({ s with connected := s.connected.filter (· ≠ connectionFd) }, [])
  | .listen => do
    let s ← gnuaisIpcSocketlistener s
    return (s, [])
  | .ipcWrite buffer => do
    let writes ← ipcWrite s.ipc buffer
    return (s, writes)

/-- A run from a state, with the writes of each event. -/
def IpcSystem.run (s : IpcSystem) : List IpcEvent → Option (IpcSystem × List (List ClientWrite))
  | [] => some (s, [])
  | e :: es => do
    let (s, writes) ← s.step e
    let (s, rest) ← s.run es
    return (s, writes :: rest)

/-- The connections made in a run. -/
def connections (es : List IpcEvent) : List ℕ :=
  es.filterMap fun
    | .connect connectionFd => some connectionFd
    | _ => none

/-! ## What becomes of a connection

Descriptors are taken up in the order in which the clients connect, and never moved. So
the table, the descriptor in the thread's hands and those that wait are a front part of
the connections, in order, and it is enough to count. -/

/-- The connections made so far are the entries of the table, then the one the thread
holds, then those that wait; the connection the thread ended with is in none of these
places. `made` is in order, so the front part of it that has as many elements as the table
has entries is what the table holds. -/
def Accounted (made : List ℕ) (s : IpcSystem) : Prop :=
  ∃ stored, s.ipc.numclientsockets = stored.length ∧ HoldsAt s.ipc.clientsocket 0 stored ∧
    match s.listener with
    | .accepting => stored.length ≤ maxClientSockets - 2 ∧ made = stored ++ s.pending
    | .storing fd => stored.length < maxClientSockets - 2 ∧ made = stored ++ fd :: s.pending
    | .stopped => stored.length = maxClientSockets - 2 ∧ ∃ fd, made = stored ++ fd :: s.pending

/-- The client is in the table. -/
def Stored (s : IpcSystem) (fd : ℕ) : Prop :=
  ∃ i < s.ipc.numclientsockets, s.ipc.clientsocket[i]? = some fd

/-- The thread will do no more about the connection. The listener has entered it in the
table, or has ended. -/
def Settled (s : IpcSystem) (fd : ℕ) : Prop :=
  s.listener = .stopped ∨ (fd ∉ s.pending ∧ s.listener ≠ .storing fd)

/-- The client is in the table, and any sentence written now is written to it once. Once,
as an entry that stood twice in the table would get every sentence twice. -/
def Served (s : IpcSystem) (fd : ℕ) : Prop :=
  Stored s fd ∧ ∀ buffer, ∃ writes, s.step (.ipcWrite buffer) = some (s, writes) ∧
    writes.count (fd, buffer) = 1

/-- The steps the thread can still make. -/
def IpcSystem.work (s : IpcSystem) : ℕ :=
  match s.listener with
  | .accepting => 2 * s.pending.length
  | .storing _ => 2 * s.pending.length + 1
  | .stopped => 0

/-- A thread that has nothing left to do is done with every connection. -/
theorem settled_of_work {s : IpcSystem} (h : s.work = 0) (fd : ℕ) : Settled s fd := by
  rw [IpcSystem.work] at h
  cases hl : s.listener with
  | accepting =>
    simp only [hl] at h
    have hnil : s.pending = [] := List.length_eq_zero_iff.mp (by omega)
    exact .inr ⟨by rw [hnil]; exact List.not_mem_nil, by rw [hl]; exact Listener.noConfusion⟩
  | storing held =>
    rw [hl] at h
    cases h
  | stopped => exact .inl hl

/-- Nothing has connected yet. -/
theorem accounted_init (clientsocket : Vector ℕ maxClientSockets) :
    Accounted [] (gnuaisIpcInit clientsocket) :=
  ⟨[], rfl, fun i hi => absurd hi (Nat.not_lt_zero i), Nat.zero_le _, rfl⟩

/-- The table never has more entries than the test lets in. -/
theorem Accounted.count_le {made : List ℕ} {s : IpcSystem} (h : Accounted made s) :
    s.ipc.numclientsockets ≤ maxClientSockets - 2 := by
  obtain ⟨stored, hcount, -, hlistener⟩ := h
  rw [hcount]
  cases hl : s.listener with
  | accepting =>
    rw [hl] at hlistener
    exact hlistener.1
  | storing fd =>
    rw [hl] at hlistener
    exact hlistener.1.le
  | stopped =>
    rw [hl] at hlistener
    exact hlistener.1.le

/-- A step of the thread takes no connection twice, and is one of those left. -/
theorem Accounted.listen {made : List ℕ} {s : IpcSystem} (h : Accounted made s) :
    ∃ s', gnuaisIpcSocketlistener s = some s' ∧ Accounted made s' ∧ s'.work ≤ s.work - 1 := by
  obtain ⟨stored, hcount, hheld, hlistener⟩ := h
  rw [gnuaisIpcSocketlistener]
  cases hl : s.listener with
  | accepting =>
    rw [hl] at hlistener
    obtain ⟨hle, hmade⟩ := hlistener
    cases hp : s.pending with
    | nil =>
      refine ⟨s, rfl, ⟨stored, hcount, hheld, by rw [hl]; exact ⟨hle, hmade⟩⟩, ?_⟩
      simp [IpcSystem.work, hl, hp]
    | cons fd pending =>
      rw [hp] at hmade
      -- two places are never used: the thread stops with the connection it has just taken
      by_cases hroom : s.ipc.numclientsockets < maxClientSockets - 2
      · refine ⟨_, if_pos hroom, ⟨stored, hcount, hheld, hcount ▸ hroom, hmade⟩, ?_⟩
        simp [IpcSystem.work, hl, hp]
        omega
      · exact ⟨_, if_neg hroom, ⟨stored, hcount, hheld, by omega, fd, hmade⟩, Nat.zero_le _⟩
  | storing fd =>
    rw [hl] at hlistener
    obtain ⟨hlt, hmade⟩ := hlistener
    have hfit : stored.length + 1 ≤ maxClientSockets := by
      rw [maxClientSockets] at hlt ⊢
      omega
    have hheld' := hheld.splice [fd] (by rw [List.length_singleton]; omega)
    rw [Nat.zero_add] at hheld'
    rw [hcount]
    simp only [wr_eq _ _ hfit, Option.bind_eq_bind, Option.bind_some]
    refine ⟨_, rfl, ⟨stored ++ [fd], ?_, hheld', ?_, ?_⟩, ?_⟩
    · rw [List.length_append, List.length_singleton]
    · rw [List.length_append, List.length_singleton]
      exact hlt
    · rw [hmade, List.append_assoc]
      rfl
    · rw [IpcSystem.work, IpcSystem.work, hl]
      exact Nat.le_refl _
  | stopped =>
    refine ⟨s, rfl, ⟨stored, hcount, hheld, by rwa [hl] at hlistener ⊢⟩, ?_⟩
    rw [IpcSystem.work, hl]
    exact Nat.zero_le _

/-- A sentence goes to every entry of the table. -/
theorem ipcWrite_eq {ipc : IpcState} {stored : List ℕ} (hcount : ipc.numclientsockets = stored.length)
    (hheld : HoldsAt ipc.clientsocket 0 stored) (buffer : List UInt8) :
    ipcWrite ipc buffer = some (stored.map (·, buffer)) := by
  have hread : ∀ i ∈ List.range stored.length,
      (do let clientsocket ← ipc.clientsocket[i]?
          return (clientsocket, buffer)) = some ((stored[i]?.getD 0, buffer) : ClientWrite) := by
    intro i hi
    have hlt := List.mem_range.mp hi
    have hslot := hheld i hlt
    rw [Nat.zero_add] at hslot
    rw [hslot, List.getElem?_eq_getElem hlt]
    rfl
  rw [ipcWrite, hcount, mapM_some hread]
  congr 1
  apply List.ext_getElem
  · rw [List.length_map, List.length_map, List.length_range]
  · intro i hi _
    rw [List.length_map, List.length_range] at hi
    rw [List.getElem_map, List.getElem_range, List.getElem_map, List.getElem?_eq_getElem hi]
    rfl

/-- One event, whatever it is. -/
theorem Accounted.step {made : List ℕ} {s : IpcSystem} (h : Accounted made s) (e : IpcEvent) :
    ∃ s' writes, s.step e = some (s', writes) ∧ Accounted (made ++ connections [e]) s' := by
  cases e with
  | connect fd =>
    obtain ⟨stored, hcount, hheld, hlistener⟩ := h
    refine ⟨_, _, rfl, stored, hcount, hheld, ?_⟩
    cases hl : s.listener with
    | accepting =>
      rw [hl] at hlistener
      obtain ⟨hle, rfl⟩ := hlistener
      exact ⟨hle, List.append_assoc _ _ _⟩
    | storing held =>
      rw [hl] at hlistener
      obtain ⟨hlt, rfl⟩ := hlistener
      exact ⟨hlt, List.append_assoc _ _ _⟩
    | stopped =>
      rw [hl] at hlistener
      obtain ⟨hfull, lost, rfl⟩ := hlistener
      exact ⟨hfull, lost, List.append_assoc _ _ _⟩
  | disconnect fd =>
    rw [show connections [.disconnect fd] = [] from rfl, List.append_nil]
    exact ⟨_, _, rfl, h⟩
  | listen =>
    obtain ⟨s', hlisten, h', -⟩ := h.listen
    rw [show connections [.listen] = [] from rfl, List.append_nil]
    refine ⟨s', [], ?_, h'⟩
    rw [IpcSystem.step, hlisten]
    rfl
  | ipcWrite buffer =>
    obtain ⟨stored, hcount, hheld, -⟩ := id h
    rw [show connections [.ipcWrite buffer] = [] from rfl, List.append_nil]
    refine ⟨s, stored.map (·, buffer), ?_, h⟩
    rw [IpcSystem.step, ipcWrite_eq hcount hheld]
    rfl

/-- The connections of a run in two parts. -/
theorem connections_append (es es' : List IpcEvent) :
    connections (es ++ es') = connections es ++ connections es' := List.filterMap_append

/-- A whole run, by induction on its events. -/
theorem Accounted.run {made : List ℕ} {s : IpcSystem} (h : Accounted made s)
    (es : List IpcEvent) :
    ∃ s' writes, s.run es = some (s', writes) ∧ Accounted (made ++ connections es) s' := by
  induction es generalizing made s with
  | nil => exact ⟨s, [], rfl, by rwa [show connections [] = [] from rfl, List.append_nil]⟩
  | cons e es ih =>
    obtain ⟨s₁, writes, hstep, h₁⟩ := h.step e
    obtain ⟨s', rest, hrun, h'⟩ := ih h₁
    refine ⟨s', writes :: rest, ?_, ?_⟩
    · rw [IpcSystem.run, hstep]
      simp only [Option.bind_eq_bind, Option.bind_some, hrun]
      rfl
    · rwa [List.append_assoc, ← connections_append] at h'

/-- Left alone, the thread settles every connection. -/
theorem Accounted.settles {made : List ℕ} (k : ℕ) :
    ∀ {s : IpcSystem}, Accounted made s → s.work ≤ k →
      ∃ s' writes, s.run (List.replicate k .listen) = some (s', writes) ∧
        Accounted made s' ∧ ∀ fd, Settled s' fd := by
  induction k with
  | zero => exact fun {s} h hwork => ⟨s, [], rfl, h, settled_of_work (Nat.le_zero.mp hwork)⟩
  | succ k ih =>
    intro s h hwork
    obtain ⟨s₁, hlisten, h₁, hless⟩ := h.listen
    obtain ⟨s', rest, hrun, h', hsettled⟩ := ih h₁ (by omega)
    refine ⟨s', [] :: rest, ?_, h', hsettled⟩
    rw [List.replicate_succ, IpcSystem.run, IpcSystem.step, hlisten]
    simp only [Option.bind_eq_bind, Option.bind_some, Option.pure_def, hrun]

/-- In a list without repetitions an element is in a front part exactly if
fewer elements come before it than the part has. -/
theorem mem_front_iff {stored rest before after : List ℕ} {fd : ℕ}
    (heq : stored ++ rest = before ++ fd :: after) (hnodup : (stored ++ rest).Nodup) :
    fd ∈ stored ↔ before.length < stored.length := by
  have hat : (stored ++ rest)[before.length]? = some fd := by
    rw [heq, List.getElem?_append_right (Nat.le_refl _), Nat.sub_self]
    rfl
  constructor
  · intro hmem
    obtain ⟨i, hi, hget⟩ := List.getElem_of_mem hmem
    have hat' : (stored ++ rest)[i]? = some fd := by
      rw [List.getElem?_append_left hi, List.getElem?_eq_getElem hi, hget]
    have hsame : i = before.length :=
      (List.getElem?_inj (List.getElem?_eq_some_iff.mp hat').1 hnodup).mp (hat'.trans hat.symm)
    rwa [← hsame]
  · intro hlt
    rw [List.getElem?_append_left hlt] at hat
    exact List.mem_of_getElem? hat

/-- A client is in the table if its descriptor is among the entries. -/
theorem stored_iff_mem {s : IpcSystem} {stored : List ℕ} {fd : ℕ}
    (hcount : s.ipc.numclientsockets = stored.length) (hheld : HoldsAt s.ipc.clientsocket 0 stored) :
    Stored s fd ↔ fd ∈ stored := by
  rw [Stored, hcount]
  constructor
  · rintro ⟨i, hi, hslot⟩
    have hsame := hheld i hi
    rw [Nat.zero_add, hslot] at hsame
    exact List.mem_of_getElem? hsame.symm
  · intro hfd
    obtain ⟨i, hi, rfl⟩ := List.getElem_of_mem hfd
    have hslot := hheld i hi
    rw [Nat.zero_add, List.getElem?_eq_getElem hi] at hslot
    exact ⟨i, hi, hslot⟩

/-- What the table holds of the connections made: a connection the thread is
done with is in it exactly if it was among the first. -/
theorem Accounted.stored_iff {before after : List ℕ} {fd : ℕ} {s : IpcSystem}
    (h : Accounted (before ++ fd :: after) s) (hnodup : (before ++ fd :: after).Nodup)
    (hsettled : Settled s fd) :
    Stored s fd ↔ before.length < maxClientSockets - 2 := by
  obtain ⟨stored, hcount, hheld, hlistener⟩ := h
  rw [stored_iff_mem hcount hheld]
  cases hl : s.listener with
  | accepting =>
    rw [hl] at hlistener
    obtain ⟨hle, hmade⟩ := hlistener
    rcases hsettled with hstopped | ⟨hpending, -⟩
    · rw [hl] at hstopped
      cases hstopped
    · have hfd : fd ∈ stored ++ s.pending := by
        rw [← hmade]
        exact List.mem_append_right _ (List.mem_cons_self ..)
      -- what is not waiting any more was taken, and what was taken is in the table
      have hin := (List.mem_append.mp hfd).resolve_right hpending
      have hlt := (mem_front_iff hmade.symm (hmade ▸ hnodup)).mp hin
      exact iff_of_true hin (by omega)
  | storing held =>
    rw [hl] at hlistener
    obtain ⟨hlt, hmade⟩ := hlistener
    rcases hsettled with hstopped | ⟨hpending, hheldfd⟩
    · rw [hl] at hstopped
      cases hstopped
    · have hfd : fd ∈ stored ++ held :: s.pending := by
        rw [← hmade]
        exact List.mem_append_right _ (List.mem_cons_self ..)
      -- settled: neither waiting nor in the hands of the thread
      have hout : fd ∉ held :: s.pending := by
        rw [List.mem_cons]
        rintro (rfl | hmem)
        · exact hheldfd hl
        · exact hpending hmem
      have hin := (List.mem_append.mp hfd).resolve_right hout
      have hlt := (mem_front_iff hmade.symm (hmade ▸ hnodup)).mp hin
      exact iff_of_true hin (by omega)
  | stopped =>
    rw [hl] at hlistener
    obtain ⟨hfull, lost, hmade⟩ := hlistener
    rw [mem_front_iff hmade.symm (hmade ▸ hnodup), hfull]

/-- The table is a front part of the connections made. -/
theorem Accounted.stored_front {made : List ℕ} {s : IpcSystem} (h : Accounted made s) :
    ∃ stored rest, s.ipc.numclientsockets = stored.length ∧ HoldsAt s.ipc.clientsocket 0 stored ∧
      made = stored ++ rest := by
  obtain ⟨stored, hcount, hheld, hlistener⟩ := h
  cases hl : s.listener with
  | accepting =>
    rw [hl] at hlistener
    exact ⟨stored, _, hcount, hheld, hlistener.2⟩
  | storing fd =>
    rw [hl] at hlistener
    exact ⟨stored, _, hcount, hheld, hlistener.2⟩
  | stopped =>
    rw [hl] at hlistener
    obtain ⟨-, lost, hmade⟩ := hlistener
    exact ⟨stored, _, hcount, hheld, hmade⟩

/-- Every sentence is written once to every client in the table. -/
theorem Accounted.served_iff {made : List ℕ} {s : IpcSystem} (h : Accounted made s)
    (hnodup : made.Nodup) (fd : ℕ) : Served s fd ↔ Stored s fd := by
  obtain ⟨stored, rest, hcount, hheld, rfl⟩ := h.stored_front
  refine ⟨And.left, fun hstored => ⟨hstored, fun buffer => ?_⟩⟩
  refine ⟨stored.map (·, buffer), ?_, ?_⟩
  · rw [IpcSystem.step, ipcWrite_eq hcount hheld]
    rfl
  · have hinj : Function.Injective fun fd : ℕ => ((fd, buffer) : ClientWrite) :=
      fun a b hab => (Prod.mk.inj hab).1
    rw [List.count_map_of_injective stored _ hinj fd]
    exact List.count_eq_one_of_mem (List.nodup_append.mp hnodup).1
      ((stored_iff_mem hcount hheld).mp hstored)

/-- Whatever happens and in whatever order, the table does not overflow, the thread gets
done with every connection, and a connection it is done with is served from then on
exactly if fewer than `MAX_CLIENT_SOCKETS - 2` were made before it, however many of those
are still there. A client that left still counts, since nothing takes it out of the table. -/
theorem connection_served_iff (clientsocket : Vector ℕ maxClientSockets)
    (before after : List IpcEvent) (fd : ℕ)
    (hfresh : (connections (before ++ .connect fd :: after)).Nodup) :
    ∃ s writes,
      (gnuaisIpcInit clientsocket).run (before ++ .connect fd :: after) = some (s, writes) ∧
      s.ipc.numclientsockets ≤ maxClientSockets ∧
      (∃ k s' writes', s.run (List.replicate k .listen) = some (s', writes') ∧ Settled s' fd) ∧
      (Settled s fd → (Served s fd ↔ (connections before).length < maxClientSockets - 2)) := by
  obtain ⟨s, writes, hrun, h⟩ :=
    (accounted_init clientsocket).run (before ++ .connect fd :: after)
  rw [List.nil_append] at h
  have hmade : connections (before ++ .connect fd :: after) =
      connections before ++ fd :: connections after := by
    rw [connections_append]
    rfl
  refine ⟨s, writes, hrun, h.count_le.trans (Nat.sub_le _ _), ?_, fun hsettled => ?_⟩
  · obtain ⟨s', writes', hidle, -, hsettled⟩ := h.settles s.work (Nat.le_refl _)
    exact ⟨s.work, s', writes', hidle, hsettled fd⟩
  · rw [h.served_iff hfresh]
    exact (hmade ▸ h).stored_iff (hmade ▸ hfresh) hsettled

/-- A client that comes and goes, and one that stays. -/
def twoClients : List IpcEvent :=
  [.connect 5, .listen, .listen, .disconnect 5, .connect 6, .listen, .listen]

/-- The next one is served as well. -/
theorem connection_served_iff_third :
    ∃ s writes, (gnuaisIpcInit (.replicate _ 0)).run
        (twoClients ++ .connect 7 :: [.listen, .listen]) = some (s, writes) ∧
      s.ipc.numclientsockets ≤ maxClientSockets ∧
      (∃ k s' writes', s.run (List.replicate k .listen) = some (s', writes') ∧ Settled s' 7) ∧
      (Settled s 7 → (Served s 7 ↔ (connections twoClients).length < maxClientSockets - 2)) :=
  connection_served_iff (.replicate _ 0) twoClients [.listen, .listen] 7 (by decide)

/-- Eighteen clients that come and go, and one that stays. -/
def visitors : List IpcEvent :=
  (List.range 18).flatMap fun fd => [.connect fd, .listen, .listen, .disconnect fd]

/-- After eighteen visits no client is there, and yet the next one to connect is
not entered in the table: the thread has ended, and a sentence goes to the
eighteen that left. -/
theorem late_client_ignored :
    let s := gnuaisIpcInit (.replicate _ 0)
    let late := visitors ++ [.connect 18, .listen, .ipcWrite [33]]
    (s.run visitors).map (·.1.connected) = some [] ∧
    (s.run late).map (·.1.connected) = some [18] ∧
    (s.run late).map (fun r => (r.1.listener, r.1.pending)) = some (.stopped, []) ∧
    (s.run late).map (·.2.getLast?) = some (some ((List.range 18).map (·, [33]))) := by
  decide +kernel

end Gnuais

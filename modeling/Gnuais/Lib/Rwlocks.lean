import Gnuais.Lib.Threads
import Mathlib.Data.Fintype.Pi

/-!
# Read-write locks taken in order

Threads that run programs over several read-write locks. The locks themselves belong to a
thread library whose code is not looked at: they are a parameter (`Rwlock`), and what the
standard says of `pthread_rwlock_rdlock` and its siblings is a list of named assumptions
about it (`Rwlock.Documented`).

* `Place` — where a thread is with respect to one lock: it does without it, has it, or
  sleeps in the call that takes it.
* `Step`, `System` — the programs of the threads: they take locks, give them back, and use
  or change what a lock guards.
* `Follows` — the discipline of a program: a lock is taken only above the ones the thread
  has, given back in the mode in which it was taken, and what it guards is used with the
  lock and changed with the lock for writing.
* `System.Inv` — what holds in every state of threads that keep to the discipline.
* `System.Inv.alone` — nobody uses what another thread is about to change.
* `System.Inv.drain` — from every such state all threads can get to their ends.

The order of the locks is a rank, so the argument against deadlocks is the usual one: among
the threads that wait, one waits for a lock of the highest rank, and whoever has that lock
does not wait. It is `exists_unblocked` of `Threads`.
-/

namespace Rwlocks

open Threads

/-! ## One lock

What a thread can see of a lock is where it is itself. Where the other threads are is known
only to the lock, and only its documented behaviour says that they do not get in each
other's way. -/

/-- What a thread has a lock for, or waits for it for. -/
inductive Mode where
  /-- with other readers -/
  | read
  /-- alone -/
  | write
  deriving DecidableEq, Repr

/-- Where a thread is with respect to a lock. -/
inductive Place where
  /-- It neither has the lock nor waits for it. -/
  | idle
  /-- It has the lock. -/
  | has (m : Mode)
  /-- It sleeps in the call that takes the lock. -/
  | waits (m : Mode)
  deriving DecidableEq, Repr

namespace Place

/-- What the thread has the lock for, or waits for it for, if it does. -/
@[simp] def mode : Place → Option Mode
  | idle => none
  | has m => some m
  | waits m => some m

/-- The thread has the lock. -/
@[simp] def holds : Place → Bool
  | has _ => true
  | _ => false

/-- The thread sleeps. -/
@[simp] def sleeps : Place → Bool
  | waits _ => true
  | _ => false

@[simp] theorem mode_eq_none {p : Place} : p.mode = none ↔ p = .idle := by cases p <;> simp

theorem eq_has {p : Place} {m : Mode} (hmode : p.mode = some m) (hp : p.sleeps = false) :
    p = .has m := by
  cases p <;> simp_all

theorem mode_of_holds {p : Place} (h : p.holds = true) : p.mode ≠ none := by cases p <;> simp_all

theorem not_sleeps_of_holds {p : Place} (h : p.holds = true) : p.sleeps = false := by
  cases p <;> simp_all

theorem eq_waits {p : Place} (h : p.sleeps = true) : ∃ m, p = .waits m := by
  cases p with
  | waits m => exact ⟨m, rfl⟩
  | idle | has m => cases h

end Place

/-- What happens to a lock. -/
inductive Event (T : Type) where
  /-- The thread calls the function that takes the lock. -/
  | lock (t : T) (m : Mode)
  /-- The thread calls the function that gives it back. -/
  | unlock (t : T)
  /-- The call of a thread that sleeps returns. -/
  | grant (t : T)

/-- Whose event it is. -/
@[simp] def Event.thread {T : Type} : Event T → T
  | lock t _ => t
  | unlock t => t
  | grant t => t

/-- A read-write lock of a library: its states, which are of no concern, where each thread
is in a state, and the state behind an event, if the event is possible. -/
structure Rwlock (T σ : Type) where
  /-- The state that the static initializer gives. -/
  initial : σ
  /-- where a thread is, as far as this lock is concerned -/
  place : σ → T → Place
  /-- the state behind an event, or none if the event is not possible -/
  step : σ → Event T → Option σ

section Documented

variable {T σ : Type}

/-- What is documented of a read-write lock. The calls themselves succeed: a thread does not
take a lock that it has, and there is room for one more reader. -/
structure Rwlock.Documented (lib : Rwlock T σ) : Prop where
  /-- Nobody has the lock at first. -/
  initial_idle : ∀ t, lib.place lib.initial t = .idle
  /-- An event is one of its thread alone. -/
  frame : ∀ {s e s' u}, lib.step s e = some s' → u ≠ e.thread → lib.place s' u = lib.place s u
  /-- A thread that takes the lock has it or sleeps. -/
  lock_place : ∀ {s t m s'}, lib.step s (.lock t m) = some s' →
    lib.place s' t = .has m ∨ lib.place s' t = .waits m
  /-- A thread may take a lock that it does not have. -/
  lock_enabled : ∀ {s t} m, lib.place s t = .idle → ∃ s', lib.step s (.lock t m) = some s'
  /-- A thread that gives the lock back does without it. -/
  unlock_place : ∀ {s t s'}, lib.step s (.unlock t) = some s' → lib.place s' t = .idle
  /-- A thread may give a lock back that it has. -/
  unlock_enabled : ∀ {s t m}, lib.place s t = .has m → ∃ s', lib.step s (.unlock t) = some s'
  /-- A call that returns is one of a thread that sleeps, which then has what it waited
  for. -/
  grant_place : ∀ {s t s'}, lib.step s (.grant t) = some s' →
    ∃ m, lib.place s t = .waits m ∧ lib.place s' t = .has m
  /-- A thread gets the lock for writing when no other thread has it. -/
  write_alone : ∀ {s e s'}, lib.step s e = some s' → lib.place s' e.thread = .has .write →
    lib.place s e.thread = .has .write ∨ ∀ u, u ≠ e.thread → (lib.place s u).holds = false
  /-- A thread gets the lock for reading when no other thread has it for writing. -/
  read_unwritten : ∀ {s e s'}, lib.step s e = some s' → lib.place s' e.thread = .has .read →
    lib.place s e.thread = .has .read ∨ ∀ u, u ≠ e.thread → lib.place s u ≠ .has .write
  /-- If nobody has the lock, the call of some thread that sleeps may return. -/
  granted : ∀ {s t m}, (∀ u, (lib.place s u).holds = false) → lib.place s t = .waits m →
    ∃ u s', lib.step s (.grant u) = some s'

/-- A thread that has the lock for writing is the only one that has it. -/
def Rwlock.Exclusive (lib : Rwlock T σ) (s : σ) : Prop :=
  ∀ t u, t ≠ u → lib.place s t = .has .write → (lib.place s u).holds = false

variable {lib : Rwlock T σ}

/-- A thread that does not move stays where it is, so of two threads that have the lock in
the wrong way the one that moves has got it in this step, and that is not how locks are
given. -/
theorem Rwlock.Documented.exclusive_step (hlib : lib.Documented) {s s' : σ} {e : Event T}
    (hstep : lib.step s e = some s') (h : lib.Exclusive s) : lib.Exclusive s' := by
  intro t u htu ht
  by_contra hu
  obtain ⟨m, hu⟩ : ∃ m, lib.place s' u = .has m := by
    cases hp : lib.place s' u with
    | has m => exact ⟨m, rfl⟩
    | idle | waits m => rw [hp] at hu; exact absurd rfl hu
  by_cases hmoved : u = e.thread
  · -- the reader or writer `u` is the one that moved, and `t` was a writer before
    have hbefore : lib.place s t = .has .write := by rw [← hlib.frame hstep (hmoved ▸ htu), ht]
    have hnot := h t u htu hbefore
    cases m with
    | write =>
      rcases hlib.write_alone hstep (hmoved ▸ hu) with hold | halone
      · rw [hmoved, hold] at hnot
        cases hnot
      · have hfree := halone t (hmoved ▸ htu)
        rw [hbefore] at hfree
        cases hfree
    | read =>
      rcases hlib.read_unwritten hstep (hmoved ▸ hu) with hold | hunwritten
      · rw [hmoved, hold] at hnot
        cases hnot
      · exact hunwritten t (hmoved ▸ htu) hbefore
  · -- `u` had the lock already, so the writer `t` is the one that moved
    have hbefore : lib.place s u = .has m := by rw [← hlib.frame hstep hmoved, hu]
    by_cases hmoved' : t = e.thread
    · subst hmoved'
      rcases hlib.write_alone hstep ht with hold | halone
      · have hnot := h _ u htu hold
        rw [hbefore] at hnot
        cases hnot
      · have hfree := halone u (Ne.symm htu)
        rw [hbefore] at hfree
        cases hfree
    · have hnot := h t u htu (by rw [← hlib.frame hstep hmoved', ht])
      rw [hbefore] at hnot
      cases hnot

end Documented

/-! ## Programs

A program is a list of steps. Branches are taken before it starts, so threads with all
lists that a function may come to are all threads that call it. -/

/-- A step of a program with the locks `L`. -/
inductive Step (L : Type) where
  /-- It takes the lock for reading. -/
  | rdlock (l : L)
  /-- It gives the lock back that it has for reading. -/
  | rdunlock (l : L)
  /-- It takes the lock for writing. -/
  | wrlock (l : L)
  /-- It gives the lock back that it has for writing. -/
  | wrunlock (l : L)
  /-- It uses what the lock guards. -/
  | use (l : L)
  /-- It changes what the lock guards. -/
  | change (l : L)
  deriving DecidableEq, Repr

namespace Step

variable {L T : Type}

/-- The lock that the step is about. -/
@[simp] def lock : Step L → L
  | rdlock l => l
  | rdunlock l => l
  | wrlock l => l
  | wrunlock l => l
  | use l => l
  | change l => l

/-- The step as an event of its lock, if it is a call of the library, which has one function
to give a lock back. -/
def event (t : T) : Step L → Option (Event T)
  | rdlock _ => some (.lock t .read)
  | rdunlock _ => some (.unlock t)
  | wrlock _ => some (.lock t .write)
  | wrunlock _ => some (.unlock t)
  | use _ => none
  | change _ => none

theorem event_thread {c : Step L} {t : T} {e : Event T} (h : c.event t = some e) : e.thread = t := by
  cases c <;> cases h <;> rfl

variable [DecidableEq L]

/-- What a thread has its locks for behind the step, or waits for them for. -/
def after (m : L → Option Mode) : Step L → L → Option Mode
  | rdlock l => Function.update m l (some .read)
  | rdunlock l => Function.update m l none
  | wrlock l => Function.update m l (some .write)
  | wrunlock l => Function.update m l none
  | use _ => m
  | change _ => m

/-- A step that a thread with the locks `m` may make. -/
def Allowed (rank : L → ℕ) (m : L → Option Mode) : Step L → Prop
  | rdlock l => ∀ l', m l' ≠ none → rank l' < rank l
  | rdunlock l => m l = some .read
  | wrlock l => ∀ l', m l' ≠ none → rank l' < rank l
  | wrunlock l => m l = some .write
  | use l => m l ≠ none
  | change l => m l = some .write

end Step

/-! ## The discipline

A program that keeps to it knows at every step which locks it has. So it can be checked by
itself, without the other threads. -/

section Follows

variable {L : Type} [DecidableEq L] {rank : L → ℕ} {m : L → Option Mode} {l : L}
  {steps rest : List (Step L)}

/-- A thread with the locks `m` may make these steps, and has no lock behind them. -/
def Follows (rank : L → ℕ) : (L → Option Mode) → List (Step L) → Prop
  | m, [] => ∀ l, m l = none
  | m, c :: rest => c.Allowed rank m ∧ Follows rank (c.after m) rest

/-- A thread with no lock. -/
def noLock : L → Option Mode := fun _ => none

/-- Nothing is left to do. -/
theorem follows_nil : Follows rank noLock [] := fun _ => rfl

omit [DecidableEq L] in
/-- A thread with no lock may take any. -/
theorem noLock_rank (l' : L) (h : noLock l' ≠ none) : rank l' < rank l := absurd rfl h

/-- A lock that is given back is as it was before it was taken. -/
theorem update_restore (hm : m l = none) (mode : Option Mode) :
    Function.update (Function.update m l mode) l none = m := by
  rw [Function.update_idem, ← hm, Function.update_eq_self]

/-- A lock for reading is given back. -/
theorem Follows.rdunlock (hm : m l = none) (hrest : Follows rank m rest) :
    Follows rank (Function.update m l (some .read)) (.rdunlock l :: rest) := by
  refine ⟨Function.update_self .., ?_⟩
  rw [Step.after, update_restore hm]
  exact hrest

/-- A lock for writing is given back. -/
theorem Follows.wrunlock (hm : m l = none) (hrest : Follows rank m rest) :
    Follows rank (Function.update m l (some .write)) (.wrunlock l :: rest) := by
  refine ⟨Function.update_self .., ?_⟩
  rw [Step.after, update_restore hm]
  exact hrest

/-- What a lock guards may be changed with the lock for writing. -/
theorem Follows.change (hrest : Follows rank (Function.update m l (some .write)) rest) :
    Follows rank (Function.update m l (some .write)) (.change l :: rest) :=
  ⟨Function.update_self .., hrest⟩

/-- Programs without locks at their ends may be put one behind the other. -/
theorem Follows.append (hrest : Follows rank noLock rest) :
    ∀ {m : L → Option Mode}, Follows rank m steps → Follows rank m (steps ++ rest) := by
  induction steps with
  | nil =>
    intro m hsteps
    obtain rfl : m = noLock := funext hsteps
    exact hrest
  | cons c steps ih => exact fun hsteps => ⟨hsteps.1, ih hsteps.2⟩

/-- Any number of calls, one after the other. -/
theorem follows_flatMap {α : Type} {f : α → List (Step L)} (h : ∀ x, Follows rank noLock (f x))
    (xs : List α) : Follows rank noLock (xs.flatMap f) := by
  induction xs with
  | nil => exact follows_nil
  | cons x xs ih =>
    rw [List.flatMap_cons]
    exact ih.append (h x)

end Follows

/-! ## Threads with programs

The threads take turns in any order. A thread that sleeps makes no step until its lock is
granted to it. -/

/-- The threads with the steps they have yet to make, and the locks. -/
structure System (T L σ : Type) where
  /-- what each thread has yet to do -/
  rest : T → List (Step L)
  /-- the state of each lock -/
  lock : L → σ

/-- What happens next. -/
inductive Move (T L : Type) where
  /-- The thread makes the next step of its program. -/
  | run (t : T)
  /-- The call of a thread that sleeps returns. -/
  | grant (l : L) (t : T)

section System

variable {T L σ : Type} [DecidableEq T] [DecidableEq L] [Fintype L] (lib : Rwlock T σ)

/-- Where a thread is with respect to a lock. -/
def System.place (s : System T L σ) (l : L) (t : T) : Place := lib.place (s.lock l) t

/-- The thread sleeps in some call. -/
def System.Sleeps (s : System T L σ) (t : T) : Prop := ∃ l, (s.place lib l t).sleeps = true

instance (s : System T L σ) (t : T) : Decidable (s.Sleeps lib t) :=
  inferInstanceAs (Decidable (∃ _, _))

/-- What a step does to the locks, if it is possible. -/
def System.perform (s : System T L σ) (t : T) (c : Step L) : Option (L → σ) :=
  match c.event t with
  | none => some s.lock
  | some e => (lib.step (s.lock c.lock) e).map (Function.update s.lock c.lock)

/-- The state behind a move, if the move is possible. A thread that sleeps makes no step. -/
def System.step (s : System T L σ) : Move T L → Option (System T L σ)
  | .run t =>
    match s.rest t with
    | [] => none
    | c :: rest =>
      if s.Sleeps lib t then none
      else (s.perform lib t c).map fun lock => { rest := Function.update s.rest t rest, lock }
  | .grant l t =>
    (lib.step (s.lock l) (.grant t)).map fun k => { s with lock := Function.update s.lock l k }

/-- Each thread has its program in front of it, and no lock. -/
def System.initial (programs : T → List (Step L)) : System T L σ :=
  { rest := programs, lock := fun _ => lib.initial }

/-- The state behind a run. -/
def System.run (s : System T L σ) (moves : List (Move T L)) : Option (System T L σ) :=
  moves.foldlM (System.step lib) s

/-- The thread is about to make the step. -/
def System.Next (s : System T L σ) (t : T) (c : Step L) : Prop :=
  ¬ s.Sleeps lib t ∧ ∃ rest, s.rest t = c :: rest

/-- What a thread has its locks for, or waits for them for. -/
def System.modes (s : System T L σ) (t : T) : L → Option Mode := fun l => (s.place lib l t).mode

/-! ## What a move does

A move concerns one thread and one lock. All that is needed of the others is that they
stay where they are. -/

variable {lib} (hlib : lib.Documented) {s s' : System T L σ} {t u : T} {l : L} {c : Step L}

omit [DecidableEq T] [DecidableEq L] [Fintype L] in
theorem System.not_sleeps_iff :
    ¬ s.Sleeps lib t ↔ ∀ l, (s.place lib l t).sleeps = false := by
  rw [System.Sleeps, not_exists]
  exact forall_congr' fun l => Bool.not_eq_true _ ▸ Iff.rfl

/-- The state behind a step of a program. -/
theorem System.run_cases (h : s.step lib (.run t) = some s') :
    ∃ c rest lock, s.rest t = c :: rest ∧ ¬ s.Sleeps lib t ∧ s.perform lib t c = some lock ∧
      s' = { rest := Function.update s.rest t rest, lock } := by
  rw [System.step] at h
  cases hrest : s.rest t with
  | nil => rw [hrest] at h; cases h
  | cons c rest =>
    rw [hrest] at h
    dsimp only at h
    obtain ⟨hsleeps, h⟩ := Option.ite_none_left_eq_some.mp h
    obtain ⟨lock, hlock, rfl⟩ := Option.map_eq_some_iff.mp h
    exact ⟨c, rest, lock, rfl, hsleeps, hlock, rfl⟩

/-- The state behind a call that returns. -/
theorem System.grant_cases (h : s.step lib (.grant l t) = some s') :
    ∃ k, lib.step (s.lock l) (.grant t) = some k ∧
      s' = { s with lock := Function.update s.lock l k } := by
  obtain ⟨k, hk, rfl⟩ := Option.map_eq_some_iff.mp h
  exact ⟨k, hk, rfl⟩

/-- The other threads stay where they are. -/
def System.Frame (lib : Rwlock T σ) (lock : L → σ) (t : T) (lock' : L → σ) : Prop :=
  ∀ l u, u ≠ t → lib.place (lock' l) u = lib.place (lock l) u

include hlib

omit [DecidableEq T] [Fintype L] in
/-- An event of one lock among the others. -/
theorem frame_update {lock : L → σ} {e : Event T} {k : σ} (hk : lib.step (lock l) e = some k) :
    System.Frame lib lock e.thread (Function.update lock l k) := by
  intro l' u hu
  by_cases hl : l' = l
  · rw [hl, Function.update_self]
    exact hlib.frame hk hu
  · rw [Function.update_of_ne hl]

omit [DecidableEq T] [Fintype L] in
/-- All locks are still exclusive after an event of one of them. -/
theorem exclusive_update {lock : L → σ} {e : Event T} {k : σ}
    (hk : lib.step (lock l) e = some k) (h : ∀ l, lib.Exclusive (lock l)) (l' : L) :
    lib.Exclusive (Function.update lock l k l') := by
  by_cases hl : l' = l
  · rw [hl, Function.update_self]
    exact hlib.exclusive_step hk (h l)
  · rw [Function.update_of_ne hl]
    exact h l'

omit [DecidableEq T] [Fintype L] in
/-- What a step leaves behind: the other threads are where they were, and the thread itself
has moved in the lock of the step only, to the mode of the step. -/
theorem perform_spec {lock : L → σ} (h : s.perform lib t c = some lock) :
    System.Frame lib s.lock t lock ∧
      (∀ l, l ≠ c.lock → lib.place (lock l) t = s.place lib l t) ∧
      (fun l => (lib.place (lock l) t).mode) = c.after (s.modes lib t) := by
  rw [System.perform] at h
  cases he : c.event t with
  | none =>
    rw [he] at h
    obtain rfl := Option.some.inj h
    refine ⟨fun _ _ _ => rfl, fun _ _ => rfl, ?_⟩
    cases c with
    | use l | change l => rfl
    | rdlock l | rdunlock l | wrlock l | wrunlock l => cases he
  | some e =>
    rw [he] at h
    obtain ⟨k, hk, rfl⟩ := Option.map_eq_some_iff.mp h
    have hthread := Step.event_thread he
    refine ⟨hthread ▸ frame_update hlib hk, fun l hl => by rw [Function.update_of_ne hl]; rfl, ?_⟩
    -- the mode of the thread in the lock of the step
    have hmode : ∀ mode, (lib.place k t).mode = mode →
        (fun l => (lib.place (Function.update s.lock c.lock k l) t).mode) =
          Function.update (s.modes lib t) c.lock mode := by
      intro mode hmode
      funext l
      by_cases hl : l = c.lock
      · rw [hl, Function.update_self, Function.update_self, hmode]
      · rw [Function.update_of_ne hl, Function.update_of_ne hl]
        rfl
    cases c with
    | rdlock l | wrlock l =>
      cases he
      refine hmode _ ?_
      rcases hlib.lock_place hk with hp | hp <;> rw [hp] <;> rfl
    | rdunlock l | wrunlock l =>
      cases he
      exact hmode _ (by rw [hlib.unlock_place hk]; rfl)
    | use l | change l => cases he

omit [DecidableEq T] [Fintype L] in
/-- A thread that does not sleep can make a step that it may make. -/
theorem exists_perform {rank : L → ℕ} (hallowed : c.Allowed rank (s.modes lib t))
    (hsleeps : ¬ s.Sleeps lib t) : ∃ lock, s.perform lib t c = some lock := by
  rw [System.not_sleeps_iff] at hsleeps
  have hidle : ∀ l, (∀ l', s.modes lib t l' ≠ none → rank l' < rank l) →
      lib.place (s.lock l) t = .idle := by
    intro l hrank
    rw [← Place.mode_eq_none]
    by_contra htaken
    exact lt_irrefl _ (hrank l htaken)
  rw [System.perform]
  cases c with
  | rdlock l =>
    obtain ⟨k, hk⟩ := hlib.lock_enabled .read (hidle l hallowed)
    exact ⟨_, congrArg (Option.map _) hk⟩
  | wrlock l =>
    obtain ⟨k, hk⟩ := hlib.lock_enabled .write (hidle l hallowed)
    exact ⟨_, congrArg (Option.map _) hk⟩
  | rdunlock l | wrunlock l =>
    obtain ⟨k, hk⟩ := hlib.unlock_enabled (Place.eq_has hallowed (hsleeps l))
    exact ⟨_, congrArg (Option.map _) hk⟩
  | use l | change l => exact ⟨_, rfl⟩

end System

/-! ## Every run

The threads keep to the discipline in every state, and a thread that sleeps has only locks
below the one it waits for. -/

section Inv

variable {T L σ : Type} [DecidableEq T] [DecidableEq L] [Fintype L] {lib : Rwlock T σ}

/-- What holds in every state of threads that keep to the discipline. -/
structure System.Inv (lib : Rwlock T σ) (rank : L → ℕ) (s : System T L σ) : Prop where
  /-- Who writes is alone. -/
  exclusive : ∀ l, lib.Exclusive (s.lock l)
  /-- What a thread has yet to do keeps to the discipline. -/
  follows : ∀ t, Follows rank (s.modes lib t) (s.rest t)
  /-- Who waits for a lock has only locks of lower ranks. -/
  ordered : ∀ t l l', (s.place lib l t).sleeps = true → l' ≠ l → s.modes lib t l' ≠ none →
    rank l' < rank l

variable (hlib : lib.Documented) {rank : L → ℕ} {s s' : System T L σ} {t u : T} {l : L}

include hlib

omit [DecidableEq T] [Fintype L] in
/-- Threads that keep to the discipline from their beginning on. -/
theorem System.inv_initial {programs : T → List (Step L)}
    (h : ∀ t, Follows rank noLock (programs t)) : (System.initial lib programs).Inv lib rank where
  exclusive l t u _ ht := by
    rw [System.initial, hlib.initial_idle] at ht
    cases ht
  follows t := by
    have hmodes : (System.initial lib programs).modes lib t = noLock := by
      funext l
      rw [System.modes, System.place, System.initial, hlib.initial_idle]
      rfl
    rw [hmodes]
    exact h t
  ordered t l l' ht := by
    rw [System.place, System.initial, hlib.initial_idle] at ht
    cases ht

section Perform

variable {c : Step L} {rest : List (Step L)} {lock : L → σ}

omit [DecidableEq T] [Fintype L] in
/-- Who writes is still alone after a step. -/
theorem System.Inv.exclusive_perform (h : s.Inv lib rank)
    (hlock : s.perform lib t c = some lock) : ∀ l, lib.Exclusive (lock l) := by
  rw [System.perform] at hlock
  cases he : c.event t with
  | none =>
    rw [he] at hlock
    obtain rfl := Option.some.inj hlock
    exact h.exclusive
  | some e =>
    rw [he] at hlock
    obtain ⟨k, hk, rfl⟩ := Option.map_eq_some_iff.mp hlock
    exact exclusive_update hlib hk h.exclusive

omit [Fintype L] in
/-- What is left to do keeps to the discipline: for the thread of the step because the
step did, for the others because they have the locks they had. -/
theorem System.Inv.follows_perform (h : s.Inv lib rank) (hrest : s.rest t = c :: rest)
    (hlock : s.perform lib t c = some lock) (u : T) :
    Follows rank (System.modes lib { rest := Function.update s.rest t rest, lock } u)
      (Function.update s.rest t rest u) := by
  obtain ⟨hframe, -, hafter⟩ := perform_spec hlib hlock
  obtain ⟨-, hfollows⟩ : Follows rank (s.modes lib t) (c :: rest) := hrest ▸ h.follows t
  by_cases hut : u = t
  · subst hut
    have hmodes : System.modes lib { rest := Function.update s.rest u rest, lock } u =
        c.after (s.modes lib u) := hafter
    rw [hmodes, Function.update_self]
    exact hfollows
  · have hmodes : System.modes lib { rest := Function.update s.rest t rest, lock } u =
        s.modes lib u := funext fun l => congrArg Place.mode (hframe l u hut)
    rw [hmodes, Function.update_of_ne hut]
    exact h.follows u

omit [DecidableEq T] [Fintype L] in
/-- A thread that sleeps after a step of its own waits for the lock of this step, and
has only locks of lower ranks. -/
theorem System.Inv.ordered_perform (h : s.Inv lib rank) (hrest : s.rest t = c :: rest)
    (hsleeps : ∀ l, (s.place lib l t).sleeps = false)
    (hlock : s.perform lib t c = some lock) {l' : L}
    (hl : (lib.place (lock l) t).sleeps = true) (hne : l' ≠ l)
    (hl' : (lib.place (lock l') t).mode ≠ none) : rank l' < rank l := by
  obtain ⟨-, hother, hafter⟩ := perform_spec hlib hlock
  obtain ⟨hallowed, -⟩ : Follows rank (s.modes lib t) (c :: rest) := hrest ▸ h.follows t
  obtain rfl : l = c.lock := by
    by_contra hlc
    rw [hother l hlc] at hl
    exact Bool.false_ne_true ((hsleeps l).symm.trans hl)
  have hmode : s.modes lib t l' ≠ none := by rwa [hother l' hne] at hl'
  obtain ⟨m, hm⟩ := Place.eq_waits hl
  have hmodec := congrFun hafter c.lock
  rw [hm] at hmodec
  cases c with
  | rdlock l | wrlock l => exact hallowed l' hmode
  | rdunlock l | wrunlock l =>
    rw [Step.after, Step.lock, Function.update_self] at hmodec
    cases hmodec
  | use l | change l =>
    obtain rfl := Option.some.inj hlock
    exact absurd (hl.symm.trans (hsleeps l)) (by decide)

end Perform

/-- The invariant behind a step of a program. -/
theorem System.Inv.run (h : s.Inv lib rank) (hstep : s.step lib (.run t) = some s') :
    s'.Inv lib rank := by
  obtain ⟨c, rest, lock, hrest, hsleeps, hlock, rfl⟩ := System.run_cases hstep
  rw [System.not_sleeps_iff] at hsleeps
  refine ⟨h.exclusive_perform hlib hlock, h.follows_perform hlib hrest hlock,
    fun u l l' hu hl hl' => ?_⟩
  by_cases hut : u = t
  · subst hut
    exact h.ordered_perform hlib hrest hsleeps hlock hu hl hl'
  · -- the step is another thread's, and leaves this one where it is
    obtain ⟨hframe, -, -⟩ := perform_spec hlib hlock
    have hplace : ∀ l, lib.place (lock l) u = s.place lib l u := fun l => hframe l u hut
    rw [System.place, hplace] at hu
    rw [System.modes, System.place, hplace] at hl'
    exact h.ordered u l l' hu hl hl'

omit [DecidableEq T] [Fintype L] in
/-- A thread whose call returns stays in its modes. -/
theorem grant_modes {k : σ} (hk : lib.step (s.lock l) (.grant t) = some k) (u : T) (l' : L) :
    (lib.place (Function.update s.lock l k l') u).mode = s.modes lib u l' := by
  by_cases hut : u = t
  · subst hut
    by_cases hl : l' = l
    · subst hl
      obtain ⟨m, hbefore, hafter⟩ := hlib.grant_place hk
      rw [Function.update_self, hafter, System.modes, System.place, hbefore]
      rfl
    · rw [Function.update_of_ne hl]
      rfl
  · exact congrArg Place.mode (frame_update hlib hk l' u hut)

omit [DecidableEq T] [Fintype L] in
/-- A thread whose call returns does not sleep in it any more. -/
theorem grant_sleeps {k : σ} (hk : lib.step (s.lock l) (.grant t) = some k) {u : T} {l' : L}
    (hu : (lib.place (Function.update s.lock l k l') u).sleeps = true) :
    (s.place lib l' u).sleeps = true := by
  by_cases hut : u = t
  · subst hut
    by_cases hl : l' = l
    · subst hl
      obtain ⟨m, -, hafter⟩ := hlib.grant_place hk
      rw [Function.update_self, hafter] at hu
      cases hu
    · rwa [Function.update_of_ne hl] at hu
  · rwa [frame_update hlib hk l' u hut] at hu

/-- The invariant behind a call that returns. -/
theorem System.Inv.grant (h : s.Inv lib rank) (hstep : s.step lib (.grant l t) = some s') :
    s'.Inv lib rank := by
  obtain ⟨k, hk, rfl⟩ := System.grant_cases hstep
  have hmodes : ∀ u, System.modes lib { s with lock := Function.update s.lock l k } u =
      s.modes lib u := fun u => funext fun l' => grant_modes hlib hk u l'
  refine ⟨exclusive_update hlib hk h.exclusive, fun u => ?_, fun u l₁ l₂ hu hl hl₂ => ?_⟩
  · rw [hmodes]
    exact h.follows u
  · rw [hmodes] at hl₂
    exact h.ordered u l₁ l₂ (grant_sleeps hlib hk hu) hl hl₂

/-- What one move keeps. -/
theorem System.inv_step (s : System T L σ) (e : Move T L) (s' : System T L σ)
    (hstep : s.step lib e = some s') (h : s.Inv lib rank) : s'.Inv lib rank := by
  cases e with
  | run t => exact h.run hlib hstep
  | grant l t => exact h.grant hlib hstep

/-- What every run keeps: threads whose programs keep to the discipline are never in a state
outside of the invariant. -/
theorem System.inv_run {programs : T → List (Step L)} (h : ∀ t, Follows rank noLock (programs t))
    {moves : List (Move T L)} (hrun : (System.initial lib programs).run lib moves = some s) :
    s.Inv lib rank :=
  Invariant.run (System.inv_step hlib) moves hrun (System.inv_initial hlib h)

omit hlib

omit [DecidableEq T] [Fintype L] in
/-- Nobody uses or changes what another thread is about to change. -/
theorem System.Inv.alone (h : s.Inv lib rank) (ht : s.Next lib t (.change l)) {c : Step L}
    (hc : c = .use l ∨ c = .change l) (hu : s.Next lib u c) : t = u := by
  by_contra htu
  obtain ⟨hsleeps, rest, hrest⟩ := ht
  obtain ⟨hsleeps', rest', hrest'⟩ := hu
  rw [System.not_sleeps_iff] at hsleeps hsleeps'
  have hfollows : Follows rank (s.modes lib t) (.change l :: rest) := hrest ▸ h.follows t
  have hfollows' : Follows rank (s.modes lib u) (c :: rest') := hrest' ▸ h.follows u
  have hwrites : lib.place (s.lock l) t = .has .write := Place.eq_has hfollows.1 (hsleeps l)
  have hmode : s.modes lib u l ≠ none := by
    rcases hc with rfl | rfl
    · exact hfollows'.1
    · rw [hfollows'.1]
      exact Option.some_ne_none _
  obtain ⟨m, hm⟩ := Option.ne_none_iff_exists'.mp hmode
  have hholds : lib.place (s.lock l) u = .has m := Place.eq_has hm (hsleeps' l)
  have hnot := h.exclusive l t u htu hwrites
  rw [hholds] at hnot
  cases hnot

end Inv

/-! ## The way to the end

Each move takes away from the work that is left, and as long as there is work a move is
possible. So the threads can get to their ends, whatever they have done before. -/

section Drain

variable {T L σ : Type} [DecidableEq T] [Fintype T] [DecidableEq L] [Fintype L]
  {lib : Rwlock T σ} {rank : L → ℕ} {s s' : System T L σ} {t : T} {l : L}

/-- The steps that are left. -/
def System.stepsLeft (s : System T L σ) : ℤ := total (fun steps => 2 * (steps.length : ℤ)) s.rest

/-- The calls that threads sleep in. -/
def System.sleeping (lib : Rwlock T σ) (s : System T L σ) : ℤ :=
  total (fun k => count Place.sleeps (lib.place k)) s.lock

/-- What is left to do: two moves for each step, and one for each call that a thread sleeps
in. -/
def System.work (lib : Rwlock T σ) (s : System T L σ) : ℕ := (s.stepsLeft + s.sleeping lib).toNat

omit [DecidableEq T] [DecidableEq L] [Fintype L] in
theorem System.stepsLeft_nonneg : 0 ≤ s.stepsLeft := total_nonneg fun steps => by omega

omit [DecidableEq T] [DecidableEq L] in
theorem System.sleeping_nonneg : 0 ≤ s.sleeping lib := total_nonneg fun _ => count_nonneg

theorem toInt_le_one (b : Bool) : b.toInt ≤ 1 := by cases b <;> decide

/-- The threads that sleep in a lock, when one thread moves. -/
theorem count_sleeps {k k' : σ} (h : ∀ u, u ≠ t → lib.place k' u = lib.place k u) :
    count Place.sleeps (lib.place k') = count Place.sleeps (lib.place k) -
      (lib.place k t).sleeps.toInt + (lib.place k' t).sleeps.toInt := by
  rw [← count_update]
  refine count_congr fun u => ?_
  by_cases hu : u = t
  · rw [hu, Function.update_self]
  · rw [Function.update_of_ne hu, h u hu]

variable (hlib : lib.Documented)

include hlib

/-- A step is work done, even if its thread has to sleep. -/
theorem work_run (hstep : s.step lib (.run t) = some s') : s'.work lib < s.work lib := by
  obtain ⟨c, rest, lock, hrest, hsleeps, hlock, rfl⟩ := System.run_cases hstep
  rw [System.not_sleeps_iff] at hsleeps
  obtain ⟨hframe, hother, -⟩ := perform_spec hlib hlock
  -- a call that is made is two units of work less, and it puts one thread to sleep at
  -- most
  have hsteps : total (fun steps : List (Step L) => 2 * (steps.length : ℤ))
      (Function.update s.rest t rest) = s.stepsLeft - 2 := by
    rw [total_update, hrest, List.length_cons, System.stepsLeft]
    omega
  have hsleeping : total (fun k => count Place.sleeps (lib.place k)) lock ≤ s.sleeping lib + 1 := by
    have hsame : lock = Function.update lock c.lock (lock c.lock) := (Function.update_eq_self ..).symm
    have hcongr : total (fun k => count Place.sleeps (lib.place k)) lock =
        total (fun k => count Place.sleeps (lib.place k))
          (Function.update s.lock c.lock (lock c.lock)) := by
      refine Finset.sum_congr rfl fun l _ => ?_
      by_cases hl : l = c.lock
      · rw [hl, Function.update_self]
      · rw [Function.update_of_ne hl]
        refine count_congr fun u => congrArg Place.sleeps ?_
        by_cases hu : u = t
        · rw [hu]
          exact hother l hl
        · exact hframe l u hu
    have hle := toInt_le_one (lib.place (lock c.lock) t).sleeps
    have hnot : (lib.place (s.lock c.lock) t).sleeps.toInt = 0 := by
      rw [show (lib.place (s.lock c.lock) t).sleeps = false from hsleeps c.lock]
      rfl
    rw [hcongr, total_update, count_sleeps (hframe c.lock), System.sleeping]
    omega
  have hleft : 0 ≤ total (fun steps : List (Step L) => 2 * (steps.length : ℤ))
      (Function.update s.rest t rest) := total_nonneg fun steps => by omega
  have hnonneg : 0 ≤ s.sleeping lib := System.sleeping_nonneg
  change (total _ (Function.update s.rest t rest) + total _ lock).toNat <
    (s.stepsLeft + s.sleeping lib).toNat
  omega

/-- A call that returns is work done. -/
theorem work_grant (hstep : s.step lib (.grant l t) = some s') : s'.work lib < s.work lib := by
  obtain ⟨k, hk, rfl⟩ := System.grant_cases hstep
  obtain ⟨m, hbefore, hafter⟩ := hlib.grant_place hk
  have hsleeping : total (fun k => count Place.sleeps (lib.place k)) (Function.update s.lock l k) =
      s.sleeping lib - 1 := by
    have hone : (Place.waits m).sleeps.toInt = 1 := rfl
    have hzero : (Place.has m).sleeps.toInt = 0 := rfl
    rw [total_update, count_sleeps (t := t) fun u hu => hlib.frame hk hu, hbefore, hafter,
      System.sleeping]
    omega
  have hnonneg : 0 ≤ total (fun k => count Place.sleeps (lib.place k))
      (Function.update s.lock l k) := total_nonneg fun _ => count_nonneg
  have hsteps : 0 ≤ s.stepsLeft := System.stepsLeft_nonneg
  change (s.stepsLeft + total _ (Function.update s.lock l k)).toNat <
    (s.stepsLeft + s.sleeping lib).toNat
  omega

/-- A thread that is awake and has steps left makes its step. -/
theorem exists_progress_awake (h : s.Inv lib rank) {u : T} (hu : s.rest u ≠ [])
    (hawake : ¬ s.Sleeps lib u) :
    ∃ e s', s.step lib e = some s' ∧ s'.Inv lib rank ∧ s'.work lib < s.work lib := by
  obtain ⟨c, rest, hrest⟩ := List.exists_cons_of_ne_nil hu
  have hfollows : Follows rank (s.modes lib u) (c :: rest) := hrest ▸ h.follows u
  obtain ⟨lock, hlock⟩ := exists_perform hlib hfollows.1 hawake
  have hstep : s.step lib (.run u) =
      some { rest := Function.update s.rest u rest, lock } := by
    rw [System.step, hrest]
    dsimp only
    rw [if_neg hawake, hlock]
    rfl
  exact ⟨_, _, hstep, h.run hlib hstep, work_run hlib hstep⟩

omit hlib [DecidableEq T] [Fintype T] [Fintype L] in
/-- Threads that have a lock have steps left, to give it back. -/
theorem System.Inv.rest_ne_nil (h : s.Inv lib rank) {u : T} {l : L}
    (hu : (s.place lib l u).holds = true) : s.rest u ≠ [] := by
  intro hnil
  have hfollows := h.follows u
  rw [hnil] at hfollows
  exact Place.mode_of_holds hu (hfollows l)

omit hlib [DecidableEq T] in
/-- If all threads with steps left sleep, then one of them sleeps in a lock that nobody
has: a thread that had it would sleep too, in a lock of a higher rank, and so on. -/
theorem exists_free_lock (h : s.Inv lib rank) (hall : ∀ u, s.rest u ≠ [] → s.Sleeps lib u)
    {t : T} (ht : s.rest t ≠ []) :
    ∃ u l, (s.place lib l u).sleeps = true ∧ ∀ v, (s.place lib l v).holds = false := by
  classical
  -- the lock that each thread sleeps in
  let waitsFor : T → Option L := fun u => if hu : s.Sleeps lib u then some hu.choose else none
  have hwaits : ∀ {u l}, waitsFor u = some l → (s.place lib l u).sleeps = true := by
    intro u l hul
    obtain ⟨hu, hl⟩ := Option.dite_none_right_eq_some.mp hul
    rw [← Option.some.inj hl]
    exact hu.choose_spec
  have hwaiting : ∀ u, s.rest u ≠ [] → waitsFor u ≠ none := fun u hu => by
    rw [Option.ne_none_iff_exists']
    exact ⟨_, dif_pos (hall u hu)⟩
  have hother : ∀ {u l l'}, waitsFor u = some l → (s.place lib l' u).holds = true → l' ≠ l := by
    rintro u l _ hul hl' rfl
    have hsleeps := hwaits hul
    rw [Place.not_sleeps_of_holds hl'] at hsleeps
    cases hsleeps
  have horder : ∀ v l l', waitsFor v = some l → (s.place lib l' v).holds = true →
      rank l' < rank l := fun v l l' hv hl' =>
    h.ordered v l l' (hwaits hv) (hother hv hl') (Place.mode_of_holds hl')
  obtain ⟨u, l, hul, hholders⟩ := exists_unblocked rank horder (hwaiting t ht)
  refine ⟨u, l, hwaits hul, fun v => ?_⟩
  by_contra hv
  rw [Bool.not_eq_false] at hv
  exact hwaiting v (h.rest_ne_nil hv) (hholders v hv)

/-- As long as a thread has steps left there is a move that gets the threads closer to their
ends: a thread that is awake makes its step, and if all sleep, then one of them sleeps in a
lock that nobody has, and some call of that lock returns. -/
theorem exists_progress (h : s.Inv lib rank) (hleft : ¬ ∀ t, s.rest t = []) :
    ∃ e s', s.step lib e = some s' ∧ s'.Inv lib rank ∧ s'.work lib < s.work lib := by
  rw [not_forall] at hleft
  obtain ⟨t, ht⟩ := hleft
  by_cases hawake : ∃ u, s.rest u ≠ [] ∧ ¬ s.Sleeps lib u
  · obtain ⟨u, hu, hnot⟩ := hawake
    exact exists_progress_awake hlib h hu hnot
  · have hall : ∀ u, s.rest u ≠ [] → s.Sleeps lib u := fun u hu => by
      by_contra hnot
      exact hawake ⟨u, hu, hnot⟩
    obtain ⟨u, l, hul, hfree⟩ := exists_free_lock h hall ht
    obtain ⟨m, hm⟩ := Place.eq_waits hul
    obtain ⟨w, k, hk⟩ := hlib.granted hfree hm
    have hstep : s.step lib (.grant l w) =
        some { s with lock := Function.update s.lock l k } := by
      rw [System.step, hk]
      rfl
    exact ⟨_, _, hstep, h.grant hlib hstep, work_grant hlib hstep⟩

/-- From every state of the invariant the threads can go on to the ends of their programs,
and nobody then has a lock or waits for one. -/
theorem System.Inv.drain (h : s.Inv lib rank) :
    ∃ moves s', s.run lib moves = some s' ∧ (∀ t, s'.rest t = []) ∧
      ∀ l t, s'.place lib l t = .idle := by
  obtain ⟨moves, s', hrun, hs', hend⟩ :=
    Threads.drain (System.work lib) (fun s hs hleft => exists_progress hlib hs hleft) s h
  refine ⟨moves, s', hrun, hend, fun l t => ?_⟩
  have hfollows := hs'.follows t
  rw [hend t] at hfollows
  exact Place.mode_eq_none.mp (hfollows l)

end Drain

/-! ## A lock that prefers readers

The assumptions can be met: the places of the threads are themselves a lock, if a reader
gets it when nobody writes, whoever waits. -/

section Preferring

variable {T : Type} [DecidableEq T] [Fintype T]

/-- A thread may have the lock in this mode, where the other threads are. -/
def Available (s : T → Place) (t : T) : Mode → Prop
  | .read => ∀ u, u ≠ t → s u ≠ .has .write
  | .write => ∀ u, u ≠ t → (s u).holds = false

instance (s : T → Place) (t : T) (m : Mode) : Decidable (Available s t m) :=
  match m with
  | .read => inferInstanceAs (Decidable (∀ _, _))
  | .write => inferInstanceAs (Decidable (∀ _, _))

/-- Where the threads are behind an event. -/
def preferReadersStep (s : T → Place) : Event T → Option (T → Place)
  | .lock t m => some (Function.update s t (if Available s t m then .has m else .waits m))
  | .unlock t => some (Function.update s t .idle)
  | .grant t =>
    match s t with
    | .waits m => if Available s t m then some (Function.update s t (.has m)) else none
    | _ => none

/-- A read-write lock that knows where its threads are. -/
def preferReaders : Rwlock T (T → Place) where
  initial := fun _ => .idle
  place := fun s => s
  step := preferReadersStep

/-- The call of a thread that sleeps returns if the lock is available. -/
theorem preferReaders_grant {s s' : T → Place} {t : T}
    (h : preferReadersStep s (.grant t) = some s') :
    ∃ m, s t = .waits m ∧ Available s t m ∧ s' = Function.update s t (.has m) := by
  rw [preferReadersStep] at h
  split at h
  · rename_i m hm
    obtain ⟨havailable, h⟩ := Option.ite_none_right_eq_some.mp h
    exact ⟨m, hm, havailable, (Option.some.inj h).symm⟩
  · cases h

/-- To a thread that has the lock behind its event the lock was available. -/
theorem preferReaders_available {s s' : T → Place} {e : Event T} {m : Mode}
    (h : preferReadersStep s e = some s') (hm : s' e.thread = .has m) : Available s e.thread m := by
  cases e with
  | lock t m' =>
    obtain rfl := Option.some.inj h
    rw [Event.thread, Function.update_self] at hm
    split at hm
    · cases hm
      assumption
    · cases hm
  | unlock t =>
    obtain rfl := Option.some.inj h
    rw [Event.thread, Function.update_self] at hm
    cases hm
  | grant t =>
    obtain ⟨m', -, havailable, rfl⟩ := preferReaders_grant h
    rw [Event.thread, Function.update_self] at hm
    cases hm
    exact havailable

/-- It behaves as documented. -/
theorem preferReaders_documented : (preferReaders (T := T)).Documented where
  initial_idle _ := rfl
  frame {s e s' u} h hu := by
    cases e with
    | lock t m | unlock t =>
      obtain rfl := Option.some.inj h
      exact Function.update_of_ne hu ..
    | grant t =>
      obtain ⟨m, -, -, rfl⟩ := preferReaders_grant h
      exact Function.update_of_ne hu ..
  lock_place {s t m s'} h := by
    obtain rfl := Option.some.inj h
    by_cases havailable : Available s t m
    · exact .inl ((Function.update_self ..).trans (if_pos havailable))
    · exact .inr ((Function.update_self ..).trans (if_neg havailable))
  lock_enabled m _ := ⟨_, rfl⟩
  unlock_place {s t s'} h := by
    obtain rfl := Option.some.inj h
    exact Function.update_self ..
  unlock_enabled _ := ⟨_, rfl⟩
  grant_place {s t s'} h := by
    obtain ⟨m, hm, -, rfl⟩ := preferReaders_grant h
    exact ⟨m, hm, Function.update_self ..⟩
  write_alone h hm := .inr (preferReaders_available h hm)
  read_unwritten h hm := .inr (preferReaders_available h hm)
  granted {s t m} hfree hm := by
    have havailable : Available s t m := by
      cases m with
      | read =>
        intro u _ hu
        have hnot : (s u).holds = false := hfree u
        rw [hu] at hnot
        cases hnot
      | write => exact fun u _ => hfree u
    have hwaits : s t = .waits m := hm
    refine ⟨t, Function.update s t (.has m), ?_⟩
    change preferReadersStep s (.grant t) = _
    rw [preferReadersStep, hwaits]
    exact if_pos havailable

end Preferring

end Rwlocks

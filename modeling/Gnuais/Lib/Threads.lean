import Mathlib.Algebra.BigOperators.Group.Finset.Basic
import Mathlib.Algebra.Order.BigOperators.Group.Finset
import Mathlib.Data.Finset.Max

/-!
# Threads that share locks

A finite set of threads, each at some place of its program, and the runs of the system
they make up: a run is a list of events, and `step` says which of them are possible.

* `total`, `count` — a weight of the places summed over the threads, how many threads are
  at a place, and how that changes when a thread moves.
* `Invariant.run`, `drain` — what one step keeps a run keeps, and a system that can always
  get closer to its end can get there.
* `exists_unblocked` — where locks are taken in the order of their ranks, somebody
  waits for a lock that nobody who waits has.
-/

namespace Threads

/-! ## Counting

Invariants of locks speak about how many threads are where. A thread that moves changes
two counts by one. -/

section Count

variable {T P : Type} [Fintype T]

/-- The sum of the weights of the places. -/
def total (weight : P → ℤ) (place : T → P) : ℤ := ∑ t, weight (place t)

/-- The number of threads whose place satisfies `p`. -/
def count (p : P → Bool) (place : T → P) : ℤ := total (fun x => (p x).toInt) place

variable {weight : P → ℤ} {p : P → Bool} {place : T → P}

/-- Weights that are not negative have such a sum. -/
theorem total_nonneg (h : ∀ x, 0 ≤ weight x) : 0 ≤ total weight place :=
  Finset.sum_nonneg fun t _ => h (place t)

theorem toInt_nonneg (b : Bool) : 0 ≤ b.toInt := by cases b <;> decide

/-- A number of threads is not negative. -/
theorem count_nonneg : 0 ≤ count p place := total_nonneg fun _ => toInt_nonneg _

/-- Threads that are counted by the same test. -/
theorem count_congr {place' : T → P} (h : ∀ t, p (place' t) = p (place t)) :
    count p place' = count p place :=
  Finset.sum_congr rfl fun t _ => congrArg Bool.toInt (h t)

variable [DecidableEq T]

/-- A thread that moves takes the weight of its old place away and brings its new one's. -/
theorem total_update (t : T) (a : P) :
    total weight (Function.update place t a) = total weight place - weight (place t) + weight a := by
  have hrest : ∑ u ∈ Finset.univ.erase t, weight (Function.update place t a u) =
      ∑ u ∈ Finset.univ.erase t, weight (place u) := by
    refine Finset.sum_congr rfl fun u hu => ?_
    rw [Function.update_of_ne (Finset.ne_of_mem_erase hu)]
  rw [total, total, ← Finset.add_sum_erase _ _ (Finset.mem_univ t), hrest,
    ← Finset.add_sum_erase _ (fun u => weight (place u)) (Finset.mem_univ t),
    Function.update_self]
  omega

/-- A thread that moves leaves one count and enters another. -/
theorem count_update (t : T) (a : P) :
    count p (Function.update place t a) = count p place - (p (place t)).toInt + (p a).toInt :=
  total_update t a

end Count

/-! ## Runs

Both rules speak about any step function. -/

section Runs

variable {σ ε : Type} {step : σ → ε → Option σ} {I : σ → Prop}

/-- What every step keeps, every run keeps. -/
theorem Invariant.run (hstep : ∀ s e s', step s e = some s' → I s → I s') :
    ∀ (events : List ε) {s s' : σ}, events.foldlM step s = some s' → I s → I s' := by
  intro events
  induction events with
  | nil =>
    intro s s' h hs
    obtain rfl := Option.some.inj h
    exact hs
  | cons e events ih =>
    intro s s' h hs
    rw [List.foldlM_cons] at h
    obtain ⟨s₁, hfirst, hrest⟩ := Option.bind_eq_some_iff.mp h
    exact ih hrest (hstep s e s₁ hfirst hs)

/-- Where each state that is not at its end has a step closer to it, each state has a run
to its end. -/
theorem drain {ended : σ → Prop} (μ : σ → ℕ)
    (hstep : ∀ s, I s → ¬ ended s → ∃ e s', step s e = some s' ∧ I s' ∧ μ s' < μ s) (s : σ)
    (hs : I s) : ∃ (events : List ε) (s' : σ),
      events.foldlM step s = some s' ∧ I s' ∧ ended s' := by
  induction hn : μ s using Nat.strong_induction_on generalizing s with
  | _ n ih =>
    by_cases hend : ended s
    · exact ⟨[], s, rfl, hs, hend⟩
    · obtain ⟨e, s₁, hfirst, hs₁, hlt⟩ := hstep s hs hend
      obtain ⟨events, s', hrest, hs', hend'⟩ := ih (μ s₁) (hn ▸ hlt) s₁ hs₁ rfl
      refine ⟨e :: events, s', ?_, hs', hend'⟩
      rw [List.foldlM_cons, hfirst]
      exact hrest

end Runs

/-! ## Waiting

Take a thread that waits for a lock of the highest rank of all: whoever has this lock
waits for none, since it would be of a higher rank still. -/

/-- Among threads that wait for a lock of a higher rank than those they have, one waits
for a lock that no waiting thread has. -/
theorem exists_unblocked {T L : Type} [Fintype T] {waits : T → Option L} {holds : T → L → Prop}
    (rank : L → ℕ) (horder : ∀ t l l', waits t = some l → holds t l' → rank l' < rank l) {t : T}
    (ht : waits t ≠ none) : ∃ u l, waits u = some l ∧ ∀ v, holds v l → waits v = none := by
  classical
  obtain ⟨u, hu, hmax⟩ := Finset.exists_max_image (Finset.univ.filter fun v => waits v ≠ none)
    (fun v => ((waits v).map rank).getD 0) ⟨t, Finset.mem_filter.mpr ⟨Finset.mem_univ t, ht⟩⟩
  obtain ⟨l, hl⟩ := Option.ne_none_iff_exists'.mp (Finset.mem_filter.mp hu).2
  refine ⟨u, l, hl, fun v hv => ?_⟩
  by_contra hwait
  obtain ⟨l', hl'⟩ := Option.ne_none_iff_exists'.mp hwait
  have hle := hmax v (Finset.mem_filter.mpr ⟨Finset.mem_univ v, hwait⟩)
  have hlt := horder v l' l hl' hv
  rw [hl, hl', Option.map_some, Option.map_some, Option.getD_some, Option.getD_some] at hle
  omega

end Threads

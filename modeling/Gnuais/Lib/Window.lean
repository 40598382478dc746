import Mathlib.Data.List.Basic
import Mathlib.Order.Basic

/-!
# A window that slides along a stream

A machine that looks at the last `l` elements of its input, and answers before it
takes the next one. Its state is the window; before the stream starts it is full
of some element `z`.

* `before` — the window at a position of the stream.
* `slide` — the window with the next element in it and the oldest one out.
* `outputs` — the answers of the machine, and `outputs_eq`, that they are those
  to the windows of the stream.
-/

namespace Window

variable {α β : Type}

/-- The `l` elements before position `n`. -/
def before (z : α) (l : ℕ) (xs : List α) (n : ℕ) : List α := ((List.replicate l z ++ xs).drop n).take l

/-- The next element comes in at the end, the oldest one goes out. -/
def slide (w : List α) (x : α) : List α := (w ++ [x]).drop 1

/-- The answers to the windows that come up when `xs` slides in. -/
def outputs (g : List α → β) : List α → List α → List β
  | _, [] => []
  | w, x :: xs => g w :: outputs g (slide w x) xs

/-- The window keeps its length. -/
@[simp] theorem length_slide (w : List α) (x : α) : (slide w x).length = w.length := by
  rw [slide, List.length_drop, List.length_append, List.length_singleton, Nat.add_sub_cancel]

/-- Before the stream starts it is full of `z`. -/
@[simp] theorem before_zero (z : α) (l : ℕ) (xs : List α) : before z l xs 0 = List.replicate l z := by
  rw [before, List.drop_zero]
  exact List.take_left' List.length_replicate

/-- The window at any position has its length. -/
theorem length_before (z : α) (l : ℕ) {xs : List α} {n : ℕ} (h : n ≤ xs.length) :
    (before z l xs n).length = l := by
  rw [before, List.length_take, List.length_drop, List.length_append, List.length_replicate]
  omega

/-- The next element of the stream takes the window to the next position. -/
theorem slide_before (z : α) (l : ℕ) {xs : List α} {n : ℕ} {x : α} (h : xs[n]? = some x) :
    slide (before z l xs n) x = before z l xs (n + 1) := by
  obtain ⟨hlt, -⟩ := List.getElem?_eq_some_iff.mp h
  have hlast : (List.replicate l z ++ xs)[n + l]? = some x := by
    rw [List.getElem?_append_right (by rw [List.length_replicate]; omega), List.length_replicate,
      Nat.add_sub_cancel, h]
  have hlonger : ((List.replicate l z ++ xs).drop n).take l ++ [x] =
      ((List.replicate l z ++ xs).drop n).take (l + 1) := by
    rw [List.take_add_one, List.getElem?_drop, hlast, Option.toList_some]
  rw [slide, before, hlonger, List.drop_take, List.drop_drop, Nat.add_sub_cancel, before]

/-- The answers to two stretches. -/
theorem outputs_append (g : List α → β) (xs ys : List α) : ∀ w : List α,
    outputs g w (xs ++ ys) = outputs g w xs ++ outputs g (xs.foldl slide w) ys := by
  induction xs with
  | nil => exact fun w => rfl
  | cons x xs ih =>
    intro w
    rw [List.cons_append, outputs, outputs, ih, List.foldl_cons, List.cons_append]

/-- The answers to the rest of a stream are those to its windows. The induction is
on the rest; `done` is what has slid in. -/
theorem outputs_before (g : List α → β) (z : α) (l : ℕ) (rest : List α) : ∀ done : List α,
    outputs g (before z l (done ++ rest) done.length) rest =
      (List.range' done.length rest.length).map fun n => g (before z l (done ++ rest) n) := by
  induction rest with
  | nil => exact fun done => rfl
  | cons x rest ih =>
    intro done
    have hx : (done ++ x :: rest)[done.length]? = some x := by
      rw [List.getElem?_append_right (Nat.le_refl _), Nat.sub_self]
      rfl
    have hnext := ih (done ++ [x])
    rw [List.append_assoc, List.singleton_append, List.length_append, List.length_singleton]
      at hnext
    rw [outputs, slide_before z l hx, hnext, List.length_cons, List.range'_succ, List.map_cons]

/-- The answers to a stream from its start. -/
theorem outputs_eq (g : List α → β) (z : α) (l : ℕ) (xs : List α) :
    outputs g (List.replicate l z) xs =
      (List.range xs.length).map fun n => g (before z l xs n) := by
  have h := outputs_before g z l xs []
  rwa [List.nil_append, List.length_nil, before_zero, ← List.range_eq_range'] at h

end Window

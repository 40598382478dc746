import Mathlib.Data.List.Basic
import Mathlib.Data.List.TakeWhile
import Mathlib.Order.Basic

/-!
# Fixed-size buffers with checked access

A C array of `n` elements is a `Vector α n`. A program that touches it runs in
`Option`: a read (`buf[i]?`) or a write (`wr`) outside the array is `none`, so
a run that returns a value has stayed inside every array it touched.

* `wr` / `storeAt` — one checked store, and a run of consecutive ones.
* `cString` — what a `%s` conversion reads: the elements before the first
  terminator, and a fault when the array holds none.
* `snprintf` — the truncating formatted store, with C's would-have-written
  return value.
-/

namespace Buffer

variable {α : Type} {n : ℕ}

/-- A checked store: `none` when the index is outside the array. -/
def wr (buf : Vector α n) (i : ℕ) (x : α) : Option (Vector α n) :=
  if h : i < n then some (buf.set i x h) else none

/-- Consecutive stores from `off` on. -/
def storeAt (buf : Vector α n) (off : ℕ) : List α → Option (Vector α n)
  | [] => some buf
  | x :: xs => (wr buf off x).bind fun buf' => storeAt buf' (off + 1) xs

/-- The pure effect of `storeAt` when it stays inside the array. -/
def splice (buf : Vector α n) (off : ℕ) : List α → Vector α n
  | [] => buf
  | x :: xs => splice (buf.setIfInBounds off x) (off + 1) xs

/-- Accesses that all succeed. -/
theorem mapM_some {β : Type} {f : α → Option β} {g : α → β} {xs : List α}
    (hf : ∀ x ∈ xs, f x = some (g x)) : xs.mapM f = some (xs.map g) := by
  induction xs with
  | nil => rfl
  | cons x xs ih =>
    rw [List.mapM_cons, hf x (List.mem_cons_self ..), ih fun y hy => hf y (List.mem_cons_of_mem _ hy)]
    rfl

/-- A loop whose accesses all succeed. -/
theorem foldlM_some {β : Type} {f : β → α → Option β} {g : β → α → β} {xs : List α}
    (hf : ∀ acc, ∀ x ∈ xs, f acc x = some (g acc x)) (acc : β) :
    xs.foldlM f acc = some (xs.foldl g acc) := by
  induction xs generalizing acc with
  | nil => rfl
  | cons x xs ih =>
    rw [List.foldlM_cons, hf acc x (List.mem_cons_self ..), List.foldl_cons]
    exact ih (fun acc y hy => hf acc y (List.mem_cons_of_mem _ hy)) (g acc x)

/-- What cannot fail does not decide whether a run succeeds. -/
theorem isSome_bind_of_total {β γ : Type} {f : β → Option γ} (hf : ∀ x, (f x).isSome)
    (x : Option β) : (x.bind f).isSome ↔ x.isSome := by
  cases x with
  | none => exact Iff.rfl
  | some x => exact ⟨fun _ => rfl, fun _ => hf x⟩

/-- A store inside the array succeeds. -/
@[simp] theorem wr_eq (buf : Vector α n) {i : ℕ} (x : α) (h : i < n) :
    wr buf i x = some (buf.setIfInBounds i x) := by
  simp only [wr, dif_pos h]
  congr 1
  ext j hj
  simp [Vector.getElem_setIfInBounds, Vector.getElem_set]

/-- A store outside the array fails. -/
theorem wr_eq_none (buf : Vector α n) {i : ℕ} (x : α) (h : n ≤ i) : wr buf i x = none := by
  rw [wr, dif_neg (Nat.not_lt.mpr h)]

/-- Consecutive stores that fit in the array succeed. -/
theorem storeAt_eq (xs : List α) :
    ∀ (buf : Vector α n) (off : ℕ), off + xs.length ≤ n →
      storeAt buf off xs = some (splice buf off xs) := by
  induction xs with
  | nil => intro buf off _; rfl
  | cons x xs ih =>
    intro buf off h
    rw [List.length_cons] at h
    rw [storeAt, wr_eq buf x (by omega), Option.bind_some, ih _ _ (by omega), splice]

/-- What `splice` leaves at each index. -/
theorem getElem?_splice (xs : List α) :
    ∀ (buf : Vector α n) (off i : ℕ), off + xs.length ≤ n →
      (splice buf off xs)[i]? =
        if off ≤ i ∧ i < off + xs.length then xs[i - off]? else buf[i]? := by
  induction xs with
  | nil =>
    intro buf off i _
    rw [splice, if_neg (by simp only [List.length_nil]; omega)]
  | cons x xs ih =>
    intro buf off i h
    rw [List.length_cons] at h
    rw [splice, ih _ _ _ (by omega), List.length_cons]
    rcases Nat.lt_trichotomy i off with hlt | heq | hgt
    · rw [if_neg (by omega), if_neg (by omega), Vector.getElem?_setIfInBounds, if_neg (by omega)]
    · subst heq
      rw [if_neg (by omega), if_pos (by omega), Vector.getElem?_setIfInBounds, if_pos rfl,
        if_pos (by omega), Nat.sub_self]
      rfl
    · obtain ⟨j, rfl⟩ : ∃ j, i = off + 1 + j := ⟨i - (off + 1), by omega⟩
      rw [show off + 1 + j - off = j + 1 by omega, show off + 1 + j - (off + 1) = j by omega,
        List.getElem?_cons_succ]
      by_cases hj : j < xs.length
      · rw [if_pos (by omega), if_pos (by omega)]
      · rw [if_neg (by omega), if_neg (by omega), Vector.getElem?_setIfInBounds, if_neg (by omega)]

/-- A stretch of consecutive stores is one longer stretch. -/
theorem splice_append (xs ys : List α) :
    ∀ (buf : Vector α n) (off : ℕ),
      splice buf off (xs ++ ys) = splice (splice buf off xs) (off + xs.length) ys := by
  induction xs with
  | nil => intro buf off; rfl
  | cons x xs ih =>
    intro buf off
    rw [List.cons_append, splice, ih, splice, List.length_cons,
      show off + 1 + xs.length = off + (xs.length + 1) by omega]

/-- Arrays with the same elements are equal. -/
theorem ext_getElem? {buf buf' : Vector α n} (h : ∀ i : ℕ, buf[i]? = buf'[i]?) : buf = buf' := by
  ext i hi
  have := h i
  rwa [Vector.getElem?_eq_getElem hi, Vector.getElem?_eq_getElem hi, Option.some.injEq] at this

/-- Storing in front of a stored stretch makes one stretch. -/
theorem splice_splice_left (buf : Vector α n) (xs ys : List α) (off : ℕ)
    (h : off + xs.length + ys.length ≤ n) :
    splice (splice buf (off + xs.length) ys) off xs = splice buf off (xs ++ ys) := by
  apply ext_getElem?
  intro i
  rw [getElem?_splice xs _ _ _ (by omega), getElem?_splice ys _ _ _ (by omega),
    getElem?_splice (xs ++ ys) _ _ _ (by rw [List.length_append]; omega), List.length_append]
  by_cases hlow : off ≤ i ∧ i < off + xs.length
  · rw [if_pos hlow, if_pos (by omega), List.getElem?_append_left (by omega)]
  · rw [if_neg hlow]
    by_cases hhigh : off + xs.length ≤ i ∧ i < off + xs.length + ys.length
    · rw [if_pos hhigh, if_pos (by omega), List.getElem?_append_right (by omega)]
      congr 1
      omega
    · rw [if_neg hhigh, if_neg (by omega)]

/-- Overwriting one element of a stored stretch. -/
theorem setIfInBounds_splice (buf : Vector α n) (xs : List α) (off i : ℕ) (x : α)
    (h : off + xs.length ≤ n) (hi : i < xs.length) :
    (splice buf off xs).setIfInBounds (off + i) x = splice buf off (xs.set i x) := by
  apply ext_getElem?
  intro j
  rw [Vector.getElem?_setIfInBounds, getElem?_splice xs _ _ _ h,
    getElem?_splice (xs.set i x) _ _ _ (by rw [List.length_set]; exact h), List.length_set]
  by_cases hj : off + i = j
  · subst hj
    rw [if_pos rfl, if_pos (by omega), if_pos (by omega), Nat.add_sub_cancel_left,
      List.getElem?_set_self hi]
  · rw [if_neg hj]
    by_cases hin : off ≤ j ∧ j < off + xs.length
    · rw [if_pos hin, if_pos hin, List.getElem?_set_ne (by omega)]
    · rw [if_neg hin, if_neg hin]

/-- What stores from the front leave, as a list. -/
theorem toList_splice_zero (buf : Vector α n) (xs : List α) (h : xs.length ≤ n) :
    (splice buf 0 xs).toList = xs ++ buf.toList.drop xs.length := by
  apply List.ext_getElem?
  intro i
  rw [Vector.getElem?_toList, getElem?_splice xs _ _ _ (by omega)]
  by_cases hi : i < xs.length
  · rw [if_pos (by omega), List.getElem?_append_left hi, Nat.sub_zero]
  · rw [if_neg (by omega), List.getElem?_append_right (by omega), List.getElem?_drop,
      Vector.getElem?_toList]
    congr 1
    omega

/-- The stored elements are read back as a block. -/
theorem take_splice (xs : List α) (buf : Vector α n) (h : xs.length ≤ n) :
    (splice buf 0 xs).toList.take xs.length = xs := by
  rw [toList_splice_zero buf xs h, List.take_left]

/-! ## What an array holds

`HoldsAt` speaks about a stretch of an array and leaves the rest open, so it survives
stores elsewhere. -/

/-- The array holds the elements `xs` from index `pos` on. -/
def HoldsAt (buf : Vector α n) (pos : ℕ) (xs : List α) : Prop :=
  ∀ i < xs.length, buf[pos + i]? = xs[i]?

/-- The first part of a stretch. -/
theorem HoldsAt.left {buf : Vector α n} {pos : ℕ} {xs ys : List α}
    (h : HoldsAt buf pos (xs ++ ys)) : HoldsAt buf pos xs := by
  intro i hi
  rw [h i (by rw [List.length_append]; omega), List.getElem?_append_left hi]

/-- The second part, behind it. -/
theorem HoldsAt.right {buf : Vector α n} {pos : ℕ} {xs ys : List α}
    (h : HoldsAt buf pos (xs ++ ys)) : HoldsAt buf (pos + xs.length) ys := by
  intro i hi
  rw [Nat.add_assoc, h _ (by rw [List.length_append]; omega),
    List.getElem?_append_right (Nat.le_add_right _ _), Nat.add_sub_cancel_left]

/-- Of the elements an array holds it holds those from some index on. -/
theorem HoldsAt.drop {buf : Vector α n} {pos : ℕ} {xs : List α} (h : HoldsAt buf pos xs) (k : ℕ) :
    HoldsAt buf (pos + k) (xs.drop k) := by
  intro i hi
  rw [List.length_drop] at hi
  rw [Nat.add_assoc, h (k + i) (by omega), List.getElem?_drop]

/-- What an array holds is read from its index on. -/
theorem HoldsAt.drop_toList {buf : Vector α n} {pos : ℕ} {xs : List α} (h : HoldsAt buf pos xs) :
    buf.toList.drop pos = xs ++ buf.toList.drop (pos + xs.length) := by
  apply List.ext_getElem?
  intro i
  rw [List.getElem?_drop, Vector.getElem?_toList]
  by_cases hi : i < xs.length
  · rw [List.getElem?_append_left hi, h i hi]
  · rw [List.getElem?_append_right (by omega), List.getElem?_drop, Vector.getElem?_toList]
    congr 1
    omega

/-- Stores right behind a stretch make it longer. -/
theorem HoldsAt.splice {buf : Vector α n} {pos : ℕ} {xs : List α} (h : HoldsAt buf pos xs)
    (ys : List α) (hfit : pos + xs.length + ys.length ≤ n) :
    HoldsAt (splice buf (pos + xs.length) ys) pos (xs ++ ys) := by
  intro i hi
  rw [List.length_append] at hi
  rw [getElem?_splice _ _ _ _ hfit]
  by_cases hlow : i < xs.length
  · rw [if_neg (by omega), h i hlow, List.getElem?_append_left hlow]
  · rw [if_pos (by omega), List.getElem?_append_right (by omega)]
    congr 1
    omega

/-- What was stored is there. -/
theorem holdsAt_splice (buf : Vector α n) (xs : List α) (h : xs.length ≤ n) :
    HoldsAt (splice buf 0 xs) 0 xs := by
  intro i hi
  rw [getElem?_splice _ _ _ _ (by omega), if_pos (by omega)]
  congr 1
  omega

/-- What an array holds from the front is the front of its list. -/
theorem HoldsAt.toList_eq {buf : Vector α n} {xs : List α} (h : HoldsAt buf 0 xs) :
    buf.toList = xs ++ buf.toList.drop xs.length := by
  have hdrop := h.drop_toList
  rwa [List.drop_zero, Nat.zero_add] at hdrop

/-! ## Terminated strings

A string is what stands in front of the first zero. Where there is none, whoever reads it
leaves the array, which is `none`. -/

/-- The characters of a terminated string: those before the first zero. `none`
when the list ends without a terminator. -/
def cStringList : List UInt8 → Option (List UInt8)
  | [] => none
  | c :: cs => if c = 0 then some [] else (cStringList cs).map (c :: ·)

/-- What a `%s` conversion reads from a character array. -/
def cString (buf : Vector UInt8 n) : Option (List UInt8) := cStringList buf.toList

/-- A stretch that holds a terminator decides the string. -/
theorem cStringList_append {s : List UInt8} (hs : 0 ∈ s) (rest : List UInt8) :
    cStringList (s ++ rest) = some (s.takeWhile (· ≠ 0)) := by
  induction s with
  | nil => cases hs
  | cons c cs ih =>
    rw [List.cons_append, cStringList]
    by_cases hc : c = 0
    · rw [if_pos hc, List.takeWhile_cons_of_neg (by simpa using hc)]
    · have htail : 0 ∈ cs := (List.mem_cons.mp hs).resolve_left (Ne.symm hc)
      rw [if_neg hc, ih htail, List.takeWhile_cons_of_pos (by simpa using hc)]
      rfl

/-- The characters in front of the terminator. -/
theorem takeWhile_terminated (s : List UInt8) :
    (s ++ [0]).takeWhile (· ≠ 0) = s.takeWhile (· ≠ 0) := by
  induction s with
  | nil => rfl
  | cons c cs ih =>
    rw [List.cons_append, List.takeWhile_cons, List.takeWhile_cons, ih]

/-- The string that a terminated stretch at the front of an array is. -/
theorem cString_splice (buf : Vector UInt8 n) (s : List UInt8) (h : s.length + 1 ≤ n) :
    cString (splice buf 0 (s ++ [0])) = some (s.takeWhile (· ≠ 0)) := by
  rw [cString, toList_splice_zero buf _ (by rw [List.length_append]; exact h),
    cStringList_append (by simp), takeWhile_terminated]

/-- The string at the front of an array, up to its first terminator. -/
theorem cString_holdsAt_cut {buf : Vector UInt8 n} {s : List UInt8}
    (h : HoldsAt buf 0 (s ++ [0])) : cString buf = some (s.takeWhile (· ≠ 0)) := by
  rw [cString, h.toList_eq, cStringList_append (by simp), takeWhile_terminated]

/-- Without a zero in it a list is all in front of the first one. -/
theorem takeWhile_ne_zero {s : List UInt8} (hs : 0 ∉ s) : s.takeWhile (· ≠ 0) = s :=
  List.takeWhile_eq_self_iff.mpr fun _ hc => decide_eq_true fun h => hs (h ▸ hc)

/-- The string an array holds when a terminator follows it. -/
theorem cString_holdsAt {buf : Vector UInt8 n} {s : List UInt8} (h : HoldsAt buf 0 (s ++ [0]))
    (hs : 0 ∉ s) : cString buf = some s := by
  rw [cString_holdsAt_cut h, takeWhile_ne_zero hs]

/-- `snprintf` into an array of `n` characters: at most `n - 1` characters and
a terminator are stored, and the length the whole text would have had is
returned. -/
def snprintf (buf : Vector UInt8 n) (text : List UInt8) : Vector UInt8 n × ℕ :=
  (splice buf 0 ((text.take (n - 1) ++ [0]).take n), text.length)

/-- What is returned does not depend on the array. -/
theorem snprintf_snd (buf : Vector UInt8 n) (text : List UInt8) :
    (snprintf buf text).2 = text.length := rfl

/-- The characters a `write` of `len` bytes takes from an array: a fault when
it would run past the end. -/
def readOut (buf : Vector UInt8 n) (len : ℕ) : Option (List UInt8) :=
  if len ≤ n then some (buf.toList.take len) else none

/-- Writing out what `snprintf` reported gives the text back when it fits. -/
theorem readOut_snprintf (buf : Vector UInt8 n) (text : List UInt8) (h : text.length < n) :
    readOut (snprintf buf text).1 (snprintf buf text).2 = some text := by
  have hfull : text.take (n - 1) = text := List.take_of_length_le (by omega)
  have hstored : (text ++ [0]).take n = text ++ [0] :=
    List.take_of_length_le (by rw [List.length_append, List.length_singleton]; omega)
  have htake := take_splice (text ++ [0]) buf (by
    rw [List.length_append, List.length_singleton]; omega)
  simp only [snprintf, readOut, hfull, hstored]
  rw [if_pos (by omega)]
  have hcut := congrArg (List.take text.length) htake
  rw [List.take_take, List.length_append, Nat.min_eq_left (by omega), List.take_left] at hcut
  rw [hcut]

/-- What `snprintf` stores: the front of the text, and a terminator. -/
theorem holdsAt_snprintf (buf : Vector UInt8 n) (text : List UInt8) (hn : 0 < n) :
    HoldsAt (snprintf buf text).1 0 (text.take (n - 1) ++ [0]) := by
  have hlen : (text.take (n - 1) ++ [0]).length ≤ n := by
    rw [List.length_append, List.length_take, List.length_singleton]
    omega
  rw [snprintf, List.take_of_length_le hlen]
  exact holdsAt_splice buf _ hlen

/-- A terminator in the last place changes no string. -/
theorem HoldsAt.set_last {buf : Vector UInt8 n} {s : List UInt8} (h : HoldsAt buf 0 (s ++ [0]))
    (hs : s.length < n) : HoldsAt (buf.setIfInBounds (n - 1) 0) 0 (s ++ [0]) := by
  intro i hi
  rw [List.length_append, List.length_singleton] at hi
  rw [Nat.zero_add, Vector.getElem?_setIfInBounds]
  split
  · rename_i hlast
    rw [if_pos (by omega), List.getElem?_append_right (by omega),
      show i - s.length = 0 by omega]
    rfl
  · have hold := h i (by rw [List.length_append, List.length_singleton]; omega)
    rwa [Nat.zero_add] at hold

/-- A `write` of what an array holds. -/
theorem HoldsAt.readOut_eq {buf : Vector UInt8 n} {xs : List UInt8} (h : HoldsAt buf 0 xs)
    {len : ℕ} (hlen : len ≤ xs.length) (hn : len ≤ n) : readOut buf len = some (xs.take len) := by
  rw [readOut, if_pos hn, h.toList_eq, List.take_append_of_le_length hlen]

end Buffer

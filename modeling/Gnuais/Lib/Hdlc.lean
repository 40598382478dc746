import Mathlib.Data.List.Induction
import Mathlib.Data.List.Chain
import Mathlib.Order.Basic

/-!
# Bit stuffing

The transparency layer of a bit-synchronous link. A sender inserts a zero after
every five consecutive ones, so that six ones in a row occur in a flag and
nowhere else; a receiver removes the bit that follows five consecutive ones.

Both sides are driven by one counter, the number of ones since the last zero or
inserted bit. `nextOnes` advances it, `Clean` says a stream never shows a sixth
one. The facts a receiver rests on:

* `unstuffFrom_stuffFrom` / `clean_stuffFrom` — stuffing is undone, and the
  stuffed stream never looks like a flag;
* `Clean.not_infix` / `Clean.suffix_iff` — `Clean` is the absence of six
  consecutive ones, and the counter is the number of ones the stream ends in;
* `Between.unique` — a stream determines what lies between its last two flags.
-/

namespace Hdlc

/-- The counter after one more bit: it restarts at a zero and after the bit
that follows five ones. -/
def nextOnes (n : ℕ) (b : Bool) : ℕ :=
  if n = 5 then 0 else if b then n + 1 else 0

/-- The counter after a stream. -/
def onesFrom (n : ℕ) (raw : List Bool) : ℕ := raw.foldl nextOnes n

/-- The stream with the bit after every five consecutive ones removed. -/
def unstuffFrom : ℕ → List Bool → List Bool
  | _, [] => []
  | n, b :: l => (if n = 5 then [] else [b]) ++ unstuffFrom (nextOnes n b) l

/-- The stream with a zero inserted after every five consecutive ones. -/
def stuffFrom : ℕ → List Bool → List Bool
  | _, [] => []
  | n, b :: l =>
    if b && n == 4 then true :: false :: stuffFrom 0 l
    else b :: stuffFrom (nextOnes n b) l

/-- Stuffing from the start of a frame. -/
def stuff (l : List Bool) : List Bool := stuffFrom 0 l

/-- Unstuffing from the start of a frame. -/
def unstuff (raw : List Bool) : List Bool := unstuffFrom 0 raw

/-- No sixth one: the bit after five ones is always a zero. -/
def Clean : ℕ → List Bool → Prop
  | _, [] => True
  | n, b :: l => (n = 5 → b = false) ∧ Clean (nextOnes n b) l

/-- `k` alternating bits that start with `b`. -/
def alternate (b : Bool) : ℕ → List Bool
  | 0 => []
  | k + 1 => b :: alternate (!b) k

/-- The flag `01111110`. -/
def flag : List Bool := [false, true, true, true, true, true, true, false]

/-- No two neighbouring bits are equal. -/
abbrev Alternating (l : List Bool) : Prop := l.IsChain (· ≠ ·)

/-- The counter is five at most. -/
theorem nextOnes_le {n : ℕ} (h : n ≤ 5) (b : Bool) : nextOnes n b ≤ 5 := by
  unfold nextOnes
  split
  · omega
  · split <;> omega

/-- And stays so. -/
theorem onesFrom_le {n : ℕ} (h : n ≤ 5) (raw : List Bool) : onesFrom n raw ≤ 5 := by
  induction raw generalizing n with
  | nil => exact h
  | cons b l ih => exact ih (nextOnes_le h b)

@[simp] theorem onesFrom_nil (n : ℕ) : onesFrom n [] = n := rfl

@[simp] theorem onesFrom_cons (n : ℕ) (b : Bool) (l : List Bool) :
    onesFrom n (b :: l) = onesFrom (nextOnes n b) l := rfl

/-- The counter after two stretches. -/
theorem onesFrom_append (n : ℕ) (l l' : List Bool) :
    onesFrom n (l ++ l') = onesFrom (onesFrom n l) l' := List.foldl_append

/-- One bit more. -/
@[simp] theorem onesFrom_concat (n : ℕ) (l : List Bool) (b : Bool) :
    onesFrom n (l ++ [b]) = nextOnes (onesFrom n l) b := onesFrom_append n l [b]

/-- Unstuffing two stretches: the second starts with the counter of the first. -/
theorem unstuffFrom_append (l l' : List Bool) (n : ℕ) :
    unstuffFrom n (l ++ l') = unstuffFrom n l ++ unstuffFrom (onesFrom n l) l' := by
  induction l generalizing n with
  | nil => rfl
  | cons b l ih => rw [List.cons_append, unstuffFrom, ih, unstuffFrom, List.append_assoc,
      onesFrom_cons]

theorem unstuffFrom_concat (l : List Bool) (b : Bool) (n : ℕ) :
    unstuffFrom n (l ++ [b]) = unstuffFrom n l ++ if onesFrom n l = 5 then [] else [b] := by
  rw [unstuffFrom_append, unstuffFrom, unstuffFrom, List.append_nil]

/-- Unstuffing only removes bits. -/
theorem length_unstuffFrom_le (l : List Bool) (n : ℕ) : (unstuffFrom n l).length ≤ l.length := by
  induction l generalizing n with
  | nil => exact le_refl 0
  | cons b l ih =>
    have hrest := ih (nextOnes n b)
    rw [unstuffFrom, List.length_append, List.length_cons]
    split
    · rw [List.length_nil]
      omega
    · rw [List.length_singleton]
      omega

/-- A clean stream in two parts. -/
theorem clean_append (l l' : List Bool) (n : ℕ) :
    Clean n (l ++ l') ↔ Clean n l ∧ Clean (onesFrom n l) l' := by
  induction l generalizing n with
  | nil => simp [Clean]
  | cons b l ih => rw [List.cons_append, Clean, ih, Clean, onesFrom_cons, and_assoc]

/-- One bit more. -/
theorem clean_concat (l : List Bool) (b : Bool) (n : ℕ) :
    Clean n (l ++ [b]) ↔ Clean n l ∧ (onesFrom n l = 5 → b = false) := by
  simp [clean_append, Clean]

/-! ## Stuffing is undone

The induction is on the data, from any counter below five. A bit that brings the counter
to five is followed by the zero, and the counter is zero again. -/

/-- What stuffing one bit does to the counter, the two ways it can go. -/
theorem stuffFrom_cases {n : ℕ} (h : n ≤ 4) (b : Bool) :
    (b = true ∧ n = 4) ∨ (nextOnes n b ≤ 4 ∧ (b && n == 4) = false) := by
  cases b with
  | false => exact .inr ⟨by simp [nextOnes], rfl⟩
  | true =>
    rcases Nat.lt_or_ge n 4 with hlt | hge
    · refine .inr ⟨?_, by simp; omega⟩
      rw [nextOnes, if_neg (by omega), if_pos rfl]
      omega
    · exact .inl ⟨rfl, by omega⟩

/-- What was stuffed comes back. -/
theorem unstuffFrom_stuffFrom {n : ℕ} (h : n ≤ 4) (l : List Bool) :
    unstuffFrom n (stuffFrom n l) = l := by
  induction l generalizing n with
  | nil => rfl
  | cons b l ih =>
    rcases stuffFrom_cases h b with ⟨rfl, rfl⟩ | ⟨hn, hb⟩
    · have hstep := ih (Nat.zero_le 4)
      simp [stuffFrom, unstuffFrom, nextOnes, hstep]
    · rw [stuffFrom, hb, if_neg Bool.false_ne_true, unstuffFrom, if_neg (by omega), ih hn]
      rfl

/-- A stuffed stream never shows a sixth one. -/
theorem clean_stuffFrom {n : ℕ} (h : n ≤ 4) (l : List Bool) : Clean n (stuffFrom n l) := by
  induction l generalizing n with
  | nil => trivial
  | cons b l ih =>
    rcases stuffFrom_cases h b with ⟨rfl, rfl⟩ | ⟨hn, hb⟩
    · have hstep := ih (Nat.zero_le 4)
      simp [stuffFrom, Clean, nextOnes, hstep]
    · rw [stuffFrom, hb, if_neg Bool.false_ne_true, Clean]
      exact ⟨fun h5 => by omega, ih hn⟩

/-- A stuffed stream never ends on five ones: the inserted zero is part of it. -/
theorem onesFrom_stuffFrom {n : ℕ} (h : n ≤ 4) (l : List Bool) :
    onesFrom n (stuffFrom n l) ≤ 4 := by
  induction l generalizing n with
  | nil => exact h
  | cons b l ih =>
    rcases stuffFrom_cases h b with ⟨rfl, rfl⟩ | ⟨hn, hb⟩
    · have hstep := ih (Nat.zero_le 4)
      simpa [stuffFrom, nextOnes] using hstep
    · rw [stuffFrom, hb, if_neg Bool.false_ne_true, onesFrom_cons]
      exact ih hn

/-! ## The counter and the flag

These say what the counter means for the stream itself, without going through it from the
front. -/

/-- In a clean stream the counter is the number of ones the stream ends in. -/
theorem Clean.suffix_iff {l : List Bool} (hl : Clean 0 l) {k : ℕ} (hk : k ≤ 5) :
    List.replicate k true <:+ l ↔ k ≤ onesFrom 0 l := by
  induction l using List.reverseRecOn generalizing k with
  | nil => simp
  | append_singleton l b ih =>
    obtain ⟨hclean, hlast⟩ := (clean_concat l b 0).mp hl
    rw [onesFrom_concat]
    cases k with
    | zero => simp
    | succ k =>
      have hsplit : List.replicate (k + 1) true <:+ l ++ [b] ↔
          b = true ∧ List.replicate k true <:+ l := by
        rw [List.replicate_succ', List.suffix_concat_iff]
        constructor
        · rintro (hnil | ⟨t, ht, hsuf⟩)
          · simp at hnil
          · obtain ⟨rfl, hb⟩ := List.append_inj' ht rfl
            exact ⟨(List.singleton_inj.mp hb).symm, hsuf⟩
        · rintro ⟨rfl, hsuf⟩
          exact .inr ⟨_, rfl, hsuf⟩
      rw [hsplit, ih hclean (by omega)]
      cases b with
      | false => simp [nextOnes]
      | true =>
        -- a sixth one is excluded, so the counter advances
        have hne : onesFrom 0 l ≠ 5 := fun h5 => Bool.noConfusion (hlast h5)
        rw [nextOnes, if_neg hne, if_pos rfl]
        simp

/-- A clean stream contains no six consecutive ones. -/
theorem Clean.not_infix {l : List Bool} (hl : Clean 0 l) :
    ¬ List.replicate 6 true <:+: l := by
  induction l using List.reverseRecOn with
  | nil => simp
  | append_singleton l b ih =>
    obtain ⟨hclean, hlast⟩ := (clean_concat l b 0).mp hl
    rw [List.infix_concat_iff, not_or]
    refine ⟨fun hsuf => ?_, ih hclean⟩
    rw [show List.replicate 6 true = List.replicate 5 true ++ [true] from rfl,
      List.suffix_concat_iff] at hsuf
    rcases hsuf with hnil | ⟨t, ht, hsuf⟩
    · simp at hnil
    · obtain ⟨rfl, hb⟩ := List.append_inj' ht rfl
      obtain rfl := List.singleton_inj.mp hb
      have h5 := (hclean.suffix_iff (le_refl 5)).mp hsuf
      have hle : onesFrom 0 l ≤ 5 := onesFrom_le (by omega) l
      exact Bool.noConfusion (hlast (by omega))

/-! ## Two flags delimit one frame

A receiver that joins in the middle of a stream sees flags and what is between them. It
has no choice where a frame begins. -/

/-- The stream ends in a flag, some bits without six ones in a row, and a
flag. -/
def Between (stream raw : List Bool) : Prop :=
  ∃ pre, stream = pre ++ flag ++ raw ++ flag ∧ ¬ List.replicate 6 true <:+: raw

/-- The last seven bits of a flag have six ones in a row. -/
theorem suffix_of_flag {pre l : List Bool} {x : List Bool} (h : l ++ x = pre ++ flag)
    (hlong : 7 ≤ x.length) : List.replicate 6 true <:+: x := by
  obtain ⟨y, hy⟩ : ∃ y, x = y ++ [true, true, true, true, true, true, false] := by
    have hsuf : [true, true, true, true, true, true, false] <:+ l ++ x :=
      ⟨pre ++ [false], by rw [h, List.append_assoc]; rfl⟩
    rcases List.suffix_or_suffix_of_suffix hsuf (List.suffix_append l x) with ⟨y, hy⟩ | ⟨y, hy⟩
    · exact ⟨y, hy.symm⟩
    · refine ⟨[], ?_⟩
      have hlen := congrArg List.length hy
      rw [List.length_append] at hlen
      simp only [List.length_cons, List.length_nil] at hlen
      obtain rfl : y = [] := List.eq_nil_of_length_eq_zero (by omega)
      exact hy
  exact ⟨y, [false], by rw [hy, List.append_assoc]; rfl⟩

/-- Two copies of the flag do not overlap in less than seven bits. -/
theorem flag_no_overlap {pre pre' x : List Bool} (h : pre' ++ flag = pre ++ flag ++ x)
    (hshort : x.length < 7) : x = [] := by
  have hrev := congrArg List.reverse h
  rw [List.reverse_append, List.reverse_append, List.reverse_append,
    show flag.reverse = flag from rfl] at hrev
  have hbit : (flag ++ pre'.reverse)[x.reverse.length]? =
      (x.reverse ++ (flag ++ pre.reverse))[x.reverse.length]? := by rw [hrev]
  rw [List.getElem?_append_right (le_refl _), Nat.sub_self, List.length_reverse,
    List.getElem?_append_left (by rw [show flag.length = 8 from rfl]; omega)] at hbit
  -- inside the first copy there are ones where the second copy has a zero
  have hones : ∀ k < 7, k ≠ 0 → flag[k]? = some true := by decide
  have hzero : (flag ++ pre.reverse)[0]? = some false := rfl
  by_contra hne
  rw [hzero, hones _ hshort fun h0 => hne (List.eq_nil_of_length_eq_zero h0)] at hbit
  cases hbit

/-- The first of the two flags stands in one place only: from an earlier one on there
would be six ones in a row. -/
theorem between_pre_le {pre pre' raw raw' x : List Bool} (hraw : raw = x ++ raw')
    (h : pre' ++ flag = pre ++ flag ++ x) (hno : ¬ List.replicate 6 true <:+: raw) :
    raw = raw' := by
  rcases Nat.lt_or_ge x.length 7 with hshort | hlong
  · rw [hraw, flag_no_overlap h hshort, List.nil_append]
  · refine absurd ?_ hno
    rw [hraw]
    exact (suffix_of_flag h.symm hlong).trans (List.prefix_append x raw').isInfix

/-- A stream determines what is between its last two flags. -/
theorem Between.unique {stream raw raw' : List Bool} (h : Between stream raw)
    (h' : Between stream raw') : raw = raw' := by
  obtain ⟨pre, heq, hno⟩ := h
  obtain ⟨pre', heq', hno'⟩ := h'
  have hsame := List.append_cancel_right (heq.symm.trans heq')
  rcases List.append_eq_append_iff.mp hsame with ⟨x, hx, hraw⟩ | ⟨x, hx, hraw⟩
  · exact between_pre_le hraw hx hno
  · exact (between_pre_le hraw hx hno').symm

end Hdlc

import Mathlib.Data.List.Induction
import Mathlib.Order.Basic
import Mathlib.Algebra.Ring.Parity

/-!
# Cyclic redundancy checks, bit by bit

The shift-register form of a reflected CRC over a polynomial `poly` of degree
`w`: a bit is compared with the low end of the register, the register moves
down, and `poly` is added when the two differ. Everything follows from two
facts about one step.

* The step is linear over exclusive or (`step_xor`), so a run is (`run_xor`).
* When the top bit of `poly` is set, the bit that entered the comparison can
  be read off the top of the result. `run_top_zero` turns this into: a run
  that leaves the top of the register clear has been fed the register's own
  bits.

So `w` bits drive a register to zero exactly when they are its own bits
(`run_eq_zero_iff`), and to the residue of an all-ones difference exactly when
they are its complement (`residue_iff`): a receiver that runs the register
over data and check sequence together need not compare anything.
-/

namespace Crc

variable {w : ℕ}

/-- One bit through the register. -/
def step (poly crc : BitVec w) (b : Bool) : BitVec w :=
  if crc.getLsbD 0 ^^ b then (crc >>> 1) ^^^ poly else crc >>> 1

/-- A bit sequence through the register. -/
def run (poly crc : BitVec w) (bs : List Bool) : BitVec w := bs.foldl (step poly) crc

/-- The bits of a register, in the order they leave it. -/
def bits (c : BitVec w) : List Bool := (List.range w).map c.getLsbD

/-- The register value a run reaches when data and check sequence differ in
every bit. -/
def residue (poly : BitVec w) : BitVec w := run poly 0 (List.replicate w true)

variable (poly : BitVec w)

/-- There are `w` of them. -/
@[simp] theorem length_bits (c : BitVec w) : (bits c).length = w := by
  rw [bits, List.length_map, List.length_range]

/-- The lowest comes first. -/
theorem getElem?_bits (c : BitVec w) (i : ℕ) :
    (bits c)[i]? = if i < w then some (c.getLsbD i) else none := by
  rw [bits, List.getElem?_map]
  by_cases hi : i < w
  · rw [if_pos hi, List.getElem?_range hi, Option.map_some]
  · rw [if_neg hi, List.getElem?_eq_none (by rw [List.length_range]; omega), Option.map_none]

@[simp] theorem run_nil (crc : BitVec w) : run poly crc [] = crc := rfl

@[simp] theorem run_cons (crc : BitVec w) (b : Bool) (bs : List Bool) :
    run poly crc (b :: bs) = run poly (step poly crc b) bs := rfl

/-- Two stretches of bits. -/
theorem run_append (crc : BitVec w) (bs bs' : List Bool) :
    run poly crc (bs ++ bs') = run poly (run poly crc bs) bs' := List.foldl_append

/-! ## Linearity

Whether `poly` is added depends on one exclusive or, so a step of a sum is the sum of two
steps. -/

/-- One step. -/
theorem step_xor (c c' : BitVec w) (b b' : Bool) :
    step poly (c ^^^ c') (b ^^ b') = step poly c b ^^^ step poly c' b' := by
  have hlow : ((c ^^^ c').getLsbD 0 ^^ (b ^^ b')) =
      ((c.getLsbD 0 ^^ b) ^^ (c'.getLsbD 0 ^^ b')) := by
    rw [BitVec.getLsbD_xor]
    cases c.getLsbD 0 <;> cases c'.getLsbD 0 <;> cases b <;> cases b' <;> rfl
  simp only [step, hlow, BitVec.ushiftRight_xor_distrib]
  cases c.getLsbD 0 ^^ b <;> cases c'.getLsbD 0 ^^ b'
  · rfl
  · exact BitVec.xor_assoc _ _ _
  · simp only [Bool.xor_false, if_true, Bool.false_eq_true, if_false]
    rw [BitVec.xor_assoc, BitVec.xor_comm (c' >>> 1), ← BitVec.xor_assoc]
  · simp only [Bool.bne_true, Bool.not_true, Bool.false_eq_true, if_false, if_true]
    rw [BitVec.xor_assoc, ← BitVec.xor_assoc poly, BitVec.xor_comm poly (c' >>> 1),
      BitVec.xor_assoc (c' >>> 1), BitVec.xor_self, BitVec.xor_zero]

/-- Any number of them. -/
theorem run_xor (bs : List Bool) :
    ∀ (bs' : List Bool) (c c' : BitVec w), bs.length = bs'.length →
      run poly (c ^^^ c') (List.zipWith xor bs bs') = run poly c bs ^^^ run poly c' bs' := by
  induction bs with
  | nil =>
    intro bs' c c' h
    obtain rfl := List.eq_nil_of_length_eq_zero h.symm
    rfl
  | cons b bs ih =>
    intro bs' c c' h
    cases bs' with
    | nil => cases h
    | cons b' bs' =>
      rw [List.zipWith_cons_cons, run_cons, step_xor, ih _ _ _ (Nat.succ.inj h)]
      rfl

/-! ## Reading the fed bits off the register

A step shifts a zero into the top and then may add `poly`, which has a one there. So the
top tells afterwards whether it was added, and with it which bit came in. -/

/-- A register fed with its own bits only shifts. -/
theorem run_own_bits (c : BitVec w) (k : ℕ) :
    run poly c ((List.range k).map c.getLsbD) = c >>> k := by
  induction k with
  | zero => simp
  | succ k ih =>
    rw [List.range_succ, List.map_append, run_append, ih]
    simp only [List.map_cons, List.map_nil, run_cons, run_nil, step]
    rw [BitVec.getLsbD_ushiftRight, Nat.add_zero, Bool.xor_self, if_neg Bool.false_ne_true,
      BitVec.shiftRight_add]

/-- Fed with all of its own bits, the register is zero. -/
theorem run_bits (c : BitVec w) : run poly c (bits c) = 0#w := by
  rw [bits, run_own_bits]
  apply BitVec.eq_of_getLsbD_eq
  intro i hi
  rw [BitVec.getLsbD_ushiftRight, BitVec.getLsbD_of_ge _ _ (by omega), BitVec.getLsbD_zero]

variable {poly}

/-- With the top bit of `poly` set, a step that leaves the top bit clear has
not added `poly`. -/
theorem step_top (hpoly : poly.getLsbD (w - 1) = true) {c : BitVec w} {b : Bool}
    (h : (step poly c b).getLsbD (w - 1) = false) :
    b = c.getLsbD 0 ∧ step poly c b = c >>> 1 := by
  have hw : 0 < w := by
    rcases Nat.eq_zero_or_pos w with hz | hpos
    · subst hz
      rw [BitVec.getLsbD_of_ge _ _ (Nat.zero_le _)] at hpoly
      cases hpoly
    · exact hpos
  have htop : (c >>> 1).getLsbD (w - 1) = false := by
    rw [BitVec.getLsbD_ushiftRight, BitVec.getLsbD_of_ge _ _ (by omega)]
  cases hfed : c.getLsbD 0 ^^ b with
  | false =>
    refine ⟨?_, by rw [step, hfed, if_neg Bool.false_ne_true]⟩
    revert hfed
    cases c.getLsbD 0 <;> cases b <;> simp
  | true =>
    rw [step, hfed, if_pos rfl, BitVec.getLsbD_xor, htop, hpoly] at h
    cases h

/-- A run that leaves the top `bs.length` bits of the register clear has been
fed the register's low bits, in order. The induction is on the last bit: the
top of the register says what it was. -/
theorem run_top_zero (hpoly : poly.getLsbD (w - 1) = true) (c : BitVec w) (bs : List Bool)
    (hlen : bs.length ≤ w)
    (htop : ∀ i, w - bs.length ≤ i → (run poly c bs).getLsbD i = false) :
    bs = (List.range bs.length).map c.getLsbD ∧ run poly c bs = c >>> bs.length := by
  induction bs using List.reverseRecOn with
  | nil => exact ⟨rfl, by simp⟩
  | append_singleton bs b ih =>
    rw [List.length_append, List.length_singleton] at hlen htop
    rw [run_append, run_cons, run_nil] at htop ⊢
    obtain ⟨hb, hstep⟩ := step_top hpoly (htop (w - 1) (by omega))
    have htop' : ∀ i, w - bs.length ≤ i → (run poly c bs).getLsbD i = false := by
      intro i hi
      have := htop (i - 1) (by omega)
      rwa [hstep, BitVec.getLsbD_ushiftRight, show 1 + (i - 1) = i by omega] at this
    obtain ⟨hbs, hrun⟩ := ih (by omega) htop'
    rw [hstep, hrun, List.length_append, List.length_singleton, ← BitVec.shiftRight_add]
    refine ⟨?_, rfl⟩
    rw [List.range_succ, List.map_append, ← hbs]
    rw [hrun, BitVec.getLsbD_ushiftRight, Nat.add_zero] at hb
    rw [hb]
    rfl

/-- `w` bits drive a register to zero exactly when they are its own bits. -/
theorem run_eq_zero_iff (hpoly : poly.getLsbD (w - 1) = true) (c : BitVec w) {bs : List Bool}
    (hlen : bs.length = w) : run poly c bs = 0#w ↔ bs = bits c := by
  constructor
  · intro h
    obtain ⟨hbs, -⟩ := run_top_zero hpoly c bs (Nat.le_of_eq hlen)
      fun i _ => by rw [h, BitVec.getLsbD_zero]
    rw [hbs, hlen]
    rfl
  · rintro rfl
    exact run_bits poly c

/-! ## The residue

The sender appends the complement of the register. The receiver goes on with the bits that
come and ends at a number that does not depend on the data. -/

/-- The zero register has no ones. -/
theorem bits_zero : bits (0#w) = List.replicate w false := by
  apply List.ext_getElem?
  intro i
  rw [getElem?_bits, List.getElem?_replicate, BitVec.getLsbD_zero]

/-- The bits of the complement differ from a register's bits everywhere. -/
theorem zipWith_xor_bits_not (c : BitVec w) :
    List.zipWith xor (bits c) (bits (~~~c)) = List.replicate w true := by
  apply List.ext_getElem?
  intro i
  rw [List.getElem?_zipWith, getElem?_bits, getElem?_bits, List.getElem?_replicate]
  by_cases hi : i < w
  · simp [hi]
  · simp only [if_neg hi]

/-- A register reaches the residue exactly when it is fed the bits of its
complement, which is what a sender appends. -/
theorem residue_iff (hpoly : poly.getLsbD (w - 1) = true) (c : BitVec w) {bs : List Bool}
    (hlen : bs.length = w) : run poly c bs = residue poly ↔ bs = bits (~~~c) := by
  have hcomp : run poly c (bits (~~~c)) = residue poly := by
    have hx := run_xor poly (bits c) (bits (~~~c)) c c (by rw [length_bits, length_bits])
    rw [zipWith_xor_bits_not, BitVec.xor_self, run_bits, BitVec.zero_xor] at hx
    exact hx.symm
  constructor
  · intro h
    -- the difference of the two inputs drives the zero register to zero
    have hx := run_xor poly bs (bits (~~~c)) c c (by rw [hlen, length_bits])
    rw [h, hcomp, BitVec.xor_self, BitVec.xor_self] at hx
    have hdiff := (run_eq_zero_iff hpoly 0#w
      (by rw [List.length_zipWith, hlen, length_bits, Nat.min_self])).mp hx
    rw [bits_zero] at hdiff
    apply List.ext_getElem (by rw [hlen, length_bits])
    intro i h₁ h₂
    have hi : (List.zipWith xor bs (bits (~~~c)))[i]? = some false := by
      rw [hdiff, List.getElem?_replicate, if_pos (by omega)]
    rw [List.getElem?_zipWith, List.getElem?_eq_getElem h₁, List.getElem?_eq_getElem h₂] at hi
    simpa using hi
  · rintro rfl
    exact hcomp

/-! ## Error patterns

An error pattern goes unnoticed exactly when it drives the zero register back to
zero (`run_error_iff`). Patterns within `w` consecutive bits do not
(`burst_ne_zero`), and neither do patterns of odd weight when `poly` has odd
weight itself (`odd_ne_zero`). -/

/-- Two inputs lead to the same register if their difference leads the zero register back. -/
theorem run_error_iff (c : BitVec w) {bs e : List Bool} (hlen : bs.length = e.length) :
    run poly c (List.zipWith xor bs e) = run poly c bs ↔ run poly 0#w e = 0#w := by
  have hx := run_xor poly bs e c 0#w hlen
  rw [BitVec.xor_zero] at hx
  rw [hx]
  constructor
  · intro h
    have hcancel := congrArg (run poly c bs ^^^ ·) h
    simpa [← BitVec.xor_assoc] using hcancel
  · intro h
    rw [h, BitVec.xor_zero]

/-- Zeros leave the zero register as it is. -/
theorem run_zero_false (n : ℕ) : run poly 0#w (List.replicate n false) = 0#w := by
  induction n with
  | zero => rfl
  | succ n ih =>
    have hstep : step poly 0#w false = 0#w := by simp [step]
    rw [List.replicate_succ, run_cons, hstep, ih]

/-- A register that is not zero does not become zero without input. -/
theorem eq_zero_of_run_false (hpoly : poly.getLsbD (w - 1) = true) {c : BitVec w} (n : ℕ)
    (h : run poly c (List.replicate n false) = 0#w) : c = 0#w := by
  induction n generalizing c with
  | zero => exact h
  | succ n ih =>
    have hstep := ih h
    obtain ⟨hlow, hshift⟩ := step_top hpoly (by rw [hstep, BitVec.getLsbD_zero])
    rw [hstep] at hshift
    apply BitVec.eq_of_getLsbD_eq
    intro i hi
    rw [BitVec.getLsbD_zero]
    cases i with
    | zero => exact hlow.symm
    | succ i =>
      have hbit := congrArg (fun x => x.getLsbD i) hshift
      simpa [Nat.add_comm] using hbit.symm

/-- The ones of a pattern are within `n` consecutive positions. -/
def Burst (n : ℕ) (e : List Bool) : Prop :=
  ∃ i, ∀ k, e[k]? = some true → i ≤ k ∧ k < i + n

/-- A pattern without ones is all zeros. -/
theorem eq_replicate_false {e : List Bool} (h : ∀ k : ℕ, e[k]? ≠ some true) :
    e = List.replicate e.length false := by
  refine List.eq_replicate_iff.mpr ⟨rfl, fun b hb => ?_⟩
  obtain ⟨k, hk⟩ := List.mem_iff_getElem?.mp hb
  cases b with
  | false => rfl
  | true => exact absurd hk (h k)

/-- A burst no longer than the register does not go unnoticed. -/
theorem burst_ne_zero (hpoly : poly.getLsbD (w - 1) = true) {e : List Bool} (hburst : Burst w e)
    (hone : true ∈ e) : run poly 0#w e ≠ 0#w := by
  obtain ⟨i, hi⟩ := hburst
  intro hrun
  have hpre : e.take i = List.replicate (e.take i).length false := by
    refine eq_replicate_false fun k hk => ?_
    rw [List.getElem?_take] at hk
    split at hk
    · rename_i hlt
      exact absurd (hi k hk).1 (Nat.not_le.mpr hlt)
    · cases hk
  have hpost : (e.drop i).drop w = List.replicate ((e.drop i).drop w).length false := by
    refine eq_replicate_false fun k hk => ?_
    rw [List.getElem?_drop, List.getElem?_drop] at hk
    have := (hi _ hk).2
    omega
  have hsplit : e = e.take i ++ ((e.drop i).take w ++ (e.drop i).drop w) := by
    rw [List.take_append_drop, List.take_append_drop]
  rw [hsplit, run_append, run_append, hpre, run_zero_false, hpost] at hrun
  have hburst := eq_zero_of_run_false hpoly _ hrun
  -- what is left is no longer than the register, so it is the bits of zero
  obtain ⟨hbits, -⟩ := run_top_zero hpoly 0#w ((e.drop i).take w) (List.length_take_le ..)
    fun j _ => by rw [hburst, BitVec.getLsbD_zero]
  have hmid : ∀ b ∈ (e.drop i).take w, b = false := by
    intro b hb
    rw [hbits, List.mem_map] at hb
    obtain ⟨j, -, rfl⟩ := hb
    exact BitVec.getLsbD_zero
  rw [hsplit] at hone
  rcases List.mem_append.mp hone with h | h
  · rw [hpre] at h
    cases List.eq_of_mem_replicate h
  rcases List.mem_append.mp h with h | h
  · cases hmid _ h
  · rw [hpost] at h
    cases List.eq_of_mem_replicate h

/-- Whether the number of ones is odd. -/
def parity (bs : List Bool) : Bool := bs.foldr xor false

@[simp] theorem parity_nil : parity [] = false := rfl

@[simp] theorem parity_cons (b : Bool) (bs : List Bool) : parity (b :: bs) = (b ^^ parity bs) := rfl

/-- The ones of two lists. -/
theorem parity_append (bs bs' : List Bool) : parity (bs ++ bs') = (parity bs ^^ parity bs') := by
  induction bs with
  | nil => simp
  | cons b bs ih => rw [List.cons_append, parity_cons, parity_cons, ih, Bool.xor_assoc]

/-- The ones of a difference. -/
theorem parity_zipWith (bs : List Bool) :
    ∀ bs' : List Bool, bs.length = bs'.length →
      parity (List.zipWith xor bs bs') = (parity bs ^^ parity bs') := by
  induction bs with
  | nil =>
    intro bs' h
    obtain rfl := List.eq_nil_of_length_eq_zero h.symm
    rfl
  | cons b bs ih =>
    intro bs' h
    cases bs' with
    | nil => cases h
    | cons b' bs' =>
      rw [List.zipWith_cons_cons, parity_cons, parity_cons, parity_cons, ih _ (Nat.succ.inj h),
        Bool.xor_assoc, Bool.xor_assoc, Bool.xor_left_comm b' (parity bs)]

/-- It is the parity of their number. -/
theorem parity_eq_odd (bs : List Bool) : parity bs = true ↔ Odd (bs.count true) := by
  induction bs with
  | nil => simp
  | cons b bs ih =>
    cases b with
    | false => rw [parity_cons, Bool.false_xor, ih, List.count_cons_of_ne Bool.false_ne_true]
    | true =>
      rw [parity_cons, Bool.true_xor, List.count_cons_self, Nat.odd_add_one, ← ih]
      cases parity bs <;> simp

/-- The bits of a difference. -/
theorem bits_xor (c c' : BitVec w) :
    bits (c ^^^ c') = List.zipWith xor (bits c) (bits c') := by
  apply List.ext_getElem?
  intro i
  rw [List.getElem?_zipWith, getElem?_bits, getElem?_bits, getElem?_bits, BitVec.getLsbD_xor]
  by_cases hi : i < w
  · simp [hi]
  · simp only [if_neg hi]

/-- Shifting out the low bit takes it away from the ones. -/
theorem parity_shift (c : BitVec w) :
    parity (bits (c >>> 1)) = (parity (bits c) ^^ c.getLsbD 0) := by
  cases w with
  | zero => rw [BitVec.of_length_zero (x := c)]; rfl
  | succ n =>
    have hbits : bits c = c.getLsbD 0 :: (List.range n).map fun i => c.getLsbD (1 + i) := by
      rw [bits, List.range_succ_eq_map, List.map_cons, List.map_map]
      simp only [Function.comp_def, Nat.succ_eq_one_add]
    have hshift : bits (c >>> 1) = ((List.range n).map fun i => c.getLsbD (1 + i)) ++ [false] := by
      have hlast : c.getLsbD (1 + n) = false := BitVec.getLsbD_of_ge c (1 + n) (by omega)
      rw [bits, List.range_succ, List.map_append, List.map_singleton]
      rw [BitVec.getLsbD_ushiftRight, hlast]
      exact congrArg (· ++ [false]) (List.map_congr_left fun i _ => BitVec.getLsbD_ushiftRight c 1 i)
    rw [hbits, hshift, parity_append, parity_cons, parity_cons, parity_nil, Bool.xor_false,
      Bool.xor_false, Bool.xor_comm (c.getLsbD 0), Bool.xor_assoc, Bool.xor_self, Bool.xor_false]

/-- With `poly` of odd weight, a step adds the incoming bit to the parity. -/
theorem parity_step (hodd : parity (bits poly) = true) (c : BitVec w) (b : Bool) :
    parity (bits (step poly c b)) = (parity (bits c) ^^ b) := by
  have hxor : parity (bits ((c >>> 1) ^^^ poly)) = (parity (bits c) ^^ c.getLsbD 0 ^^ true) := by
    rw [bits_xor, parity_zipWith _ _ (by rw [length_bits, length_bits]), parity_shift, hodd]
  rw [step]
  split
  · rename_i hfed
    rw [hxor]
    revert hfed
    cases c.getLsbD 0 <;> cases b <;> simp
  · rename_i hfed
    rw [parity_shift]
    revert hfed
    cases c.getLsbD 0 <;> cases b <;> simp

/-- So a run adds the parity of its input. -/
theorem parity_run (hodd : parity (bits poly) = true) (bs : List Bool) (c : BitVec w) :
    parity (bits (run poly c bs)) = (parity (bits c) ^^ parity bs) := by
  induction bs generalizing c with
  | nil => simp
  | cons b bs ih => rw [run_cons, ih, parity_step hodd, parity_cons, Bool.xor_assoc]

/-- A pattern of odd weight does not go unnoticed. -/
theorem odd_ne_zero (hodd : parity (bits poly) = true) {e : List Bool}
    (he : Odd (e.count true)) : run poly 0#w e ≠ 0#w := by
  intro hrun
  have hparity := parity_run hodd e 0#w
  rw [hrun, (parity_eq_odd e).mpr he] at hparity
  cases h : parity (bits (0#w)) <;> rw [h] at hparity <;> cases hparity

end Crc

import Gnuais.Receiver

/-!
# The clock recovery in 32 bits

`pll` and `pllinc` are `unsigned int`. `Receiver` has them as numbers; here they
have the width of `receiver.h`, and the arithmetic is that of the machine.

* `Clock` — the fields of the clock, with `Clock.sample` for a turn of the loop
  and `Clock.run` for the loop. Both return the bits that are sliced.
* `Clock.sample_spec` — what a turn does to the phase: with the slice counted as
  `0x10000` it moves on by between 12288 and 13926.
* `clock_recovery` — no subtraction wraps, the phase stays in 16 bits, and the
  number of bits follows the number of samples, whatever the signal is. The
  numbers of `Receiver` are the machine's.
-/

namespace Gnuais

/-- The clock of `struct receiver`. -/
structure Clock where
  /-- the fields as in `Receiver`, with their widths -/
  lastbit : Bool
  /-- the phase; its upper half is 0 between two samples -/
  pll : UInt32
  pllinc : UInt32
  /-- the sign of the sample before -/
  prev : Bool

/-- The phase before an increment, as `Receiver.pulled` has it. -/
def Clock.pulled (c : Clock) (curr : Bool) : UInt32 :=
  if curr ≠ c.prev then
    if c.pll < 0x10000 / 2 then c.pll + c.pllinc / 16 else c.pll - c.pllinc / 16
  else c.pll

/-- One turn of the loop of `receiver_run`: the clock and the bit that was sliced,
if any. -/
def Clock.sample (out : Bool) (c : Clock) : Clock × List Bool :=
  let curr := out
  let c := { c with pll := c.pulled curr, prev := curr }
  let c := { c with pll := c.pll + c.pllinc }
  if c.pll > 0xffff then
    -- slice
    let bit := out
    -- nrzi decode
    let b := !(bit ^^ c.lastbit)
    ({ c with lastbit := bit, pll := c.pll &&& 0xffff }, [b])
  else (c, [])

/-- The loop: the clock behind it and all bits that were sliced. -/
def Clock.run : List Bool → Clock → Clock × List Bool
  | [], c => (c, [])
  | out :: filtered, c =>
    let (c, bits) := c.sample out
    let (c, bits') := c.run filtered
    (c, bits ++ bits')

/-- The receiver with this clock. -/
def Clock.receiver (c : Clock) (decoder : DemodState) : Receiver where
  lastbit := c.lastbit
  pll := c.pll.toNat
  pllinc := c.pllinc.toNat
  prev := c.prev
  decoder := decoder

/-! ## One sample

The pull is one fixed step up or down, and it is down only from the upper half of the
phase. So the subtraction cannot wrap. -/

/-- The phase of 16 bits, and the increment `init_receiver` sets. -/
structure Clock.Steady (c : Clock) : Prop where
  /-- no carry is left over from the turn before -/
  phase : c.pll.toNat ≤ 0xffff
  /-- nothing sets it again -/
  pllinc : c.pllinc = 0x10000 / 5

section Sample

variable {c : Clock} (hsteady : c.Steady) (out : Bool)

include hsteady

/-- The subtraction at an edge does not wrap. -/
theorem Clock.Steady.sub_le (hhigh : ¬ c.pll < 0x10000 / 2) : c.pllinc / 16 ≤ c.pll := by
  have hlow : (0x10000 / 2 : UInt32).toNat ≤ c.pll.toNat :=
    UInt32.le_iff_toNat_le.mp (UInt32.not_lt.mp hhigh)
  rw [hsteady.pllinc, UInt32.le_iff_toNat_le]
  exact le_trans (by decide) hlow

/-- The pull is that of the numbers. -/
theorem Clock.Steady.toNat_pulled (decoder : DemodState) :
    (c.pulled out).toNat = (c.receiver decoder).pulled out := by
  have hphase := hsteady.phase
  have hkick : (c.pllinc / 16).toNat = c.pllinc.toNat / inc := UInt32.toNat_div ..
  have hval : c.pllinc.toNat / inc = 819 := by rw [hsteady.pllinc]; rfl
  have hlow : c.pll < 0x10000 / 2 ↔ c.pll.toNat < 0x10000 / 2 := UInt32.lt_iff_toNat_lt
  rw [Clock.pulled, Receiver.pulled, Clock.receiver]
  by_cases hedge : out ≠ c.prev
  · rw [if_pos hedge, if_pos hedge]
    by_cases hhalf : c.pll < 0x10000 / 2
    · rw [if_pos hhalf, if_pos (hlow.mp hhalf), UInt32.toNat_add, hkick]
      exact Nat.mod_eq_of_lt (by omega)
    · rw [if_neg hhalf, if_neg (mt hlow.mpr hhalf),
        UInt32.toNat_sub_of_le _ _ (hsteady.sub_le hhalf), hkick]
  · rw [if_neg hedge, if_neg hedge]

/-- A pull moves the phase by at most 819 and keeps it in 16 bits. -/
theorem Clock.Steady.pulled_bounds : (c.pulled out).toNat ≤ 0xffff ∧
    c.pll.toNat ≤ (c.pulled out).toNat + 819 ∧ (c.pulled out).toNat ≤ c.pll.toNat + 819 := by
  have hphase := hsteady.phase
  have hkick : (c.pllinc / 16).toNat = 819 := by rw [hsteady.pllinc]; rfl
  have hlow : c.pll < 0x10000 / 2 ↔ c.pll.toNat < 0x10000 / 2 := UInt32.lt_iff_toNat_lt
  rw [Clock.pulled]
  by_cases hedge : out ≠ c.prev
  · rw [if_pos hedge]
    by_cases hhalf : c.pll < 0x10000 / 2
    · have hnat := hlow.mp hhalf
      rw [if_pos hhalf, UInt32.toNat_add, hkick, Nat.mod_eq_of_lt (by omega)]
      omega
    · have hnat := mt hlow.mpr hhalf
      rw [if_neg hhalf, UInt32.toNat_sub_of_le _ _ (hsteady.sub_le hhalf), hkick]
      omega
  · rw [if_neg hedge]
    omega

/-- What a turn can do: move the phase on, or slice a bit and take the phase back
by `0x10000`. -/
theorem Clock.Steady.sample_cases : ∃ pll : UInt32,
    (pll.toNat = (c.pulled out).toNat + 13107 ∧ pll.toNat ≤ 0xffff ∧
      c.sample out = ({ c with pll := pll, prev := out }, [])) ∨
    (pll.toNat + 0x10000 = (c.pulled out).toNat + 13107 ∧
      c.sample out =
        ({ c with pll := pll, prev := out, lastbit := out }, [!(out ^^ c.lastbit)])) := by
  obtain ⟨hhigh, -, -⟩ := hsteady.pulled_bounds out
  have hinc : c.pllinc.toNat = 13107 := by rw [hsteady.pllinc]; rfl
  have hsum : (c.pulled out + c.pllinc).toNat = (c.pulled out).toNat + 13107 := by
    rw [UInt32.toNat_add, hinc, Nat.mod_eq_of_lt (by omega)]
  have hwrap : c.pulled out + c.pllinc > 0xffff ↔
      0xffff < (c.pulled out + c.pllinc).toNat := UInt32.lt_iff_toNat_lt
  rw [Clock.sample]
  by_cases hslice : c.pulled out + c.pllinc > 0xffff
  · refine ⟨(c.pulled out + c.pllinc) &&& 0xffff, .inr ⟨?_, ?_⟩⟩
    · have hmask : ((c.pulled out + c.pllinc) &&& 0xffff).toNat =
          (c.pulled out + c.pllinc).toNat % 2 ^ 16 := by
        rw [UInt32.toNat_and]
        exact Nat.and_two_pow_sub_one_eq_mod _ 16
      have hnat := hwrap.mp hslice
      rw [hmask, hsum]
      omega
    · simp only
      rw [if_pos hslice]
  · refine ⟨c.pulled out + c.pllinc, .inl ⟨hsum, ?_, ?_⟩⟩
    · have hnat := mt hwrap.mpr hslice
      omega
    · simp only
      rw [if_neg hslice]

/-- With a bit counted as `0x10000` the phase moves on by what the signal runs at
most ahead or behind. -/
theorem Clock.Steady.sample_spec : (c.sample out).1.Steady ∧ (c.sample out).2.length ≤ 1 ∧
    c.pll.toNat + 12288 ≤
      (c.sample out).1.pll.toNat + 65536 * (c.sample out).2.length ∧
    (c.sample out).1.pll.toNat + 65536 * (c.sample out).2.length ≤ c.pll.toNat + 13926 := by
  obtain ⟨hhigh, hbehind, hahead⟩ := hsteady.pulled_bounds out
  obtain ⟨pll, ⟨hsum, hlow, heq⟩ | ⟨hsum, heq⟩⟩ := hsteady.sample_cases out
  · rw [heq]
    refine ⟨⟨hlow, hsteady.pllinc⟩, Nat.zero_le _, ?_, ?_⟩
    · rw [List.length_nil, hsum]
      omega
    · rw [List.length_nil, hsum]
      omega
  · rw [heq]
    refine ⟨⟨?_, hsteady.pllinc⟩, Nat.le_refl _, ?_, ?_⟩
    · change pll.toNat ≤ 0xffff
      omega
    · change c.pll.toNat + 12288 ≤ pll.toNat + 65536 * 1
      omega
    · change pll.toNat + 65536 * 1 ≤ c.pll.toNat + 13926
      omega

/-- The turn with the decoder: it is handed the bit that was sliced. -/
theorem Clock.Steady.receiverSample_eq (cfg : Config) (clock : ℕ → ℤ) (decoder : DemodState) :
    receiverSample cfg clock out (c.receiver decoder) =
      (protodecDecode cfg clock (c.sample out).2 decoder).map fun r =>
        ((c.sample out).1.receiver r.1, (c.sample out).2, r.2) := by
  have hpulled := hsteady.toNat_pulled out decoder
  have hinc : (c.receiver decoder).pllinc = 13107 := by
    rw [Clock.receiver, hsteady.pllinc]
    rfl
  obtain ⟨pll, ⟨hsum, hlow, heq⟩ | ⟨hsum, heq⟩⟩ := hsteady.sample_cases out
  · have hnat : (c.pulled out).toNat + (c.receiver decoder).pllinc = pll.toNat := by
      rw [hinc, hsum]
    rw [heq]
    simp only [receiverSample, ← hpulled, hnat]
    rw [if_neg (Nat.not_lt.mpr hlow)]
    rfl
  · have hnat : (c.pulled out).toNat + (c.receiver decoder).pllinc = pll.toNat + 0x10000 := by
      rw [hinc, hsum]
    have hphase : (pll.toNat + 0x10000) &&& 0xffff = pll.toNat := by
      obtain ⟨hhigh, -, -⟩ := hsteady.pulled_bounds out
      rw [show 0xffff = 2 ^ 16 - 1 by rfl, Nat.and_two_pow_sub_one_eq_mod]
      omega
    rw [heq]
    simp only [receiverSample, ← hpulled, hnat, hphase]
    rw [if_pos (by omega)]
    cases hdecode : protodecDecode cfg clock [!(out ^^ c.lastbit)] decoder with
    | none =>
      simp only [Clock.receiver, hdecode]
      rfl
    | some r =>
      simp only [Clock.receiver, hdecode]
      rfl

end Sample

/-! ## Any signal

The bounds of a turn are added up. Counting a bit as a whole turn of the phase, the total
does not depend on when the bits were sliced. -/

/-- One sample, and then the others. -/
theorem Clock.run_cons (out : Bool) (filtered : List Bool) (c : Clock) :
    c.run (out :: filtered) = (((c.sample out).1.run filtered).1,
      (c.sample out).2 ++ ((c.sample out).1.run filtered).2) := rfl

theorem Clock.Steady.run {c : Clock} (hsteady : c.Steady) (filtered : List Bool) :
    (c.run filtered).1.Steady := by
  induction filtered generalizing c with
  | nil => exact hsteady
  | cons out filtered ih =>
    rw [Clock.run_cons]
    exact ih (hsteady.sample_spec out).1

/-- The phases add up. The induction is on the samples, from any phase. -/
theorem Clock.Steady.run_spec (filtered : List Bool) : ∀ {c : Clock}, c.Steady →
    c.pll.toNat + 12288 * filtered.length ≤
      (c.run filtered).1.pll.toNat + 65536 * (c.run filtered).2.length ∧
    (c.run filtered).1.pll.toNat + 65536 * (c.run filtered).2.length ≤
      c.pll.toNat + 13926 * filtered.length := by
  induction filtered with
  | nil =>
    intro c hsteady
    exact ⟨Nat.le_refl _, Nat.le_refl _⟩
  | cons out filtered ih =>
    intro c hsteady
    obtain ⟨hnext, -, hlow, hhigh⟩ := hsteady.sample_spec out
    obtain ⟨hrestLow, hrestHigh⟩ := ih hnext
    simp only [Clock.run_cons, List.length_append, List.length_cons]
    constructor
    · linarith
    · linarith

/-- The loop of the receiver slices the bits of the clock and decodes them. -/
theorem Clock.Steady.receiverLoop_eq (cfg : Config) (clock : ℕ → ℤ) (filtered : List Bool) :
    ∀ {c : Clock}, c.Steady → ∀ decoder : DemodState,
      receiverLoop cfg clock filtered (c.receiver decoder) =
        (protodecDecode cfg clock (c.run filtered).2 decoder).map fun r =>
          ((c.run filtered).1.receiver r.1, (c.run filtered).2, r.2) := by
  induction filtered with
  | nil => exact fun _ _ => rfl
  | cons out filtered ih =>
    intro c hsteady decoder
    rw [receiverLoop, hsteady.receiverSample_eq, Clock.run_cons, protodecDecode_append]
    cases protodecDecode cfg clock (c.sample out).2 decoder with
    | none => rfl
    | some r =>
      simp only [Option.map_some, Option.bind_eq_bind, Option.bind_some,
        ih (hsteady.sample_spec out).1]
      cases protodecDecode cfg clock ((c.sample out).1.run filtered).2 r.1 with
      | none => rfl
      | some r' => rfl

/-- On any signal, from any phase of 16 bits: the subtraction never wraps, the phase is
one of 16 bits again after every sample, no sample gives more than one bit, and over `n`
samples the number `b` of bits handed to the decoder has `12288 n - 65535 ≤ 65536 b ≤
13926 n + 65535`. The two numbers are the increment less and plus the pull, so the bounds
are those of a signal that changes with every sample in the same half of the phase. -/
theorem clock_recovery (cfg : Config) (clock : ℕ → ℤ) (c : Clock) (decoder : DemodState)
    (hphase : c.pll ≤ 0xffff) (hinc : c.pllinc = 0x10000 / 5) (filtered : List Bool) :
    (∀ before out after, filtered = before ++ out :: after →
      (¬ (c.run before).1.pll < 0x10000 / 2 →
        (c.run before).1.pllinc / 16 ≤ (c.run before).1.pll) ∧
      ((c.run before).1.sample out).1.pll ≤ 0xffff ∧
      ((c.run before).1.sample out).2.length ≤ 1) ∧
    12288 * filtered.length ≤ 65536 * (c.run filtered).2.length + 65535 ∧
    65536 * (c.run filtered).2.length ≤ 13926 * filtered.length + 65535 ∧
    receiverLoop cfg clock filtered (c.receiver decoder) =
      (protodecDecode cfg clock (c.run filtered).2 decoder).map fun r =>
        ((c.run filtered).1.receiver r.1, (c.run filtered).2, r.2) := by
  have hsteady : c.Steady := ⟨UInt32.le_iff_toNat_le.mp hphase, hinc⟩
  have hlast := (hsteady.run filtered).phase
  have hfirst := hsteady.phase
  obtain ⟨hlow, hhigh⟩ := Clock.Steady.run_spec filtered hsteady
  refine ⟨?_, by omega, by omega, Clock.Steady.receiverLoop_eq cfg clock filtered hsteady decoder⟩
  rintro before out after -
  have hbefore := hsteady.run before
  obtain ⟨hnext, hone, -, -⟩ := hbefore.sample_spec out
  exact ⟨hbefore.sub_le, UInt32.le_iff_toNat_le.mpr hnext.phase, hone⟩

/-- A clock as `init_receiver` sets it, on a signal that changes all the time. -/
theorem clock_recovery_alternating :
    12288 * 6 ≤ 65536 * (Clock.run [true, false, true, false, true, false]
      ⟨false, 0, 0x10000 / 5, false⟩).2.length + 65535 :=
  (clock_recovery .silent (fun _ => 0) ⟨false, 0, 0x10000 / 5, false⟩
    (protodecInitialize .zeroed false false 65) (by decide) rfl
    [true, false, true, false, true, false]).2.1

end Gnuais

import Gnuais.Framing

/-!
# The bit slicer (`receiver.c`)

`receiver_run` turns filtered samples into bits: a phase counter that wraps
around once a symbol says when to look at the signal, and is pulled towards the
edges of the signal. A bit is one when the symbol is the one before it.

* `Receiver` — the fields of `struct receiver` that the loop uses.
* `receiverRun` — one call, on the signs of what the filter gave. The bits it
  hands to the decoder are part of what it returns.
* `receiver_bits` — on a clean signal every symbol gives one bit.

The counter stays far below `2^32`, so it is a number. The level meter is left
out.
-/

namespace Gnuais

/-- `INC` -/
abbrev inc : ℕ := 16

/-- `FILTERED_LEN` -/
abbrev filteredLen : ℕ := 4096

/-- `struct receiver` -/
structure Receiver where
  /-- whether the symbol that was sliced last was positive -/
  lastbit : Bool
  /-- the phase within a symbol, which counts from 0 to `0xffff` -/
  pll : ℕ
  /-- how far the phase moves in one sample -/
  pllinc : ℕ
  /-- the sign of the sample before -/
  prev : Bool
  /-- `decoder`, which gets the bits -/
  decoder : DemodState

/-- `init_receiver`, in memory that `hmalloc` returned. -/
def initReceiver (mem : Allocated) (serial ipc : Bool) (name : UInt8) : Receiver where
  lastbit := false
  pll := 0
  pllinc := 0x10000 / 5
  prev := false
  decoder := protodecInitialize mem serial ipc name

/-- The phase before an increment: pulled towards the middle when `out` changed
its sign. -/
def Receiver.pulled (rx : Receiver) (curr : Bool) : ℕ :=
  if curr ≠ rx.prev then
    if rx.pll < 0x10000 / 2 then rx.pll + rx.pllinc / inc else rx.pll - rx.pllinc / inc
  else rx.pll

/-- One turn of the loop of `receiver_run`, where `out` says whether the sample is
positive: the bits handed to the decoder and the calls it makes. The clock is pulled
first, then moved on, and the bit is sliced if it wraps. -/
def receiverSample (cfg : Config) (clock : ℕ → ℤ) (out : Bool) (rx : Receiver) :
    Option (Receiver × List Bool × List Call) :=
  let curr := out
  let rx := { rx with pll := rx.pulled curr, prev := curr }
  let rx := { rx with pll := rx.pll + rx.pllinc }
  if rx.pll > 0xffff then do
    -- slice
    let bit := out
    -- nrzi decode
    let b := !(bit ^^ rx.lastbit)
    let (decoder, calls) ← protodecDecode cfg clock [b] rx.decoder
    return ({ rx with decoder := decoder, lastbit := bit, pll := rx.pll &&& 0xffff }, [b], calls)
  else some (rx, [], [])

/-- The loop of `receiver_run`. -/
def receiverLoop (cfg : Config) (clock : ℕ → ℤ) :
    List Bool → Receiver → Option (Receiver × List Bool × List Call)
  | [], rx => some (rx, [], [])
  | out :: filtered, rx => do
    let (rx, bits, calls) ← receiverSample cfg clock out rx
    let (rx, bits', calls') ← receiverLoop cfg clock filtered rx
    return (rx, bits ++ bits', calls ++ calls')

/-- `receiver_run`; with more samples than `filtered` has room for it aborts. -/
def receiverRun (cfg : Config) (clock : ℕ → ℤ) (filtered : List Bool) (rx : Receiver) :
    Option (Receiver × List Bool × List Call) :=
  if filtered.length > filteredLen then none else receiverLoop cfg clock filtered rx

/-- Calls of `receiver_run` one after the other. -/
def receiverRuns (cfg : Config) (clock : ℕ → ℤ) :
    List (List Bool) → Receiver → Option (Receiver × List Bool × List Call)
  | [], rx => some (rx, [], [])
  | filtered :: rest, rx => do
    let (rx, bits, calls) ← receiverRun cfg clock filtered rx
    let (rx, bits', calls') ← receiverRuns cfg clock rest rx
    return (rx, bits ++ bits', calls ++ calls')

section

variable (cfg : Config) (clock : ℕ → ℤ)

/-! ## Cutting the samples

The state behind a call is all that the next one starts from, so calls can be joined. -/

/-- Two stretches in one loop. -/
theorem receiverLoop_append (s t : List Bool) :
    ∀ rx : Receiver, receiverLoop cfg clock (s ++ t) rx =
      (receiverLoop cfg clock s rx).bind fun r =>
        (receiverLoop cfg clock t r.1).map fun r' => (r'.1, r.2.1 ++ r'.2.1, r.2.2 ++ r'.2.2) := by
  induction s with
  | nil =>
    intro rx
    rw [List.nil_append, receiverLoop, Option.bind_some]
    cases receiverLoop cfg clock t rx <;> rfl
  | cons out s ih =>
    intro rx
    rw [List.cons_append, receiverLoop, receiverLoop]
    cases receiverSample cfg clock out rx with
    | none => rfl
    | some r =>
      simp only [Option.bind_eq_bind, Option.bind_some, ih]
      cases receiverLoop cfg clock s r.1 with
      | none => rfl
      | some r' =>
        simp only [Option.bind_some, Option.pure_def]
        generalize receiverLoop cfg clock t r'.1 = last
        cases last with
        | none => rfl
        | some r'' => simp only [Option.map_some, Option.bind_some, List.append_assoc]

/-- How the samples are cut into calls makes no difference. -/
theorem receiverRuns_flatten (chunks : List (List Bool))
    (hlen : ∀ c ∈ chunks, c.length ≤ filteredLen) :
    ∀ rx : Receiver, receiverRuns cfg clock chunks rx =
      receiverLoop cfg clock chunks.flatten rx := by
  induction chunks with
  | nil => exact fun _ => rfl
  | cons c chunks ih =>
    intro rx
    have hc : ¬ c.length > filteredLen := Nat.not_lt.mpr (hlen c (List.mem_cons_self ..))
    rw [receiverRuns, receiverRun, if_neg hc, List.flatten_cons, receiverLoop_append]
    cases receiverLoop cfg clock c rx with
    | none => rfl
    | some r =>
      simp only [Option.bind_eq_bind, Option.bind_some,
        ih (fun c' hc' => hlen c' (List.mem_cons_of_mem _ hc'))]
      cases receiverLoop cfg clock chunks.flatten r.1 <;> rfl

/-! ## One symbol

The five samples of a symbol move the phase on by a little less than a whole turn. So it
wraps once, and comes out one below where the pull of the first sample left it. -/

/-- A sample pulls the phase first, and then is like one without an edge. -/
theorem receiverSample_pulled (out : Bool) (rx : Receiver) :
    receiverSample cfg clock out rx =
      receiverSample cfg clock out { rx with pll := rx.pulled out, prev := out } := by
  have hpulled : Receiver.pulled { rx with pll := rx.pulled out, prev := out } out =
      rx.pulled out := if_neg fun h => h rfl
  rw [receiverSample, receiverSample, hpulled]

/-- Samples without an edge while the counter does not wrap. -/
theorem receiverLoop_quiet {s : Bool} (k : ℕ) :
    ∀ rx : Receiver, rx.prev = s → rx.pll + k * rx.pllinc ≤ 0xffff →
      receiverLoop cfg clock (List.replicate k s) rx =
        some ({ rx with pll := rx.pll + k * rx.pllinc }, [], []) := by
  induction k with
  | zero =>
    rintro rx rfl -
    rw [Nat.zero_mul, Nat.add_zero]
    rfl
  | succ k ih =>
    rintro rx rfl hlow
    have hmul : (k + 1) * rx.pllinc = rx.pllinc + k * rx.pllinc := by
      rw [Nat.succ_mul, Nat.add_comm]
    have hpulled : rx.pulled rx.prev = rx.pll := if_neg fun h => h rfl
    have hsample : receiverSample cfg clock rx.prev rx =
        some ({ rx with pll := rx.pll + rx.pllinc }, [], []) := by
      simp only [receiverSample, hpulled]
      rw [if_neg (by omega)]
    rw [List.replicate_succ, receiverLoop, hsample]
    simp only [Option.bind_eq_bind, Option.bind_some]
    rw [ih { rx with pll := rx.pll + rx.pllinc } rfl
      (by change rx.pll + rx.pllinc + k * rx.pllinc ≤ _; omega), hmul, ← Nat.add_assoc]
    rfl

/-- A sample without an edge where the counter wraps. -/
theorem receiverSample_slice {s : Bool} {rx : Receiver} (hprev : rx.prev = s)
    (hlow : rx.pll ≤ 0xffff) (hinc : rx.pllinc ≤ 0xffff) (hwrap : 0xffff < rx.pll + rx.pllinc) :
    receiverSample cfg clock s rx =
      (protodecDecode cfg clock [s == rx.lastbit] rx.decoder).map fun r =>
        ({ rx with decoder := r.1, lastbit := s, pll := rx.pll + rx.pllinc - 0x10000 },
          [s == rx.lastbit], r.2) := by
  subst hprev
  have hpulled : rx.pulled rx.prev = rx.pll := if_neg fun h => h rfl
  have hbit : (!(rx.prev ^^ rx.lastbit)) = (rx.prev == rx.lastbit) := by
    cases rx.prev <;> cases rx.lastbit <;> rfl
  have hmask : (rx.pll + rx.pllinc) &&& 0xffff = rx.pll + rx.pllinc - 0x10000 := by
    rw [show 0xffff = 2 ^ 16 - 1 by rfl, Nat.and_two_pow_sub_one_eq_mod]
    omega
  simp only [receiverSample, hpulled, hbit, hmask]
  rw [if_pos hwrap]
  cases protodecDecode cfg clock [rx.prev == rx.lastbit] rx.decoder <;> rfl

/-- Five samples of a symbol hand over one bit. The counter wraps once, and ends
one below where the pull left it. -/
theorem receiverLoop_symbol {s : Bool} {rx : Receiver} (hinc : rx.pllinc = 0x10000 / 5)
    (hlow : 1 ≤ rx.pulled s) (hhigh : rx.pulled s ≤ 0xffff) :
    receiverLoop cfg clock (List.replicate 5 s) rx =
      (protodecDecode cfg clock [s == rx.lastbit] rx.decoder).map fun r =>
        ({ rx with decoder := r.1, lastbit := s, prev := s, pll := rx.pulled s - 1 },
          [s == rx.lastbit], r.2) := by
  have hpull : receiverLoop cfg clock (List.replicate 5 s) rx =
      receiverLoop cfg clock (List.replicate 5 s)
        { rx with pll := rx.pulled s, prev := s } := by
    rw [List.replicate_succ, receiverLoop, receiverLoop, receiverSample_pulled]
  -- the counter wraps at the first sample that takes it past `0xffff`
  obtain ⟨k, hk, hquiet, hwrap⟩ : ∃ k ≤ 4, rx.pulled s + k * 13107 ≤ 0xffff ∧
      0xffff < rx.pulled s + k * 13107 + 13107 :=
    ⟨(0xffff - rx.pulled s) / 13107, by omega, by omega, by omega⟩
  have hinc' : rx.pllinc = 13107 := hinc
  have hsplit : List.replicate 5 s = List.replicate k s ++ s :: List.replicate (4 - k) s := by
    rw [← List.replicate_succ, List.replicate_append_replicate]
    congr 1
    omega
  have hbefore := receiverLoop_quiet cfg clock k
    { rx with pll := rx.pulled s, prev := s } rfl (by rw [hinc']; exact hquiet)
  have hslice := receiverSample_slice cfg clock
    (show Receiver.prev { rx with pll := rx.pulled s + k * rx.pllinc, prev := s } = s from rfl)
    (by rw [hinc']; exact hquiet) (by rw [hinc']; decide) (by rw [hinc']; exact hwrap)
  rw [hpull, hsplit, receiverLoop_append, hbefore, Option.bind_some, receiverLoop, hslice]
  cases protodecDecode cfg clock [s == rx.lastbit] rx.decoder with
  | none => rfl
  | some r =>
    have hafter := receiverLoop_quiet cfg clock (4 - k)
      { rx with
        decoder := r.1
        lastbit := s
        prev := s
        pll := rx.pulled s + k * rx.pllinc + rx.pllinc - 0x10000 } rfl
      (by simp only [hinc']; omega)
    have hend : rx.pulled s + k * rx.pllinc + rx.pllinc - 0x10000 + (4 - k) * rx.pllinc =
        rx.pulled s - 1 := by
      rw [hinc']
      omega
    simp only [Option.map_some, Option.bind_eq_bind, Option.bind_some, hafter, hend]
    simp

/-! ## A clean signal

Each symbol like the one before it costs the phase one, and an edge pulls it back. So the
receiver keeps up as long as equal symbols do not come in rows that are too long. -/

/-- The bits of a sequence of symbols after `s₀`: whether each one is like the
one before it. -/
def symbolBits (s₀ : Bool) (ss : List Bool) : List Bool := List.zipWith (· == ·) ss (s₀ :: ss)

/-- The phase before a symbol, after `n` equal ones: it has lost one for each since the
last edge, and an edge gives it back. The bound gets weaker by one with each symbol, and
is as it was behind an edge. -/
structure InPhase (rx : Receiver) (s : Bool) (n : ℕ) : Prop where
  /-- the last sample was of the symbol before -/
  prev : rx.prev = s
  /-- and so was the last bit -/
  lastbit : rx.lastbit = s
  /-- five samples a turn, rounded down -/
  pllinc : rx.pllinc = 0x10000 / 5
  /-- the phase has lost one for each symbol -/
  low : 820 ≤ rx.pll + n
  /-- it is a phase of sixteen bits -/
  high : rx.pll ≤ 0xffff

/-- The phase behind the pull of an edge, or without one. -/
theorem InPhase.pulled {rx : Receiver} {s : Bool} {n : ℕ} (h : InPhase rx s n) (hn : n ≤ 800)
    (s' : Bool) : 1 ≤ rx.pulled s' ∧ rx.pulled s' ≤ 0xffff ∧
      820 ≤ rx.pulled s' - 1 + if s' = s then n + 1 else 1 := by
  obtain ⟨hprev, -, hinc, hlow, hhigh⟩ := h
  have hkick : rx.pllinc / inc = 819 := hinc.symm ▸ rfl
  rw [Receiver.pulled, hprev, hkick]
  by_cases hs : s' = s
  · rw [if_neg (not_not.mpr hs), if_pos hs]
    omega
  · rw [if_pos hs, if_neg hs]
    split <;> omega

/-- The bits of all symbols, and only these, are handed over. The induction is on
the symbols, from any phase. -/
theorem receiverLoop_symbols (ss : List Bool) :
    ∀ (rx : Receiver) (s₀ : Bool) (n : ℕ), InPhase rx s₀ n →
      (∀ b, ¬ List.replicate 801 b <:+: List.replicate n s₀ ++ ss) →
      ∃ pll, receiverLoop cfg clock (ss.flatMap (List.replicate 5)) rx =
        (protodecDecode cfg clock (symbolBits s₀ ss) rx.decoder).map fun r =>
          ({ rx with decoder := r.1, lastbit := ss.getLastD s₀, prev := ss.getLastD s₀, pll := pll },
            symbolBits s₀ ss, r.2) := by
  induction ss with
  | nil =>
    rintro ⟨lastbit, pll, pllinc, prev, decoder⟩ s₀ n hphase -
    obtain rfl : prev = s₀ := hphase.prev
    obtain rfl : lastbit = prev := hphase.lastbit
    exact ⟨pll, rfl⟩
  | cons s ss ih =>
    intro rx s₀ n hphase hruns
    -- a longer run would be the one that is excluded
    have hn : n ≤ 800 := by
      by_contra hlt
      refine hruns s₀ (List.IsPrefix.isInfix ?_)
      rw [show n = 801 + (n - 801) by omega, ← List.replicate_append_replicate, List.append_assoc]
      exact List.prefix_append _ _
    obtain ⟨hlow, hhigh, hnext⟩ := hphase.pulled hn s
    -- the run in front of what is left is this one, longer by a symbol or new
    have hruns' : ∀ b, ¬ List.replicate 801 b <:+:
        List.replicate (if s = s₀ then n + 1 else 1) s ++ ss := by
      intro b hb
      refine hruns b (hb.trans (List.IsSuffix.isInfix ?_))
      by_cases hs : s = s₀
      · rw [if_pos hs, hs, List.replicate_succ', List.append_assoc]
        exact List.suffix_rfl
      · rw [if_neg hs]
        exact List.suffix_append _ _
    have hbits : symbolBits s₀ (s :: ss) = [s == s₀] ++ symbolBits s ss := rfl
    rw [List.flatMap_cons, receiverLoop_append, receiverLoop_symbol cfg clock hphase.pllinc hlow hhigh,
      hbits, protodecDecode_append, hphase.lastbit]
    cases protodecDecode cfg clock [s == s₀] rx.decoder with
    | none => exact ⟨0, rfl⟩
    | some r =>
      obtain ⟨pll, hrest⟩ := ih
        { rx with decoder := r.1, lastbit := s, prev := s, pll := rx.pulled s - 1 } s _
        ⟨rfl, rfl, hphase.pllinc, hnext, by change rx.pulled s - 1 ≤ _; omega⟩ hruns'
      refine ⟨pll, ?_⟩
      simp only [Option.map_some, Option.bind_some, hrest]
      cases protodecDecode cfg clock (symbolBits s ss) r.1 with
      | none => rfl
      | some r' =>
        rw [Option.map_some, Option.map_some, Option.map_some, List.getLastD_cons]
        rfl

/-- A receiver on a clean signal, five samples a symbol and never more than 800 equal
symbols in a row, in any number of calls: the decoder is handed one bit for each symbol,
which says whether the symbol is like the one before it. The phase in front of the first
symbol must be one that the clock has between symbols, which is the hypothesis on `pll`. -/
theorem receiver_bits (rx : Receiver) (s₀ : Bool) (ss : List Bool) (chunks : List (List Bool))
    (hchunks : chunks.flatten = ss.flatMap (List.replicate 5))
    (hlen : ∀ c ∈ chunks, c.length ≤ filteredLen)
    (hruns : ∀ b, ¬ List.replicate 801 b <:+: s₀ :: ss)
    (hprev : rx.prev = s₀) (hlast : rx.lastbit = s₀) (hinc : rx.pllinc = 0x10000 / 5)
    (hlow : 1000 ≤ rx.pll) (hhigh : rx.pll ≤ 0xffff) :
    (symbolBits s₀ ss).length = ss.length ∧
    (∀ k s s', (s₀ :: ss)[k]? = some s → (s₀ :: ss)[k + 1]? = some s' →
      (symbolBits s₀ ss)[k]? = some (s' == s)) ∧
    (∃ pll, receiverRuns cfg clock chunks rx =
      (protodecDecode cfg clock (symbolBits s₀ ss) rx.decoder).map fun r =>
        ({ rx with decoder := r.1, lastbit := ss.getLastD s₀, prev := ss.getLastD s₀, pll := pll },
          symbolBits s₀ ss, r.2)) ∧
    ∀ mem serial ipc chanid past calls,
      protodecDecode cfg clock past (protodecInitialize mem serial ipc chanid) =
        some (rx.decoder, calls) →
      (protodecDecode cfg clock (symbolBits s₀ ss) rx.decoder).isSome := by
  refine ⟨?_, ?_, ?_, ?_⟩
  · rw [symbolBits, List.length_zipWith, List.length_cons]
    omega
  · intro k s s' hs hs'
    rw [List.getElem?_cons_succ] at hs'
    rw [symbolBits, List.getElem?_zipWith, hs, hs']
  · rw [receiverRuns_flatten cfg clock chunks hlen, hchunks]
    exact receiverLoop_symbols cfg clock ss rx s₀ 1 ⟨hprev, hlast, hinc, by omega, hhigh⟩ hruns
  · intro mem serial ipc chanid past calls hpast
    obtain ⟨d, calls', hrun, hsim, -⟩ := decode_simulates cfg clock past
      (simulates_initial mem serial ipc chanid)
    obtain ⟨rfl, rfl⟩ := Prod.mk.inj (Option.some.inj (hrun.symm.trans hpast))
    obtain ⟨d', calls', hrun', -⟩ := decode_simulates cfg clock (symbolBits s₀ ss) hsim
    rw [hrun']
    rfl

/-- Three symbols in two calls, the second cut in the middle of a symbol. -/
theorem receiver_bits_three :
    ∃ pll, receiverRuns .silent (fun _ => 0) [List.replicate 7 true, [true, true, true] ++
        List.replicate 5 false] { initReceiver .zeroed false false 65 with pll := 1000 } =
      (protodecDecode .silent (fun _ => 0) [false, true, false]
        (protodecInitialize .zeroed false false 65)).map fun r =>
          ({ initReceiver .zeroed false false 65 with decoder := r.1, pll := pll },
            [false, true, false], r.2) :=
  (receiver_bits .silent (fun _ => 0) { initReceiver .zeroed false false 65 with pll := 1000 } false
    [true, true, false] _ rfl (by decide)
    (fun b hb => absurd hb.length_le (by rw [List.length_replicate]; decide))
    rfl rfl rfl (by decide) (by decide)).2.2.1

end

end Gnuais

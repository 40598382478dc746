import Gnuais.Framing

/-!
# What a reachable state has seen

`Deframer.Seen` says for each state of the deframer what the consumed bits look
like, with one virtual zero in front of the first. It holds at the start
(`seen_start`), every bit preserves it (`seen_step`, one lemma a state), so it
holds after every stream (`seen_run`).

For the decoder this means that data is only ever collected behind a training
sequence and a start flag, and that the buffer holds exactly the unstuffed bits
since then (`data_invariant`).
-/

namespace Gnuais

open Buffer Bits Hdlc

/-- A training sequence: at least sixteen alternating bits that end in a zero. -/
structure Training (a : List Bool) : Prop where
  /-- no two neighbours are the same -/
  alternating : Alternating a
  /-- as many as the decoder waits for -/
  long : 16 ≤ a.length
  /-- the flag begins with a zero as well -/
  last : a.getLast? = some false

/-- The stream has a training sequence right before `tail`, up to one more zero. The zero
that may follow is the first bit of the start flag when it repeats the last one of the
training sequence. -/
def Trained (stream tail : List Bool) : Prop :=
  ∃ pre a z, stream = pre ++ a ++ z ++ tail ∧ Training a ∧ (z = [] ∨ z = [false])

/-- The stream ends in `k + 1` alternating bits, the last of which is `b`. -/
def EndsAlternating (stream : List Bool) (k : ℕ) (b : Bool) : Prop :=
  ∃ pre a, stream = pre ++ a ∧ Alternating a ∧ a.length = k + 1 ∧ a.getLast? = some b

/-- What the deframer's state says about the bits consumed so far. The counter
`nstartsign` is at most one before the training sequence, where one is left over from an
aborted start flag; from then on it is one more than the number of ones seen. The zero in
front of the stream stands for `last` at the start, which counts as a bit in the
alternations. -/
def Deframer.Seen (stream : List Bool) : Deframer → Prop
  | .skurr alternations nstartsign last =>
    nstartsign ≤ 1 ∧ EndsAlternating stream alternations last
  | .preamble 0 last => ∃ pre a, stream = pre ++ a ++ List.replicate last.toNat true ∧ Training a
  | .preamble (ones + 1) _ => ones ≤ 4 ∧ Trained stream (List.replicate ones true)
  | .startsign nstartsign =>
    (nstartsign = 6 ∨ nstartsign = 7) ∧ Trained stream (List.replicate (nstartsign - 1) true)
  | .data payload ones =>
    ∃ raw, Trained stream (List.replicate 6 true ++ [false] ++ raw) ∧ Clean 0 raw ∧
      payload = unstuff raw ∧ ones = onesFrom 0 raw
  | .stop payload =>
    ∃ raw, Trained stream (List.replicate 6 true ++ [false] ++ raw ++ [true]) ∧ Clean 0 raw ∧
      payload = unstuff raw ∧ onesFrom 0 raw = 5

/-! ## How the two descriptions grow

Lemmas about streams only: what one bit more makes of a training sequence with something
behind it. -/

/-- One bit more behind it. -/
theorem Trained.concat {stream tail : List Bool} (h : Trained stream tail) (b : Bool) :
    Trained (stream ++ [b]) (tail ++ [b]) := by
  obtain ⟨pre, a, z, rfl, htrain, hz⟩ := h
  exact ⟨pre, a, z, by rw [List.append_assoc], htrain, hz⟩

/-- Any last bit alternates with itself. -/
theorem endsAlternating_zero (stream : List Bool) (b : Bool) :
    EndsAlternating (stream ++ [b]) 0 b :=
  ⟨stream, [b], rfl, List.isChain_singleton b, rfl, rfl⟩

/-- One alternation more, or a new start. -/
theorem EndsAlternating.concat {stream : List Bool} {k : ℕ} {last b : Bool}
    (h : EndsAlternating stream k last) (hb : b ≠ last) :
    EndsAlternating (stream ++ [b]) (k + 1) b := by
  obtain ⟨pre, a, rfl, halt, hlen, hlast⟩ := h
  refine ⟨pre, a ++ [b], List.append_assoc _ _ _, ?_, by simp [hlen], List.getLast?_concat⟩
  rw [Alternating, List.isChain_append]
  refine ⟨halt, List.isChain_singleton b, fun x hx y hy => ?_⟩
  rw [hlast, Option.mem_some_iff] at hx
  rw [List.head?_cons, Option.mem_some_iff] at hy
  rw [← hx, ← hy]
  exact hb.symm

/-- Two more alternating bits keep a training sequence one. -/
theorem Training.concat_pair {a : List Bool} (h : Training a) :
    Training (a ++ [true] ++ [false]) := by
  have hends : EndsAlternating a (a.length - 1) false := by
    have := h.long
    exact ⟨[], a, rfl, h.alternating, by omega, h.last⟩
  obtain ⟨pre, a', heq, halt, hlen, hlast⟩ :=
    (hends.concat Bool.false_ne_true.symm).concat Bool.false_ne_true
  have hlen' : pre.length + a'.length = a.length + 2 := by
    rw [← List.length_append, ← heq]
    simp
  have hlong := h.long
  obtain rfl : pre = [] := List.eq_nil_of_length_eq_zero (by omega)
  rw [List.nil_append] at heq
  rw [heq]
  exact ⟨halt, by omega, hlast⟩

/-! ## One bit

One lemma a state of the deframer. Each follows the branches of its step. -/

/-- While no training sequence has been seen. -/
theorem seen_stepSkurr {stream : List Bool} {alternations nstartsign : ℕ} {last : Bool}
    (h : Deframer.Seen stream (.skurr alternations nstartsign last)) (b : Bool) :
    Deframer.Seen (stream ++ [b]) (Deframer.stepSkurr alternations nstartsign last b) := by
  obtain ⟨hn, halt⟩ := h
  have hnext : EndsAlternating (stream ++ [b]) (if b ≠ last then alternations + 1 else 0) b := by
    by_cases hb : b ≠ last
    · rw [if_pos hb]
      exact halt.concat hb
    · rw [if_neg hb]
      exact endsAlternating_zero stream b
  rw [Deframer.stepSkurr]
  generalize (if b ≠ last then alternations + 1 else 0) = k at hnext
  by_cases hstart : k > 14 ∧ b = false
  · rw [if_pos hstart]
    obtain ⟨pre, a, heq, halt, hlen, hlast⟩ := hnext
    obtain ⟨hlong, rfl⟩ := hstart
    have htrain : Training a := ⟨halt, by omega, hlast⟩
    -- the counter is zero, or one from an aborted start flag
    rcases nstartsign with - | n
    · exact ⟨pre, a, by rw [heq]; simp, htrain⟩
    · obtain rfl : n = 0 := by omega
      exact ⟨Nat.zero_le 4, pre, a, [], by rw [heq]; simp, htrain, .inl rfl⟩
  · rw [if_neg hstart]
    exact ⟨hn, hnext⟩

/-- Behind the training sequence. -/
theorem seen_stepPreamble {stream : List Bool} {nstartsign : ℕ} {last : Bool}
    (h : Deframer.Seen stream (.preamble nstartsign last)) (b : Bool) :
    Deframer.Seen (stream ++ [b]) (Deframer.stepPreamble nstartsign last b) := by
  rw [Deframer.stepPreamble]
  rcases nstartsign with - | ones
  · obtain ⟨pre, a, rfl, htrain⟩ := h
    cases last <;> cases b
    · exact ⟨Nat.zero_le 4, pre, a, [false], by simp, htrain, .inr rfl⟩
    · exact ⟨pre, a, by simp, htrain⟩
    · exact ⟨pre, a ++ [true] ++ [false], by simp, htrain.concat_pair⟩
    · exact ⟨by decide, pre, a, [], by simp, htrain, .inl rfl⟩
  · obtain ⟨hones, htrain⟩ := h
    rw [if_neg fun hh => Nat.succ_ne_zero ones hh.2]
    cases b with
    | false =>
      rw [if_neg Bool.false_ne_true, if_neg (Nat.succ_ne_zero ones)]
      exact ⟨Nat.zero_le 1, endsAlternating_zero stream false⟩
    | true =>
      have hnext := htrain.concat true
      rw [← List.replicate_succ'] at hnext
      rw [if_pos rfl, if_neg (Nat.succ_ne_zero ones)]
      split
      · obtain rfl : ones = 4 := by omega
        exact ⟨.inl rfl, hnext⟩
      · exact ⟨by omega, hnext⟩

/-- In the start flag. -/
theorem seen_stepStartsign {stream : List Bool} {nstartsign : ℕ}
    (h : Deframer.Seen stream (.startsign nstartsign)) (b : Bool) :
    Deframer.Seen (stream ++ [b]) (Deframer.stepStartsign nstartsign b) := by
  have habort : Deframer.Seen (stream ++ [b]) (.skurr 0 1 b) :=
    ⟨le_refl 1, endsAlternating_zero stream b⟩
  obtain ⟨rfl | rfl, htrain⟩ := h
  · cases b with
    | false => exact habort
    | true => exact ⟨.inr rfl, htrain.concat true⟩
  · cases b with
    | false =>
      refine ⟨[], ?_, trivial, rfl, rfl⟩
      rw [List.append_nil]
      exact htrain.concat false
    | true => exact habort

/-- In the frame. -/
theorem seen_stepData {stream payload : List Bool} {ones : ℕ}
    (h : Deframer.Seen stream (.data payload ones)) (b : Bool) :
    Deframer.Seen (stream ++ [b]) (Deframer.stepData payload ones b) := by
  obtain ⟨raw, htrain, hclean, rfl, rfl⟩ := h
  have hnext := htrain.concat b
  rw [Deframer.stepData]
  by_cases h5 : onesFrom 0 raw = 5
  · rw [if_pos h5]
    cases b with
    | true => exact ⟨raw, hnext, hclean, rfl, h5⟩
    | false =>
      rw [List.append_assoc] at hnext
      refine ⟨raw ++ [false], hnext, (clean_concat raw false 0).mpr ⟨hclean, fun _ => rfl⟩, ?_, ?_⟩
      · rw [unstuff, unstuff, unstuffFrom_concat, if_pos h5, List.append_nil]
      · rw [onesFrom_concat, h5]
        rfl
  · rw [if_neg h5]
    split
    · exact ⟨Nat.zero_le 1, endsAlternating_zero stream b⟩
    · rw [List.append_assoc] at hnext
      refine ⟨raw ++ [b], hnext,
        (clean_concat raw b 0).mpr ⟨hclean, fun hh => absurd hh h5⟩, ?_, ?_⟩
      · rw [unstuff, unstuff, unstuffFrom_concat, if_neg h5]
      · rw [onesFrom_concat]

/-- Every bit preserves what has been seen. -/
theorem seen_step {stream : List Bool} {a : Deframer} (h : a.Seen stream) (b : Bool) :
    (a.step b).Seen (stream ++ [b]) := by
  cases a with
  | skurr alternations nstartsign last => exact seen_stepSkurr h b
  | preamble nstartsign last => exact seen_stepPreamble h b
  | startsign nstartsign => exact seen_stepStartsign h b
  | data payload ones => exact seen_stepData h b
  | stop payload => exact ⟨Nat.zero_le 1, endsAlternating_zero stream b⟩

/-! ## Every stream

The decoder inherits what the deframer has seen, through the simulation. -/

/-- Before the first bit. -/
theorem seen_start : Deframer.start.Seen [false] :=
  ⟨Nat.zero_le 1, endsAlternating_zero [] false⟩

/-- After any bits. -/
theorem seen_run (bits : List Bool) : (Deframer.start.run bits).Seen (false :: bits) := by
  induction bits using List.reverseRecOn with
  | nil => exact seen_start
  | append_singleton bits b ih =>
    rw [Deframer.run_concat]
    exact seen_step ih b

/-- A buffer that holds bits, as a list. -/
theorem take_holdsBits {buffer : Frame} {payload : List Bool} (h : HoldsBits buffer 0 payload) :
    buffer.toList.take payload.length = payload.map byte := by
  apply List.ext_getElem?
  intro i
  rw [List.getElem?_map, List.getElem?_take, Vector.getElem?_toList]
  by_cases hi : i < payload.length
  · rw [if_pos hi, ← h i hi, Nat.zero_add]
  · rw [if_neg hi, List.getElem?_eq_none (by omega), Option.map_none]

/-- Only in the data state is the decoder's state `ST_DATA`. -/
theorem data_of_st {a : Deframer} (h : a.st = .data) : ∃ payload ones, a = .data payload ones := by
  cases a with
  | data payload ones => exact ⟨payload, ones, rfl⟩
  | _ => cases h

/-- What has been consumed and collected in the data state: the consumed bits
end in a training sequence, a start flag and a stream without six ones in a
row, the buffer holds this stream unstuffed, and `bitstuff` is set exactly when
the stream ends in five ones. -/
def DataInvariant (bits : List Bool) (d : DemodState) : Prop :=
  ∃ pre a z raw,
    false :: bits = pre ++ a ++ z ++ (List.replicate 6 true ++ [false] ++ raw) ∧
    Alternating a ∧ 16 ≤ a.length ∧ a.getLast? = some false ∧
    (z = [] ∨ z = [false]) ∧
    ¬ List.replicate 6 true <:+: raw ∧
    d.bufferpos = (unstuff raw).length ∧
    d.buffer.toList.take d.bufferpos = (unstuff raw).map byte ∧
    (d.bitstuff = 1 ↔ onesFrom 0 raw = 5) ∧
    (d.bitstuff = 1 ↔ List.replicate 5 true <:+ raw)

/-- Whenever a decoder is in the data state, `DataInvariant` holds. -/
theorem data_invariant (cfg : Config) (clock : ℕ → ℤ) (mem : Allocated) (serial ipc : Bool)
    (chanid : UInt8) {bits : List Bool} {d : DemodState} {calls : List Call}
    (h : protodecDecode cfg clock bits (protodecInitialize mem serial ipc chanid) =
      some (d, calls))
    (hstate : d.state = .data) : DataInvariant bits d := by
  obtain ⟨d', calls', hrun, hsim, -⟩ := decode_simulates cfg clock bits
    (simulates_initial mem serial ipc chanid)
  obtain ⟨rfl, rfl⟩ := Prod.mk.inj (Option.some.inj (hrun.symm.trans h))
  have hseen := seen_run bits
  obtain ⟨payload, ones, ha⟩ := data_of_st (hsim.state_eq.symm.trans hstate)
  rw [ha] at hsim hseen
  obtain ⟨-, hhold, hcount⟩ := hsim
  obtain ⟨raw, ⟨pre, a, z, hstream, htrain, hz⟩, hclean, rfl, rfl⟩ := hseen
  have hstuff : d'.bitstuff = 1 ↔ onesFrom 0 raw = 5 := by
    rw [hcount.bitstuff]
    split <;> simp_all
  refine ⟨pre, a, z, raw, hstream, htrain.alternating, htrain.long, htrain.last, hz,
    hclean.not_infix, hhold.bufferpos, ?_, hstuff, ?_⟩
  · rw [hhold.bufferpos]
    exact take_holdsBits hhold.bits
  · have hle := hcount.le
    rw [hstuff, hclean.suffix_iff (le_refl 5)]
    omega

/-- A decoder that has seen a training sequence, a start flag and two ones. -/
theorem data_invariant_flag : ∃ d calls,
    protodecDecode .silent (fun _ => 0) (alternate true 24 ++ flag ++ [true, true])
      (protodecInitialize .zeroed false false 65) = some (d, calls) ∧
    d.state = .data ∧ DataInvariant (alternate true 24 ++ flag ++ [true, true]) d := by
  obtain ⟨d, calls, hrun, hsim, -⟩ := decode_simulates .silent (fun _ => 0)
    (alternate true 24 ++ flag ++ [true, true]) (simulates_initial .zeroed false false 65)
  have ha : Deframer.start.run (alternate true 24 ++ flag ++ [true, true]) =
      .data [true, true] 2 := by decide
  rw [ha] at hsim
  exact ⟨d, calls, hrun, hsim.1,
    data_invariant .silent (fun _ => 0) .zeroed false false 65 hrun hsim.1⟩

end Gnuais

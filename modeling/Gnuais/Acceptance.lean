import Gnuais.Reachable

/-!
# What is accepted

The decoder computes the length of a frame in bits and checks the octets that
fit in it, so a frame whose length is not a whole number of octets is checked
without its last bits and accepted when the rest happens to pass.

`WholeFrame` is what an accepted frame should be. `accepted_whole_iff` says
when it is: exactly when the collected bits end in the closing flag's own zero
and ones and are whole octets otherwise. `misaligned_accepted` is a frame that
is accepted and is not whole octets.
-/

namespace Gnuais

open Buffer Bits Hdlc

/-- The bits between two flags are octets and the check sequence of exactly these octets,
and the frame handed over has their length. A frame that passes the check need not be one. -/
def WholeFrame (raw : List Bool) (bufferlen : ℕ) : Prop :=
  ∃ data lo hi, unstuff raw = (data ++ [lo, hi]).flatMap octetLE ∧
    [lo, hi] = fcsOctets (protodecSdlcCrc data) ∧ bufferlen = 8 * data.length

/-! ## The closing flag in the collected bits

The collected bits have the zero and the first five ones of the closing flag among them,
and a fixed number of bits is taken off for these. Whether they are the bits of the flag
depends on the stuffing in front of it. -/

/-- A long enough clean stream with a full counter ends in a zero and five
ones. -/
theorem ends_in_flag {raw : List Bool} (hclean : Clean 0 raw) (h5 : onesFrom 0 raw = 5)
    (hlong : 6 ≤ raw.length) : ∃ r, raw = r ++ [false] ++ List.replicate 5 true := by
  obtain ⟨t, rfl⟩ := (hclean.suffix_iff (le_refl 5)).mpr (le_of_eq h5.symm)
  rw [List.length_append, List.length_replicate] at hlong
  cases t using List.reverseRecOn with
  | nil => simp at hlong
  | append_singleton r b =>
    cases b with
    | false => exact ⟨r, rfl⟩
    | true =>
      refine absurd ?_ hclean.not_infix
      exact ⟨r, [], by rw [List.append_nil, List.append_assoc]; rfl⟩

/-- A stream that ends in five ones ends in a one after unstuffing. -/
theorem unstuff_ends_in_one {raw : List Bool} (h5 : onesFrom 0 raw = 5) :
    ∃ u, unstuff raw = u ++ [true] := by
  cases raw using List.reverseRecOn with
  | nil => cases h5
  | append_singleton raw b =>
    rw [onesFrom_concat] at h5
    refine ⟨unstuff raw, ?_⟩
    rw [unstuff, unstuff, unstuffFrom_concat]
    unfold nextOnes at h5
    split at h5
    · omega
    · rename_i hne
      rw [if_neg hne]
      cases b with
      | false => simp at h5
      | true => rfl

/-- The collected bits: what is between the flags, then the closing flag up to
its fifth one. Its leading zero is missing when the bits before it make it look
like a stuffed one. -/
theorem unstuff_closing (r : List Bool) :
    unstuff (r ++ [false] ++ List.replicate 5 true) =
      unstuff r ++ (if onesFrom 0 r = 5 then [] else [false]) ++ List.replicate 5 true := by
  have hones : onesFrom 0 (r ++ [false]) = 0 := by
    rw [onesFrom_concat, nextOnes]
    split <;> rfl
  rw [unstuff, unstuffFrom_append, unstuffFrom_concat, hones]
  rfl

/-- The consumed bits of a closing frame end in two flags. -/
theorem between_of_trained {s r : List Bool}
    (h : Trained (false :: s) (List.replicate 6 true ++ [false] ++
      (r ++ [false] ++ List.replicate 5 true) ++ [true]))
    (hclean : Clean 0 (r ++ [false] ++ List.replicate 5 true)) : Between (s ++ [false]) r := by
  obtain ⟨pre, a, z, hstream, htrain, hz⟩ := h
  have hlong := htrain.long
  -- before the start flag's ones there is a zero that is not the virtual one
  obtain ⟨q, hq⟩ : ∃ q, pre ++ a ++ z = q ++ [false] := by
    rcases hz with rfl | rfl
    · obtain ⟨a', ha'⟩ := List.getLast?_eq_some_iff.mp htrain.last
      exact ⟨pre ++ a', by rw [ha', List.append_nil, List.append_assoc]⟩
    · exact ⟨pre ++ a, rfl⟩
  cases q with
  | nil =>
    have hlen := congrArg List.length hq
    rw [List.length_append, List.length_append, List.nil_append, List.length_singleton] at hlen
    omega
  | cons c q =>
    rw [hq, List.append_assoc, List.cons_append, List.cons.injEq] at hstream
    refine ⟨q, ?_, fun hinfix => hclean.not_infix ?_⟩
    · rw [hstream.2]
      simp only [List.append_assoc]
      rfl
    · rw [List.append_assoc]
      exact hinfix.trans (List.prefix_append r _).isInfix

/-! ## When an accepted frame is whole

The deframer divides the number of bits by eight and drops the rest. So there are frames
that pass the check and are not what was sent. -/

/-- Octets that pass the check are data and its check sequence. -/
theorem whole_of_passes {payload : List Bool} {k : ℕ}
    (hpass : protodecSdlcCrc (octetsOf payload (k + 2)) = 0x0f47#16)
    (hfit : 8 * (k + 2) ≤ payload.length) :
    ∃ data lo hi, payload.take (8 * (k + 2)) = (data ++ [lo, hi]).flatMap octetLE ∧
      [lo, hi] = fcsOctets (protodecSdlcCrc data) ∧ data.length = k := by
  rw [octetsOf_add_two] at hpass
  refine ⟨octetsOf payload k, _, _, ?_, (residue_check_iff _ _ _).mp hpass, length_octetsOf _ _⟩
  rw [← octetsOf_add_two, octetsOf_bits _ _ hfit]

/-- The deframer's side of acceptance: between its last two flags the stream
has a whole frame exactly when the collected bits are the octets and the flag's
zero and five ones. -/
theorem whole_iff_collected {s payload : List Bool}
    (hstop : Deframer.start.run s = .stop payload) (hlong : 22 < payload.length)
    (hpass : checkPasses payload (payload.length - 22) = true) :
    (∃ raw, Between (s ++ [false]) raw ∧ WholeFrame raw (payload.length - 22)) ↔
      payload.length % 8 = 6 ∧ payload[payload.length - 6]? = some false := by
  have hseen := seen_run s
  rw [hstop] at hseen
  obtain ⟨raw, htrained, hclean, rfl, h5⟩ := hseen
  have hrawlong : 6 ≤ raw.length := by
    have hle : (unstuff raw).length ≤ raw.length := length_unstuffFrom_le raw 0
    omega
  obtain ⟨r, rfl⟩ := ends_in_flag hclean h5 hrawlong
  have hbetween := between_of_trained htrained hclean
  -- what is between the last two flags is determined, so there is one candidate
  have hone : (∃ raw, Between (s ++ [false]) raw ∧
      WholeFrame raw ((unstuff (r ++ [false] ++ List.replicate 5 true)).length - 22)) ↔
      WholeFrame r ((unstuff (r ++ [false] ++ List.replicate 5 true)).length - 22) :=
    ⟨fun ⟨raw, hraw, hwhole⟩ => hraw.unique hbetween ▸ hwhole, fun hwhole => ⟨r, hbetween, hwhole⟩⟩
  rw [hone]
  rw [checkPasses, decide_eq_true_iff] at hpass
  have hclosing := unstuff_closing r
  generalize unstuff (r ++ [false] ++ List.replicate 5 true) = payload at hclosing hlong hpass ⊢
  by_cases hswallowed : onesFrom 0 r = 5
  · -- the flag's zero was taken for a stuffed one: neither side holds
    obtain ⟨u, hu⟩ := unstuff_ends_in_one hswallowed
    rw [if_pos hswallowed, List.append_nil] at hclosing
    have hlen : payload.length = (unstuff r).length + 5 := by
      rw [hclosing, List.length_append, List.length_replicate]
    constructor
    · rintro ⟨data, lo, hi, hbits, -, hdata⟩
      rw [hbits, length_flatMap_octetLE, List.length_append] at hlen
      simp only [List.length_cons, List.length_nil] at hlen
      omega
    · rintro ⟨-, hzero⟩
      rw [hu, List.length_append, List.length_singleton] at hlen
      rw [hclosing, hu, List.append_assoc, List.getElem?_append_right (by
        rw [← List.append_assoc, ← hu, ← hclosing]; omega), ← List.append_assoc, ← hu, ← hclosing,
        hlen, show u.length + 1 + 5 - 6 - u.length = 0 by omega] at hzero
      cases hzero
  · -- the flag's zero was collected: both sides say that the rest is whole octets
    rw [if_neg hswallowed, List.append_assoc] at hclosing
    have hlen : payload.length = (unstuff r).length + 6 := by
      rw [hclosing, List.length_append]
      rfl
    constructor
    · rintro ⟨data, lo, hi, hbits, -, hdata⟩
      refine ⟨?_, ?_⟩
      · rw [hbits, length_flatMap_octetLE, List.length_append] at hlen
        simp only [List.length_cons, List.length_nil] at hlen
        omega
      · rw [hlen, Nat.add_sub_cancel, hclosing, List.getElem?_append_right (le_refl _),
          Nat.sub_self]
        rfl
    · rintro ⟨hmod, -⟩
      obtain ⟨data, lo, hi, hbits, hfcs, hdata⟩ := whole_of_passes hpass (by omega)
      refine ⟨data, lo, hi, ?_, hfcs, by omega⟩
      rw [← hbits, show 8 * ((payload.length - 22) / 8 + 2) = (unstuff r).length by omega, hclosing,
        List.take_left]

/-- The bit at which a decoder accepts a frame: it is the last zero of a
closing flag, and the frame handed over is the deframer's. -/
theorem accepting_bit {cfg : Config} {clock : ℕ → ℤ} {b : Bool} {a : Deframer}
    {d d' : DemodState} {calls : List Call} (hsim : Simulates d a)
    (hbit : protodecDecodeBit cfg (clock d.receivedframes) b d = some (d', calls))
    (hrec : d'.receivedframes ≠ d.receivedframes) :
    ∃ payload, a = .stop payload ∧ b = false ∧ 22 < payload.length ∧
      checkPasses payload (payload.length - 22) = true ∧
      getdataCalls calls = [(payload.length - 22, frameOf payload)] ∧ Holding d payload := by
  obtain ⟨d₁, calls₁, hbit₁, -, hclose⟩ := decodeBit_simulates cfg clock hsim b
  obtain ⟨rfl, rfl⟩ := Prod.mk.inj (Option.some.inj (hbit₁.symm.trans hbit))
  obtain ⟨hcalls, hcount, -⟩ := closeAll_accepted hclose
  have hne : (a.closing b).flatMap Closing.accepted ≠ [] := by
    intro hnil
    rw [hnil] at hcount
    exact hrec hcount
  obtain ⟨payload, rfl, hb, hlong, hpass, haccepted⟩ := accepted_closing hne
  exact ⟨payload, rfl, hb, hlong, hpass, hcalls.trans haccepted, hsim.2⟩

/-- A stream behind which the deframer has a frame that passes the check is
accepted with the next zero. -/
theorem accepting_run (cfg : Config) (clock : ℕ → ℤ) (mem : Allocated) (serial ipc : Bool)
    (chanid : UInt8) {s payload : List Bool} (hstop : Deframer.start.run s = .stop payload)
    (hlong : 22 < payload.length)
    (hpass : checkPasses payload (payload.length - 22) = true) :
    ∃ d calls d' calls',
      protodecDecode cfg clock s (protodecInitialize mem serial ipc chanid) = some (d, calls) ∧
      protodecDecodeBit cfg (clock d.receivedframes) false d = some (d', calls') ∧
      d'.receivedframes ≠ d.receivedframes ∧ Holding d payload ∧
      getdataCalls calls' = [(payload.length - 22, frameOf payload)] := by
  obtain ⟨d, calls, hrun, hsim, -⟩ := decode_simulates cfg clock s
    (simulates_initial mem serial ipc chanid)
  rw [hstop] at hsim
  obtain ⟨d', calls', hbit, -, hclose⟩ := decodeBit_simulates cfg clock hsim false
  obtain ⟨hcalls, hcount, -⟩ := closeAll_accepted hclose
  have haccepted : (Deframer.closing (.stop payload) false).flatMap Closing.accepted =
      [(payload.length - 22, frameOf payload)] := by
    rw [Deframer.closing, if_pos ⟨rfl, hlong⟩, List.flatMap_singleton, Closing.accepted,
      if_pos hpass]
  rw [haccepted] at hcalls hcount
  refine ⟨d, calls, d', calls', hrun, hbit, fun heq => ?_, hsim.2, hcalls⟩
  rw [show d'.receivedframes = d.receivedframes + 1 from hcount] at heq
  omega

/-- A frame accepted in a run is a whole number of octets with the check sequence of
exactly these octets if and only if the collected bits before the closing flag's six are
whole octets, and the first of the six is the flag's zero. Both conditions are about the
bits before the last one of the closing flag, so a receiver could test them. -/
theorem accepted_whole_iff (cfg : Config) (clock : ℕ → ℤ) (mem : Allocated) (serial ipc : Bool)
    (chanid : UInt8) {s : List Bool} {b : Bool} {d d' : DemodState} {calls calls' : List Call}
    (h : protodecDecode cfg clock s (protodecInitialize mem serial ipc chanid) = some (d, calls))
    (hbit : protodecDecodeBit cfg (clock d.receivedframes) b d = some (d', calls'))
    (hrec : d'.receivedframes ≠ d.receivedframes) :
    (∃ raw bufferlen, Between (s ++ [b]) raw ∧ WholeFrame raw bufferlen ∧
      (getdataCalls calls').map Prod.fst = [bufferlen]) ↔
      d.bufferpos % 8 = 6 ∧ d.buffer[d.bufferpos - 6]? = some 0 := by
  obtain ⟨d₁, calls₁, hrun, hsim, -⟩ := decode_simulates cfg clock s
    (simulates_initial mem serial ipc chanid)
  obtain ⟨rfl, rfl⟩ := Prod.mk.inj (Option.some.inj (hrun.symm.trans h))
  obtain ⟨payload, hstop, rfl, hlong, hpass, hcalls, hhold⟩ := accepting_bit hsim hbit hrec
  have hzero : d₁.buffer[d₁.bufferpos - 6]? = some 0 ↔
      payload[payload.length - 6]? = some false := by
    have hheld := hhold.bits (payload.length - 6) (by omega)
    rw [Nat.zero_add] at hheld
    rw [hhold.bufferpos, hheld]
    cases payload[payload.length - 6]? with
    | none => simp
    | some c => cases c <;> simp [byte]
  rw [hzero, hhold.bufferpos, ← whole_iff_collected hstop hlong hpass, hcalls]
  constructor
  · rintro ⟨raw, bufferlen, hbetween, hwhole, hlen⟩
    obtain rfl := List.singleton_inj.mp hlen
    exact ⟨raw, hbetween, hwhole⟩
  · rintro ⟨raw, hbetween, hwhole⟩
    exact ⟨raw, _, hbetween, hwhole, rfl⟩

/-- A frame of one octet and its check sequence, up to the last bit of the
closing flag. -/
def wholeStream : List Bool :=
  alternate true 24 ++ flag ++ stuff ([4, 92, 182].flatMap octetLE) ++ flag.dropLast

/-- The whole frame is accepted, and its collected bits are as they should. -/
theorem accepted_whole_stream : ∃ d calls d' calls',
    protodecDecode .silent (fun _ => 0) wholeStream (protodecInitialize .zeroed false false 65) =
      some (d, calls) ∧
    protodecDecodeBit .silent 0 false d = some (d', calls') ∧
    d'.receivedframes ≠ d.receivedframes ∧
    ((∃ raw bufferlen, Between (wholeStream ++ [false]) raw ∧ WholeFrame raw bufferlen ∧
      (getdataCalls calls').map Prod.fst = [bufferlen]) ↔
      d.bufferpos % 8 = 6 ∧ d.buffer[d.bufferpos - 6]? = some 0) := by
  have hstop : Deframer.start.run wholeStream =
      .stop ([4, 92, 182].flatMap octetLE ++ flag.take 6) := by decide +kernel
  obtain ⟨d, calls, d', calls', hrun, hbit, hrec, -, -⟩ := accepting_run .silent (fun _ => 0)
    .zeroed false false 65 hstop (by decide) (by decide +kernel)
  exact ⟨d, calls, d', calls', hrun, hbit, hrec,
    accepted_whole_iff .silent (fun _ => 0) .zeroed false false 65 hrun hbit hrec⟩

/-- The same frame with one more bit before the closing flag. -/
def misalignedStream : List Bool :=
  alternate true 24 ++ flag ++ stuff ([4, 92, 182].flatMap octetLE ++ [false]) ++ flag.dropLast

/-- The frame of 25 bits between its flags is accepted with a length of nine
bits. -/
theorem misaligned_accepted : ∃ d calls d' calls',
    protodecDecode .silent (fun _ => 0) misalignedStream
      (protodecInitialize .zeroed false false 65) = some (d, calls) ∧
    protodecDecodeBit .silent 0 false d = some (d', calls') ∧
    d'.receivedframes ≠ d.receivedframes ∧
    (getdataCalls calls').map Prod.fst = [9] ∧
    ¬ ∃ raw bufferlen, Between (misalignedStream ++ [false]) raw ∧ WholeFrame raw bufferlen ∧
      (getdataCalls calls').map Prod.fst = [bufferlen] := by
  have hstop : Deframer.start.run misalignedStream =
      .stop ([4, 92, 182].flatMap octetLE ++ [false] ++ flag.take 6) := by decide +kernel
  obtain ⟨d, calls, d', calls', hrun, hbit, hrec, -, hcalls⟩ := accepting_run .silent (fun _ => 0)
    .zeroed false false 65 hstop (by decide) (by decide +kernel)
  refine ⟨d, calls, d', calls', hrun, hbit, hrec, by rw [hcalls]; rfl, ?_⟩
  rintro ⟨raw, bufferlen, -, ⟨data, -, -, -, -, hdata⟩, hlen⟩
  -- nine bits are no whole number of octets
  rw [hcalls] at hlen
  obtain rfl : 9 = bufferlen := List.singleton_inj.mp hlen
  omega

end Gnuais

import Gnuais.Acceptance

/-!
# Aborted start flags

`decodeStartsign` counts `nstartsign` up after `protodec_reset` as well, so a
start flag that breaks off in its last two bits leaves the counter at one. It
stays there until the next training sequence, which is then taken for a start
flag and costs the frame behind it.

`full_reset_iff` says that this is the only way back to `ST_SKURR` that is not
a full reset: after any other the decoder accepts the frames of every
continuation as a decoder put through `protodec_reset` does.
`abort_loses_frame` is a frame lost to such an abort.
-/

namespace Gnuais

open Bits Hdlc

/-- The frames accepted while the bits are consumed: their lengths and
`rbuffer` contents. -/
def acceptedFrames (cfg : Config) (clock : ℕ → ℤ) (t : List Bool) (d : DemodState) :
    Option (List (ℕ × Frame)) :=
  (protodecDecode cfg clock t d).map fun r => getdataCalls r.2

/-- A decoder put through `protodec_reset` and given the `last` and
`antallpreamble` of `d`. -/
def rearmed (d e : DemodState) : DemodState :=
  { protodecReset e with last := d.last, antallpreamble := d.antallpreamble }

/-- The state a stream leaves a decoder in. -/
def stateAfter (cfg : Config) (clock : ℕ → ℤ) (s : List Bool) (d : DemodState) : Option St :=
  (protodecDecode cfg clock s d).map fun r => r.1.state

/-- The last return to `ST_SKURR` was out of `ST_STARTSIGN`. It is found from the stream
alone, by the states on the way. -/
def AbortedStart (after : List Bool → Option St) (s : List Bool) : Prop :=
  ∃ p b q, s = p ++ b :: q ∧ after p = some .startsign ∧
    ∀ q', q' <+: q → after (p ++ b :: q') = some .skurr

/-- The state is that of the deframer. -/
theorem stateAfter_eq (cfg : Config) (clock : ℕ → ℤ) (s : List Bool) {d : DemodState}
    {a : Deframer} (h : Simulates d a) : stateAfter cfg clock s d = some (a.run s).st := by
  obtain ⟨d', calls, hrun, hsim, -⟩ := decode_simulates cfg clock s h
  rw [stateAfter, hrun, Option.map_some, hsim.state_eq]

/-- So are the frames. -/
theorem acceptedFrames_eq (cfg : Config) (clock : ℕ → ℤ) (t : List Bool) {d : DemodState}
    {a : Deframer} (h : Simulates d a) :
    acceptedFrames cfg clock t d = some ((a.closings t).flatMap Closing.accepted) := by
  obtain ⟨d', calls, hrun, -, hclose⟩ := decode_simulates cfg clock t h
  rw [acceptedFrames, hrun, Option.map_some, (closeAll_accepted hclose).1]

/-- Putting a decoder through `protodec_reset` makes the deframer a waiting one with a
counter of zero. -/
theorem simulates_rearmed (d e : DemodState) :
    Simulates (rearmed d e) (.skurr d.antallpreamble 0 d.last) :=
  ⟨rfl, rfl, rfl, rfl, rfl, rfl, rfl⟩

/-! ## Where the counter comes from

Only the steps into `ST_SKURR` matter. The counter there is 0 behind all of them but one. -/

/-- A longer stream that ends in `ST_SKURR` was aborted when the shorter one
was, or when its last bit aborts. -/
theorem abortedStart_concat {after : List Bool → Option St} {s : List Bool} {b : Bool}
    (h : after (s ++ [b]) = some .skurr) :
    AbortedStart after (s ++ [b]) ↔
      after s = some .startsign ∨ after s = some .skurr ∧ AbortedStart after s := by
  constructor
  · rintro ⟨p, c, q, heq, hp, hq⟩
    cases q using List.reverseRecOn with
    | nil =>
      obtain ⟨rfl, -⟩ := List.append_inj' heq rfl
      exact .inl hp
    | append_singleton q e =>
      rw [← List.cons_append, ← List.append_assoc] at heq
      obtain ⟨rfl, -⟩ := List.append_inj' heq rfl
      refine .inr ⟨hq q (List.prefix_append q _), p, c, q, rfl, hp, fun q' hq' => ?_⟩
      exact hq q' (hq'.trans (List.prefix_append q _))
  · rintro (hs | ⟨-, p, c, q, rfl, hp, hq⟩)
    · refine ⟨s, b, [], rfl, hs, fun q' hq' => ?_⟩
      rw [List.prefix_nil.mp hq']
      exact h
    · refine ⟨p, c, q ++ [b], by rw [List.append_assoc]; rfl, hp, fun q' hq' => ?_⟩
      rcases List.prefix_concat_iff.mp hq' with rfl | hq'
      · rw [← List.cons_append, ← List.append_assoc]
        exact h
      · exact hq q' hq'

/-- What `nstartsign` is after a bit that leads to `ST_SKURR`. -/
def leftOver : Deframer → ℕ
  | .skurr _ nstartsign _ => nstartsign
  | .startsign _ => 1
  | _ => 0

/-- Waiting keeps the counter, an aborted start flag leaves it at one, and
every other way to `ST_SKURR` resets it. -/
theorem nstartsign_of_step {a : Deframer} {b : Bool} {alternations nstartsign : ℕ} {last : Bool}
    (h : a.step b = .skurr alternations nstartsign last) : nstartsign = leftOver a := by
  cases a with
  | skurr alternations₀ nstartsign₀ last₀ =>
    rw [Deframer.step, Deframer.stepSkurr] at h
    generalize (if b ≠ last₀ then alternations₀ + 1 else 0) = k at h
    split at h
    · cases h
    · exact (Deframer.skurr.inj h).2.1.symm
  | preamble nstartsign₀ last₀ =>
    rw [Deframer.step, Deframer.stepPreamble] at h
    split at h
    · cases h
    · split at h
      · split at h
        · cases h
        · split at h <;> cases h
      · split at h
        · cases h
        · exact (Deframer.skurr.inj h).2.1.symm
  | startsign nstartsign₀ =>
    rw [Deframer.step, Deframer.stepStartsign] at h
    split at h
    · split at h
      · cases h
      · exact (Deframer.skurr.inj h).2.1.symm
    · split at h
      · exact (Deframer.skurr.inj h).2.1.symm
      · cases h
  | data payload ones =>
    rw [Deframer.step, Deframer.stepData] at h
    split at h
    · split at h <;> cases h
    · split at h
      · exact (Deframer.skurr.inj h).2.1.symm
      · cases h
  | stop payload => exact (Deframer.skurr.inj h).2.1.symm

/-- In `ST_SKURR` the counter is one exactly behind an aborted start flag. -/
theorem nstartsign_of_aborted (s : List Bool) : ∀ {alternations nstartsign : ℕ} {last : Bool},
    Deframer.start.run s = .skurr alternations nstartsign last →
      (nstartsign = 1 ↔ AbortedStart (fun s => some (Deframer.start.run s).st) s) := by
  induction s using List.reverseRecOn with
  | nil =>
    intro alternations nstartsign last h
    obtain ⟨-, rfl, -⟩ := Deframer.skurr.inj h
    refine ⟨fun h0 => absurd h0 (by decide), ?_⟩
    rintro ⟨p, b, q, heq, -⟩
    exact absurd heq (by simp)
  | append_singleton s b ih =>
    intro alternations nstartsign last h
    rw [abortedStart_concat (by rw [h]; rfl)]
    rw [Deframer.run_concat] at h
    rw [nstartsign_of_step h]
    cases hrun : Deframer.start.run s with
    | skurr alternations₀ nstartsign₀ last₀ => simp [leftOver, Deframer.st, ih hrun]
    | _ => simp [leftOver, Deframer.st]

/-! ## What the counter costs

Behind an aborted flag the deframer waits for a training sequence with its counter at one.
The next zero behind such a sequence is taken for the last bit of a flag, and what follows
for data. -/

/-- Two ones, and a frame of one octet with its check sequence. -/
def probe : List Bool := [true, true] ++ wholeStream ++ [false]

/-- A waiting deframer accepts the frame of the probe when its counter is
zero, and nothing of it when its counter is one. -/
theorem accepted_probe (alternations : ℕ) (last : Bool) :
    ((Deframer.skurr alternations 0 last).closings probe).flatMap Closing.accepted ≠ [] ∧
    ((Deframer.skurr alternations 1 last).closings probe).flatMap Closing.accepted = [] := by
  -- the two ones break off any alternation
  have htrue : ∀ k n last, (Deframer.skurr k n last).step true =
      .skurr (if true ≠ last then k + 1 else 0) n true :=
    fun k n last => if_neg fun h => Bool.false_ne_true h.2.symm
  have hsettle : ∀ n rest, (Deframer.skurr alternations n last).closings ([true, true] ++ rest) =
      (Deframer.skurr 0 n true).closings rest := by
    intro n rest
    rw [Deframer.closings_append, Deframer.run_cons, Deframer.run_cons, htrue, htrue,
      Deframer.closings, Deframer.closings, htrue]
    rfl
  have hzero : (Deframer.skurr 0 0 true).closings (wholeStream ++ [false]) =
      [.frame ([4, 92, 182].flatMap octetLE ++ flag.take 6)] := by decide +kernel
  have hone : (Deframer.skurr 0 1 true).closings (wholeStream ++ [false]) = [] := by
    decide +kernel
  rw [probe, List.append_assoc, hsettle, hsettle, hzero, hone, List.flatMap_singleton,
    Closing.accepted, if_pos (by decide +kernel)]
  exact ⟨List.cons_ne_nil _ _, rfl⟩

/-- Whether a decoder in `ST_SKURR` behaves like one put through `protodec_reset` on every
continuation. It compares what is accepted, and not the counters. -/
def ResetLike (cfg : Config) (clock : ℕ → ℤ) (d : DemodState) : Prop :=
  ∀ (t : List Bool) (e : DemodState),
    acceptedFrames cfg clock t d = acceptedFrames cfg clock t (rearmed d e)

/-- It does exactly if its counter is 0. -/
theorem resetLike_iff (cfg : Config) (clock : ℕ → ℤ) {d : DemodState} (hidle : Idle d)
    (hstate : d.state = .skurr) (hle : d.nstartsign ≤ 1) :
    ResetLike cfg clock d ↔ d.nstartsign = 0 := by
  have hsim : Simulates d (.skurr d.antallpreamble d.nstartsign d.last) :=
    ⟨hstate, rfl, rfl, rfl, hidle⟩
  constructor
  · intro h
    by_contra hne
    have hone : d.nstartsign = 1 := by omega
    obtain ⟨hsome, hnone⟩ := accepted_probe d.antallpreamble d.last
    have hprobe := h probe d
    rw [hone] at hsim
    rw [acceptedFrames_eq cfg clock probe hsim,
      acceptedFrames_eq cfg clock probe (simulates_rearmed d d), hnone, Option.some.injEq] at hprobe
    exact hsome hprobe.symm
  · intro h t e
    rw [h] at hsim
    rw [acceptedFrames_eq cfg clock t hsim, acceptedFrames_eq cfg clock t (simulates_rearmed d e)]

/-! ## Runs

The condition is on the last return to `ST_SKURR` of the stream. Whatever came before it
is forgotten. -/

/-- A fresh decoder that a stream leaves in `ST_SKURR` behaves on every continuation like
a decoder put through `protodec_reset` if and only if its last return there was not out of
`ST_STARTSIGN`, and the same decides whether its counters are zero. So the decoder is as
good as new behind anything but an aborted start flag, and the only thing such a flag
leaves behind is one counter. -/
theorem full_reset_iff (cfg : Config) (clock : ℕ → ℤ) (mem : Allocated) (serial ipc : Bool)
    (chanid : UInt8) {s : List Bool} {d : DemodState} {calls : List Call}
    (h : protodecDecode cfg clock s (protodecInitialize mem serial ipc chanid) = some (d, calls))
    (hstate : d.state = .skurr) :
    ((∀ (t : List Bool) (e : DemodState),
        acceptedFrames cfg clock t d = acceptedFrames cfg clock t (rearmed d e)) ↔
      ¬ AbortedStart (fun p => stateAfter cfg clock p (protodecInitialize mem serial ipc chanid))
        s) ∧
    ((d.nstartsign = 0 ∧ d.bitstuff = 0 ∧ d.antallenner = 0 ∧ d.bufferpos = 0) ↔
      ¬ AbortedStart (fun p => stateAfter cfg clock p (protodecInitialize mem serial ipc chanid))
        s) := by
  obtain ⟨d', calls', hrun, hsim, -⟩ := decode_simulates cfg clock s
    (simulates_initial mem serial ipc chanid)
  obtain ⟨rfl, rfl⟩ := Prod.mk.inj (Option.some.inj (hrun.symm.trans h))
  have hafter : (fun p => stateAfter cfg clock p (protodecInitialize mem serial ipc chanid)) =
      fun p => some (Deframer.start.run p).st :=
    funext fun p => stateAfter_eq cfg clock p (simulates_initial mem serial ipc chanid)
  rw [hafter]
  have hseen := seen_run s
  have haborted := @nstartsign_of_aborted s
  cases ha : Deframer.start.run s with
  | skurr alternations nstartsign last =>
    rw [ha] at hsim hseen
    obtain ⟨-, -, hn, -, hidle⟩ := hsim
    obtain ⟨hle, -⟩ := hseen
    have hzero : d'.nstartsign = 0 ↔
        ¬ AbortedStart (fun p => some (Deframer.start.run p).st) s := by
      rw [← haborted ha, hn]
      omega
    refine ⟨(resetLike_iff cfg clock hidle hstate (by omega)).trans hzero, ?_⟩
    rw [← hzero]
    exact ⟨And.left, fun h0 => ⟨h0, hidle.bitstuff, hidle.antallenner, hidle.bufferpos⟩⟩
  | _ =>
    rw [ha] at hsim
    cases hstate.symm.trans hsim.1

/-- A training sequence that breaks off after twelve bits. -/
def brokenPreamble : List Bool := alternate true 12 ++ [false, false]

/-- It leaves the decoder as good as new. -/
theorem full_reset_iff_preamble : ∃ d calls,
    protodecDecode .silent (fun _ => 0) brokenPreamble
      (protodecInitialize .zeroed false false 65) = some (d, calls) ∧
    d.state = .skurr ∧
    ((∀ (t : List Bool) (e : DemodState), acceptedFrames .silent (fun _ => 0) t d =
        acceptedFrames .silent (fun _ => 0) t (rearmed d e)) ↔
      ¬ AbortedStart (fun p => stateAfter .silent (fun _ => 0) p
        (protodecInitialize .zeroed false false 65)) brokenPreamble) ∧
    ((d.nstartsign = 0 ∧ d.bitstuff = 0 ∧ d.antallenner = 0 ∧ d.bufferpos = 0) ↔
      ¬ AbortedStart (fun p => stateAfter .silent (fun _ => 0) p
        (protodecInitialize .zeroed false false 65)) brokenPreamble) := by
  obtain ⟨d, calls, hrun, hsim, -⟩ := decode_simulates .silent (fun _ => 0) brokenPreamble
    (simulates_initial .zeroed false false 65)
  have ha : Deframer.start.run brokenPreamble = .skurr 0 0 false := by decide
  rw [ha] at hsim
  exact ⟨d, calls, hrun, hsim.1,
    full_reset_iff .silent (fun _ => 0) .zeroed false false 65 hrun hsim.1⟩

/-- A training sequence and a start flag that breaks off after five ones. -/
def brokenStart : List Bool :=
  alternate true 24 ++ [false, true, true, true, true, true, false]

/-- After a broken start flag the next well-formed frame is lost, which a
decoder put through `protodec_reset` accepts. -/
theorem abort_loses_frame : ∃ d calls,
    protodecDecode .silent (fun _ => 0) brokenStart (protodecInitialize .zeroed false false 65) =
      some (d, calls) ∧
    d.state = .skurr ∧ d.nstartsign = 1 ∧
    acceptedFrames .silent (fun _ => 0) (wholeStream ++ [false]) d = some [] ∧
    acceptedFrames .silent (fun _ => 0) (wholeStream ++ [false]) (rearmed d d) =
      some [(8, rbufferOf [4])] := by
  obtain ⟨d, calls, hrun, hsim, -⟩ := decode_simulates .silent (fun _ => 0) brokenStart
    (simulates_initial .zeroed false false 65)
  have ha : Deframer.start.run brokenStart = .skurr 0 1 false := by decide
  rw [ha] at hsim
  refine ⟨d, calls, hrun, hsim.1, hsim.2.2.1, ?_, ?_⟩
  · have hlost : (Deframer.skurr 0 1 false).closings (wholeStream ++ [false]) = [] := by
      decide +kernel
    rw [acceptedFrames_eq _ _ _ hsim, hlost]
    rfl
  · have hkept : (Deframer.skurr 0 0 false).closings (wholeStream ++ [false]) =
        [.frame ([4, 92, 182].flatMap octetLE ++ flag.take 6)] := by decide +kernel
    have hrearmed := simulates_rearmed d d
    rw [hsim.2.1, hsim.2.2.2.1] at hrearmed
    rw [acceptedFrames_eq _ _ _ hrearmed, hkept, List.flatMap_singleton, Closing.accepted,
      if_pos (by decide +kernel), frameOf]
    have hoctets : octetsOf ([4, 92, 182].flatMap octetLE ++ flag.take 6)
        ((([4, 92, 182].flatMap octetLE ++ flag.take 6).length - 22) / 8) = [4] := by
      decide +kernel
    rw [hoctets]
    rfl

end Gnuais

import Gnuais.SoundLink

/-!
# The loop of `main`

`ais.c` reads sound buffer by buffer and runs one receiver on it, or two of them, each on its
own channel (`sound_channels`). What a receiver does depends on its channel only: it receives
the frames on it, whether the other one runs or not (`main_receives`).

* `mainTurn`, `mainLoop` — the loop, up to its end.
* `mainLoop_sides` — each receiver runs as it would alone.

The recording of the sound, its level and the statistics are left out.
-/

namespace Gnuais

open Bits

/-- The values of `sound_channels`. -/
inductive SoundChannels where
  /-- one receiver, on a sound with one channel -/
  | mono
  /-- two receivers, one for each channel -/
  | both
  /-- `rx_b` only, on a sound with two channels -/
  | left
  /-- `rx_a` only -/
  | right
  deriving DecidableEq

/-- `channels` -/
def SoundChannels.channels : SoundChannels → ℕ
  | .mono => 1
  | _ => 2

/-- The receivers `rx_a` and `rx_b`. -/
inductive Side where
  /-- `rx_a`, which is set up for every value -/
  | a
  /-- `rx_b`, which is not set up for one channel -/
  | b
  deriving DecidableEq

/-- Their names. -/
def Side.name : Side → UInt8
  | .a => 65
  | .b => 66

/-- Their channels, `ch_ofs`. -/
def Side.chOfs : Side → ℕ
  | .a => 0
  | .b => 1

/-- Whether the loop runs a receiver. -/
def SoundChannels.runs (sc : SoundChannels) : Side → Bool
  | .a => sc = .mono ∨ sc = .both ∨ sc = .right
  | .b => sc = .both ∨ sc = .left

/-- A receiver that runs has its channel in the sound. -/
theorem SoundChannels.chOfs_lt {sc : SoundChannels} {side : Side} (h : sc.runs side = true) :
    side.chOfs < sc.channels := by
  cases sc <;> cases side <;> first | decide | exact absurd h (by decide)

section Loop

variable {α : Type} [Zero α] [Add α] [Mul α] (ofShort : Int16 → α) (positive : α → Bool)
  (cfg : Config) (clock : ℕ → ℤ)

/-- The receivers with their filters; in mono there is no second one. -/
def initReceivers (sc : SoundChannels) (f : Filter α) (mem : Side → Allocated) (serial ipc : Bool) :
    Side → Option (Filter α × Receiver)
  | .a => some (f, initReceiver (mem .a) serial ipc Side.a.name)
  | .b => if sc = .mono then none else some (f, initReceiver (mem .b) serial ipc Side.b.name)

/-- A call of `receiver_run` in the loop, if it is made. -/
def runReceiver {numCh : ℕ} (runs : Bool) (chOfs : ℕ) (frames : List (Vector Int16 numCh))
    (rx : Option (Filter α × Receiver)) : Option (Option (Filter α × Receiver) × List Call) :=
  if runs then do
    let (f, rx) ← rx
    let (f, rx, _, calls) ← soundRun ofShort positive cfg clock numCh chOfs
      (frames.flatMap Vector.toList) frames.length f rx
    return (some (f, rx), calls)
  else some (rx, [])

/-- One turn of the loop: the receivers behind it, and the calls they make. Each decoder has
the times at which it reads the clock. -/
def mainTurn (clock : Side → ℕ → ℤ) (sc : SoundChannels) (frames : List (Vector Int16 sc.channels))
    (rxs : Side → Option (Filter α × Receiver)) :
    Option ((Side → Option (Filter α × Receiver)) × List (Side × Call)) := do
  let (a, calls) ← runReceiver ofShort positive cfg (clock .a) (sc.runs .a) Side.a.chOfs frames
    (rxs .a)
  let (b, calls') ← runReceiver ofShort positive cfg (clock .b) (sc.runs .b) Side.b.chOfs frames
    (rxs .b)
  let rxs := fun
    | .a => a
    | .b => b
  return (rxs, calls.map (Side.a, ·) ++ calls'.map (Side.b, ·))

/-- The loop, on the buffers that are read. -/
def mainLoop (clock : Side → ℕ → ℤ) (sc : SoundChannels) :
    List (List (Vector Int16 sc.channels)) → (Side → Option (Filter α × Receiver)) →
      Option ((Side → Option (Filter α × Receiver)) × List (Side × Call))
  | [], rxs => some (rxs, [])
  | frames :: rest, rxs =>
    if frames = [] then mainLoop clock sc rest rxs
    else do
      let (rxs, calls) ← mainTurn ofShort positive cfg clock sc frames rxs
      let (rxs, calls') ← mainLoop clock sc rest rxs
      return (rxs, calls ++ calls')

/-! ## Each receiver alone

The two receivers share no state: the loop hands both the same buffer and the calls of one
come before those of the other. So a run of the loop is two runs side by side. -/

/-- The calls of one receiver. -/
def callsOf (side : Side) (calls : List (Side × Call)) : List Call :=
  calls.filterMap fun c => if c.1 = side then some c.2 else none

/-- The calls of one receiver in two stretches. -/
theorem callsOf_append (side : Side) (calls calls' : List (Side × Call)) :
    callsOf side (calls ++ calls') = callsOf side calls ++ callsOf side calls' :=
  List.filterMap_append

/-- All of its own calls. -/
theorem callsOf_own (side : Side) (calls : List Call) : callsOf side (calls.map (side, ·)) = calls := by
  rw [callsOf, List.filterMap_map]
  exact (List.filterMap_congr fun c _ => if_pos rfl).trans (List.filterMap_some ..)

/-- And none of the other one's. -/
theorem callsOf_other {side side' : Side} (h : side' ≠ side) (calls : List Call) :
    callsOf side (calls.map (side', ·)) = [] := by
  rw [callsOf, List.filterMap_map]
  exact List.filterMap_eq_nil_iff.mpr fun c _ => if_neg h

/-- A receiver on all buffers, if it runs. -/
def sideRuns {numCh : ℕ} (runs : Bool) (chOfs : ℕ) (chunks : List (List (Vector Int16 numCh)))
    (rx : Option (Filter α × Receiver)) : Option (Option (Filter α × Receiver) × List Call) :=
  if runs then do
    let (f, rx) ← rx
    let (f, rx, _, calls) ← soundRuns ofShort positive cfg clock chOfs chunks f rx
    return (some (f, rx), calls)
  else some (rx, [])

/-- One buffer, and then the others. -/
theorem sideRuns_cons {numCh : ℕ} (runs : Bool) (chOfs : ℕ) (frames : List (Vector Int16 numCh))
    (rest : List (List (Vector Int16 numCh))) (rx : Option (Filter α × Receiver)) :
    sideRuns ofShort positive cfg clock runs chOfs (frames :: rest) rx =
      (runReceiver ofShort positive cfg clock runs chOfs frames rx).bind fun r =>
        (sideRuns ofShort positive cfg clock runs chOfs rest r.1).map fun r' =>
          (r'.1, r.2 ++ r'.2) := by
  cases runs with
  | false => rfl
  | true =>
    cases rx with
    | none => rfl
    | some rx =>
      simp only [sideRuns, runReceiver, soundRuns, if_true, Option.bind_eq_bind, Option.bind_some]
      cases soundRun ofShort positive cfg clock numCh chOfs (frames.flatMap Vector.toList)
        frames.length rx.1 rx.2 with
      | none => rfl
      | some r =>
        simp only [Option.bind_some, Option.pure_def]
        cases soundRuns ofShort positive cfg clock chOfs rest r.1 r.2.1 <;> rfl

/-- Without buffers nothing changes. -/
theorem sideRuns_nil {numCh : ℕ} {runs : Bool} {chOfs : ℕ} {rx : Option (Filter α × Receiver)}
    {r : Option (Filter α × Receiver) × List Call}
    (h : sideRuns ofShort positive cfg clock runs chOfs ([] : List (List (Vector Int16 numCh))) rx =
      some r) : r = (rx, []) := by
  cases runs with
  | false => exact (Option.some.inj h).symm
  | true =>
    cases rx with
    | none => cases h
    | some rx => exact (Option.some.inj h).symm

/-- A buffer with nothing in it is like none. -/
theorem runReceiver_nil {numCh : ℕ} (runs : Bool) (chOfs : ℕ) (rx : Option (Filter α × Receiver)) :
    runReceiver ofShort positive cfg clock runs chOfs ([] : List (Vector Int16 numCh)) rx =
      sideRuns ofShort positive cfg clock runs chOfs ([] : List (List (Vector Int16 numCh))) rx := by
  cases runs with
  | false => rfl
  | true => cases rx <;> rfl

variable {ofShort positive cfg clock}

/-- The receivers do not get in each other's way: each runs as it would alone, and makes
the calls it would make alone. The induction is on the buffers. -/
theorem mainLoop_sides {clock : Side → ℕ → ℤ} {sc : SoundChannels}
    {chunks : List (List (Vector Int16 sc.channels))} :
    ∀ {rxs after : Side → Option (Filter α × Receiver)} {calls : Side → List Call},
      (∀ side, sideRuns ofShort positive cfg (clock side) (sc.runs side) side.chOfs chunks
        (rxs side) = some (after side, calls side)) →
      ∃ all, mainLoop ofShort positive cfg clock sc chunks rxs = some (after, all) ∧
        ∀ side, callsOf side all = calls side := by
  induction chunks with
  | nil =>
    intro rxs after calls h
    have hsame := fun side => Prod.mk.inj (sideRuns_nil ofShort positive cfg (clock side) (h side))
    obtain rfl : after = rxs := funext fun side => (hsame side).1
    exact ⟨[], rfl, fun side => (hsame side).2.symm⟩
  | cons frames rest ih =>
    intro rxs after calls h
    -- each side alone, in the first turn and in the others
    have hsplit : ∀ side, ∃ mid first last,
        runReceiver ofShort positive cfg (clock side) (sc.runs side) side.chOfs frames
          (rxs side) = some (mid, first) ∧
        sideRuns ofShort positive cfg (clock side) (sc.runs side) side.chOfs rest mid =
          some (after side, last) ∧ calls side = first ++ last := by
      intro side
      have hside := h side
      rw [sideRuns_cons] at hside
      obtain ⟨⟨mid, first⟩, hfirst, hside⟩ := Option.bind_eq_some_iff.mp hside
      obtain ⟨⟨_, last⟩, hlast, heq⟩ := Option.map_eq_some_iff.mp hside
      obtain ⟨rfl, hcalls⟩ := Prod.mk.inj heq
      exact ⟨mid, first, last, hfirst, hlast, hcalls.symm⟩
    choose mid first last hfirst hlast hcalls using hsplit
    obtain ⟨all, hloop, hall⟩ := ih hlast
    rw [mainLoop]
    -- a buffer with nothing in it is skipped by the loop, and the sides do nothing with
    -- it
    by_cases hempty : frames = []
    · subst hempty
      have hsame := fun side => Prod.mk.inj (sideRuns_nil ofShort positive cfg (clock side)
        ((runReceiver_nil ofShort positive cfg (clock side) _ _ _).symm.trans (hfirst side)))
      obtain rfl : mid = rxs := funext fun side => (hsame side).1
      refine ⟨all, (if_pos rfl).trans hloop, fun side => ?_⟩
      rw [hall, hcalls, (hsame side).2, List.nil_append]
    · have hturn : mainTurn ofShort positive cfg clock sc frames rxs =
          some (mid, (first .a).map (Side.a, ·) ++ (first .b).map (Side.b, ·)) := by
        rw [mainTurn, hfirst, hfirst]
        refine congrArg (fun rxs => some (rxs, _)) (funext fun side => ?_)
        cases side <;> rfl
      refine ⟨(first .a).map (Side.a, ·) ++ (first .b).map (Side.b, ·) ++ all, ?_, fun side => ?_⟩
      · rw [if_neg hempty, hturn]
        simp only [Option.bind_eq_bind, Option.bind_some, hloop]
        rfl
      · rw [callsOf_append, callsOf_append, hall, hcalls]
        cases side with
        | a => rw [callsOf_own, callsOf_other (by decide), List.append_nil]
        | b => rw [callsOf_own, callsOf_other (by decide), List.nil_append]

end Loop

/-- The receiver of a side that runs is set up. -/
theorem initReceivers_runs {α : Type} [Zero α] {sc : SoundChannels} {side : Side}
    (hruns : sc.runs side = true) (f : Filter α) (mem : Side → Allocated) (serial ipc : Bool) :
    initReceivers sc f mem serial ipc side =
      some (f, initReceiver (mem side) serial ipc side.name) := by
  cases side with
  | a => rfl
  | b => exact if_neg fun hmono => absurd hruns (by rw [hmono]; decide)

/-- What a receiver that runs must have received, if these frames are on its channel: each
of them once, in order, bit for bit, and nothing lost. Both counters of what was lost are
at zero, so nothing came in pieces either. -/
def Receives (frames : List SentFrame) (rx : Receiver) (calls : List Call) : Prop :=
  rx.decoder.receivedframes = frames.length ∧ rx.decoder.lostframes = 0 ∧
    rx.decoder.lostframes2 = 0 ∧
    (getdataCalls calls).map (fun c => (c.1, c.2.toList.take c.1)) =
      frames.map fun f => (8 * f.octets.length, (f.octets.flatMap octetBE).map byte)

/-- One side alone gets through its chunks, and receives what its channel carries. A side
that does not run makes no calls. -/
theorem sideRuns_receives {α : Type} [Zero α] [Add α] [Mul α] {ofShort : Int16 → α}
    {positive : α → Bool} {taps : List α} (hrounds : Rounds ofShort positive taps) (cfg : Config)
    (clock : Side → ℕ → ℤ) (sc : SoundChannels) (mem : Side → Allocated) (serial ipc : Bool)
    {chunks : List (List (Vector Int16 sc.channels))} (hlen : ∀ c ∈ chunks, c.length ≤ filteredLen)
    {f : Filter α} (hinit : filterInit coeffsL taps = some f) (side : Side) :
    ∃ after calls,
      sideRuns ofShort positive cfg (clock side) (sc.runs side) side.chOfs chunks
        (initReceivers sc f mem serial ipc side) = some (after, calls) ∧
      ∀ h : sc.runs side = true, ∀ frames : List SentFrame,
        Heard (channel side.chOfs (SoundChannels.chOfs_lt h) chunks.flatten) frames →
        ∃ f' rx, after = some (f', rx) ∧ Receives frames rx calls := by
  by_cases hruns : sc.runs side = true
  · have hch := SoundChannels.chOfs_lt hruns
    obtain ⟨f₁, ⟨f', rx, bits, calls⟩, hinit', hrun⟩ := soundRuns_total hrounds cfg (clock side)
      (mem side) serial ipc side.name hch hlen
    obtain rfl : f₁ = f := Option.some.inj (hinit'.symm.trans hinit)
    refine ⟨some (f', rx), calls, ?_, fun _ frames hheard => ?_⟩
    · rw [sideRuns, if_pos hruns, initReceivers_runs hruns]
      simp only [Option.bind_eq_bind, Option.bind_some, hrun]
      rfl
    · obtain ⟨f₂, f'', rx', bits', calls', hinit'', hrun', hclose⟩ := soundRuns_frames hrounds cfg
        (clock side) (mem side) serial ipc side.name hch hlen hheard
      obtain rfl : f₂ = f₁ := Option.some.inj (hinit''.symm.trans hinit)
      rw [hrun] at hrun'
      obtain ⟨rfl, rfl, rfl, rfl⟩ := by simpa only [Option.some.injEq, Prod.mk.injEq] using hrun'
      exact ⟨_, _, rfl, closeAll_frames hclose⟩
  · exact ⟨_, [], if_neg hruns, fun h => absurd h hruns⟩

/-- The loop receives the frames on the channel of each receiver that runs, each once, in
order, bit for bit, whatever the other channel has: whatever sound that is, the loop gets
through it. Each buffer has room for what is read at once, and the sound of a channel may
be cut anywhere. -/
theorem main_receives {α : Type} [Zero α] [Add α] [Mul α] {ofShort : Int16 → α}
    {positive : α → Bool} {taps : List α} (hrounds : Rounds ofShort positive taps) (cfg : Config)
    (clock : Side → ℕ → ℤ) (sc : SoundChannels) (mem : Side → Allocated) (serial ipc : Bool)
    {chunks : List (List (Vector Int16 sc.channels))} (hlen : ∀ c ∈ chunks, c.length ≤ filteredLen) :
    ∃ f rxs calls, filterInit coeffsL taps = some f ∧
      mainLoop ofShort positive cfg clock sc chunks (initReceivers sc f mem serial ipc) =
        some (rxs, calls) ∧
      ∀ side, (h : sc.runs side = true) → ∀ frames : List SentFrame,
        Heard (channel side.chOfs (SoundChannels.chOfs_lt h) chunks.flatten) frames →
        ∃ f' rx, rxs side = some (f', rx) ∧
          rx.decoder.receivedframes = frames.length ∧ rx.decoder.lostframes = 0 ∧
          rx.decoder.lostframes2 = 0 ∧
          (getdataCalls (callsOf side calls)).map (fun c => (c.1, c.2.toList.take c.1)) =
            frames.map fun f => (8 * f.octets.length, (f.octets.flatMap octetBE).map byte) := by
  obtain ⟨f, hinit⟩ : ∃ f, filterInit coeffsL taps = some f :=
    ⟨_, if_pos hrounds.length_taps.ge⟩
  choose after calls hrun hreceived using
    sideRuns_receives hrounds cfg clock sc mem serial ipc hlen hinit
  obtain ⟨all, hloop, hall⟩ := mainLoop_sides hrun
  refine ⟨f, after, all, hinit, hloop, fun side hruns => ?_⟩
  rw [hall]
  exact hreceived side hruns

/-- The frame that is sent on the channel of a receiver. -/
def sideFrame : Side → SentFrame
  | .a => soundFrame
  | .b => otherFrame

/-- Two channels with a frame on each. -/
theorem main_receives_both :
    ∃ f rxs calls, filterInit coeffsL coeffs = some f ∧
      mainLoop sampleValue (fun out => decide (0 < out)) .silent (fun _ _ => 0) .both
        [shortSound.take 100, shortSound.drop 100]
        (initReceivers .both f (fun _ => .zeroed) false false) = some (rxs, calls) ∧
      ∀ side, SoundChannels.both.runs side = true → ∃ f' rx, rxs side = some (f', rx) ∧
        rx.decoder.receivedframes = 1 ∧ rx.decoder.lostframes = 0 ∧ rx.decoder.lostframes2 = 0 ∧
        (getdataCalls (callsOf side calls)).map (fun c => (c.1, c.2.toList.take c.1)) =
          [sideFrame side].map fun f =>
            (8 * f.octets.length, (f.octets.flatMap octetBE).map byte) := by
  obtain ⟨f, rxs, calls, hinit, hloop, hreceived⟩ := main_receives rounds_exact .silent
    (fun _ _ => 0) .both (fun _ => .zeroed) false false shortSound_fits
  refine ⟨f, rxs, calls, hinit, hloop, fun side hruns => hreceived side hruns [sideFrame side] ?_⟩
  cases side with
  | a => exact heard_first
  | b => exact heard_second

end Gnuais

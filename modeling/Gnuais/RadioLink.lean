import Gnuais.Receiver
import Gnuais.RoundTrip

/-!
# The radio link

A sender puts the bits of its frames on the air as symbols, a zero being a change of the
symbol; five samples of each reach the receiver. `radio_link` follows them through a
receiver as `init_receiver` leaves it: the first two zeros bring its clock into phase, the
stuffing keeps it there, and every frame is received.

* `nrzi` — the symbols of some bits.
* `signal` — their samples.
-/

namespace Gnuais

open Buffer Bits Hdlc

/-! ## Symbols and samples

The bits are those of the frames behind each other, with their gaps, flags and stuffing. A
zero is a change, so a long row of ones is a long row of equal symbols, and the clock runs
free in it. -/

/-- The symbols of some bits, after the symbol `s₀`. -/
def nrzi (s₀ : Bool) : List Bool → List Bool
  | [] => []
  | b :: bits => (b == s₀) :: nrzi (b == s₀) bits

/-- Five samples of each symbol. -/
def signal (bits : List Bool) : List Bool := (nrzi false bits).flatMap (List.replicate 5)

/-- The bits are read back from the symbols. -/
theorem symbolBits_nrzi (s₀ : Bool) (bits : List Bool) : symbolBits s₀ (nrzi s₀ bits) = bits := by
  induction bits generalizing s₀ with
  | nil => rfl
  | cons b bits ih =>
    have hbit : ((b == s₀) == s₀) = b := by cases b <;> cases s₀ <;> rfl
    have hcons : symbolBits s₀ ((b == s₀) :: nrzi (b == s₀) bits) =
        ((b == s₀) == s₀) :: symbolBits (b == s₀) (nrzi (b == s₀) bits) := rfl
    rw [nrzi, hcons, hbit, ih]

/-- Symbols like the one before them are ones. -/
theorem ones_of_start {k : ℕ} {s₀ : Bool} {bits : List Bool}
    (h : List.replicate k s₀ <+: nrzi s₀ bits) : List.replicate k true <+: bits := by
  induction bits generalizing k with
  | nil =>
    have hk := List.prefix_nil.mp h
    rw [List.replicate_eq_nil_iff] at hk
    rw [hk]
    exact List.nil_prefix
  | cons c bits ih =>
    cases k with
    | zero => exact List.nil_prefix
    | succ k =>
      rw [List.replicate_succ, nrzi, List.cons_prefix_cons] at h
      obtain ⟨hsame, hrest⟩ := h
      rw [← hsame] at hrest
      have hc : true = c := by cases c <;> cases s₀ <;> first | rfl | cases hsame
      rw [List.replicate_succ, List.cons_prefix_cons]
      exact ⟨hc, ih hrest⟩

/-- Equal symbols in a row are ones. -/
theorem ones_of_symbols {k : ℕ} {b s₀ : Bool} {bits : List Bool}
    (h : List.replicate (k + 1) b <:+: s₀ :: nrzi s₀ bits) : List.replicate k true <:+: bits := by
  induction bits generalizing s₀ with
  | nil =>
    have hlen := h.length_le
    rw [List.length_replicate, nrzi, List.length_singleton] at hlen
    obtain rfl : k = 0 := by omega
    exact List.nil_infix
  | cons c bits ih =>
    rcases List.infix_cons_iff.mp h with hfront | htail
    · rw [List.replicate_succ, List.cons_prefix_cons] at hfront
      obtain ⟨rfl, hrest⟩ := hfront
      exact (ones_of_start hrest).isInfix
    · exact (ih htail).trans (List.suffix_cons c bits).isInfix

/-! ## No long runs of ones

Stuffing leaves five ones in a row at most, and a flag has six. So there is an edge every
seven symbols at least. -/

/-- There are never seven ones in a row. -/
def Sparse (bits : List Bool) : Prop := ¬ List.replicate 7 true <:+: bits

/-- A run of ones ends at a zero. -/
theorem Sparse.append_zero {xs ys : List Bool} (hx : Sparse xs) (hy : Sparse ys) :
    Sparse (xs ++ false :: ys) := by
  intro h
  -- the zero is not among the ones
  have hzero : ∀ l, l ≠ [] → (∀ b ∈ l, b = true) → ¬ l <+: false :: ys := by
    intro l hne hl hprefix
    obtain ⟨b, l, rfl⟩ := List.exists_cons_of_ne_nil hne
    obtain ⟨rfl, -⟩ := List.cons_prefix_cons.mp hprefix
    exact Bool.false_ne_true (hl false (List.mem_cons_self ..))
  rcases List.infix_append_iff_ne_nil.mp h with h | h | ⟨l₁, l₂, -, hne, hl, -, hprefix⟩
  · exact hx h
  · rcases List.infix_cons_iff.mp h with h | h
    · exact hzero (List.replicate 7 true) (by decide) (fun b hb => List.eq_of_mem_replicate hb) h
    · exact hy h
  · refine hzero l₂ hne (fun b hb => List.eq_of_mem_replicate (n := 7) ?_) hprefix
    rw [hl]
    exact List.mem_append_right _ hb

/-- A short row of bits. -/
theorem sparse_of_length {xs : List Bool} (h : xs.length < 7) : Sparse xs := fun hsub => by
  have hlen := hsub.length_le
  rw [List.length_replicate] at hlen
  omega

/-- No bits at all. -/
theorem sparse_nil : Sparse [] := sparse_of_length (Nat.zero_lt_succ 6)

/-- Zeros in front of bits. -/
theorem sparse_gap {xs : List Bool} (hx : Sparse xs) (n : ℕ) :
    Sparse (List.replicate n false ++ xs) := by
  induction n with
  | zero => exact hx
  | succ n ih => exact sparse_nil.append_zero ih

/-- The stuffing keeps the data sparse. -/
theorem sparse_stuff (xs : List Bool) : Sparse (stuff xs) := fun h =>
  Clean.not_infix (clean_stuffFrom (Nat.zero_le 4) xs)
    ((List.IsInfix.trans ⟨[], [true], rfl⟩ h : List.replicate 6 true <:+: stuff xs))

/-- A flag between two rows of bits: it begins and ends with a zero. -/
theorem sparse_flag_append {xs ys : List Bool} (hx : Sparse xs) (hy : Sparse ys) :
    Sparse (xs ++ flag ++ ys) := by
  have hsplit : xs ++ flag ++ ys = xs ++ false :: (List.replicate 6 true ++ false :: ys) := by
    rw [List.append_assoc]
    rfl
  rw [hsplit]
  exact hx.append_zero ((sparse_of_length (by decide)).append_zero hy)

/-- The bits of a frame in front of others. -/
theorem SentFrame.sparse_append (f : SentFrame) {rest : List Bool} (hrest : Sparse rest) :
    Sparse (f.bits ++ rest) := by
  have htraining : Sparse (List.replicate f.gap false ++ alternate f.phase 24) :=
    sparse_gap (by cases f.phase <;> unfold Sparse <;> decide) f.gap
  have hend := sparse_flag_append (sparse_stuff f.image) hrest
  have hsplit : f.bits ++ rest = List.replicate f.gap false ++ alternate f.phase 24 ++ flag ++
      (stuff f.image ++ flag ++ rest) := by
    simp only [SentFrame.bits, List.append_assoc]
  rw [hsplit]
  exact sparse_flag_append htraining hend

/-- The bits of some frames. -/
theorem sparse_frames (frames : List SentFrame) : Sparse (frames.flatMap SentFrame.bits) := by
  induction frames with
  | nil => exact sparse_nil
  | cons f frames ih => exact f.sparse_append ih

/-- Without the first bit. -/
theorem sparse_tail {b : Bool} {bits : List Bool} (h : Sparse (b :: bits)) : Sparse bits :=
  fun hsub => h (hsub.trans (List.suffix_cons b bits).isInfix)

/-! ## The receiver

A new receiver has no phase yet. The first edge comes at a known place, since the receiver
starts with the first sample, and two of them bring it into phase. -/

section Link

variable (cfg : Config) (clock : ℕ → ℤ) (mem : Allocated) (serial ipc : Bool) (name : UInt8)

/-- A change of the symbol in the first half of the phase. -/
theorem receiverLoop_edge {s : Bool} {rx : Receiver} (hinc : rx.pllinc = 0x10000 / 5)
    (hprev : rx.prev = !s) (hlast : rx.lastbit = !s) (hlow : rx.pll < 0x10000 / 2) :
    receiverLoop cfg clock (List.replicate 5 s) rx =
      (protodecDecode cfg clock [false] rx.decoder).map fun r =>
        ({ rx with decoder := r.1, lastbit := s, prev := s, pll := rx.pll + 818 }, [false], r.2) := by
  have hkick : rx.pllinc / inc = 819 := hinc.symm ▸ rfl
  have hpulled : rx.pulled s = rx.pll + 819 := by
    rw [Receiver.pulled, hprev, if_pos (by cases s <;> decide), if_pos hlow, hkick]
  have hbit : (s == rx.lastbit) = false := by rw [hlast]; cases s <;> rfl
  rw [receiverLoop_symbol cfg clock hinc (by omega) (by omega), hpulled, hbit]
  rfl

/-- Two zeros bring the clock of a new receiver into phase, and each symbol gives its
bit. -/
theorem receiverLoop_signal {bits : List Bool} (h : Sparse bits) :
    ∃ rx : Receiver, receiverLoop cfg clock (signal (false :: false :: bits))
        (initReceiver mem serial ipc name) =
      (protodecDecode cfg clock (false :: false :: bits)
        (protodecInitialize mem serial ipc name)).map fun r =>
          ({ rx with decoder := r.1 }, false :: false :: bits, r.2) := by
  have hsymbols : signal (false :: false :: bits) = List.replicate 5 true ++
      (List.replicate 5 false ++ (nrzi false bits).flatMap (List.replicate 5)) := rfl
  -- a run of 801 equal symbols would be a run of ones, and sparse bits have none of seven
  have hruns : ∀ b, ¬ List.replicate 801 b <:+: List.replicate 1 false ++ nrzi false bits :=
    fun b hb => by
      have hseven : List.replicate 7 true <+: List.replicate 800 true :=
        ⟨List.replicate 793 true, List.replicate_append_replicate⟩
      exact h (hseven.isInfix.trans (ones_of_symbols hb))
  -- the two edges in front pull the phase from 0 to 1636, which is in phase
  have hfirst : receiverLoop cfg clock (List.replicate 5 true) (initReceiver mem serial ipc name) =
      (protodecDecode cfg clock [false] (protodecInitialize mem serial ipc name)).map fun r =>
        (⟨true, 818, 0x10000 / 5, true, r.1⟩, [false], r.2) :=
    receiverLoop_edge cfg clock rfl rfl rfl (show 0 < 0x10000 / 2 by decide)
  have hsecond : ∀ decoder, receiverLoop cfg clock (List.replicate 5 false)
      ⟨true, 818, 0x10000 / 5, true, decoder⟩ =
      (protodecDecode cfg clock [false] decoder).map fun r =>
        (⟨false, 1636, 0x10000 / 5, false, r.1⟩, [false], r.2) := fun decoder =>
    receiverLoop_edge cfg clock rfl rfl rfl (show 818 < 0x10000 / 2 by decide)
  have hbits : false :: false :: bits = [false] ++ ([false] ++ bits) := rfl
  rw [hsymbols, hbits, receiverLoop_append, hfirst, protodecDecode_append]
  cases protodecDecode cfg clock [false] (protodecInitialize mem serial ipc name) with
  | none => exact ⟨initReceiver mem serial ipc name, rfl⟩
  | some r =>
    rw [Option.map_some, Option.bind_some, Option.bind_some, receiverLoop_append, hsecond,
      protodecDecode_append]
    cases protodecDecode cfg clock [false] r.1 with
    | none => exact ⟨initReceiver mem serial ipc name, rfl⟩
    | some r' =>
      obtain ⟨pll, hrest⟩ := receiverLoop_symbols cfg clock (nrzi false bits)
        ⟨false, 1636, 0x10000 / 5, false, r'.1⟩ false 1
        ⟨rfl, rfl, rfl, (by decide : 820 ≤ 1636 + 1), (by decide : 1636 ≤ 0xffff)⟩ hruns
      simp only [Option.map_some, Option.bind_some, hrest, symbolBits_nrzi]
      refine ⟨⟨(nrzi false bits).getLastD false, pll, 0x10000 / 5,
        (nrzi false bits).getLastD false, r'.1⟩, ?_⟩
      cases protodecDecode cfg clock bits r'.1 with
      | none => rfl
      | some r'' => rfl

/-- The receiver's decoder closes the frames on the air and no others. -/
theorem receiverRuns_frames {frames : List SentFrame} (hlead : ∀ f ∈ frames.head?, 2 ≤ f.gap)
    {chunks : List (List Bool)} (hchunks : chunks.flatten = signal (frames.flatMap SentFrame.bits))
    (hlen : ∀ c ∈ chunks, c.length ≤ filteredLen) :
    ∃ rx calls,
      receiverRuns cfg clock chunks (initReceiver mem serial ipc name) =
        some (rx, frames.flatMap SentFrame.bits, calls) ∧
      closeAll cfg clock (frames.map fun f => .frame f.collected)
        (protodecInitialize mem serial ipc name).tally = some (rx.decoder.tally, calls) := by
  rw [receiverRuns_flatten cfg clock chunks hlen, hchunks]
  obtain ⟨d, calls, hrun, -, hclose⟩ := decode_simulates cfg clock
    (frames.flatMap SentFrame.bits) (simulates_initial mem serial ipc name)
  rw [(run_allSent frames).2] at hclose
  cases frames with
  | nil =>
    obtain ⟨rfl, rfl⟩ := Prod.mk.inj (Option.some.inj hrun)
    exact ⟨_, _, rfl, hclose⟩
  | cons f frames =>
    -- the two zeros in front are those that the clock needs
    obtain ⟨n, hgap⟩ : ∃ n, f.gap = n + 2 := ⟨f.gap - 2, by have := hlead f rfl; omega⟩
    have hsplit : (f :: frames).flatMap SentFrame.bits =
        false :: false :: ({ f with gap := n } :: frames).flatMap SentFrame.bits := by
      simp only [List.flatMap_cons, SentFrame.bits, hgap, List.replicate_succ, List.cons_append,
        SentFrame.image]
    obtain ⟨rx, hloop⟩ := receiverLoop_signal cfg clock mem serial ipc name
      (sparse_frames ({ f with gap := n } :: frames))
    rw [← hsplit, hrun] at hloop
    exact ⟨{ rx with decoder := d }, calls, hloop, hclose⟩

/-- The frames that were sent are accepted. -/
theorem accepted_frames (frames : List SentFrame) :
    (frames.map fun f => Closing.frame f.collected).flatMap Closing.accepted =
      frames.map fun f => (8 * f.octets.length, rbufferOf f.octets) := by
  rw [List.flatMap_map, List.map_eq_flatMap]
  simp only [SentFrame.accepted_collected]

/-- What is counted and handed over when the frames are closed. -/
theorem closeAll_frames {cfg : Config} {clock : ℕ → ℤ} {mem : Allocated} {serial ipc : Bool}
    {name : UInt8} {frames : List SentFrame} {d : DemodState} {calls : List Call}
    (h : closeAll cfg clock (frames.map fun f => .frame f.collected)
      (protodecInitialize mem serial ipc name).tally = some (d.tally, calls)) :
    d.receivedframes = frames.length ∧ d.lostframes = 0 ∧ d.lostframes2 = 0 ∧
      (getdataCalls calls).map (fun c => (c.1, c.2.toList.take c.1)) =
        frames.map fun f => (8 * f.octets.length, (f.octets.flatMap octetBE).map byte) := by
  obtain ⟨hcalls, hcount, hlost⟩ := closeAll_accepted h
  rw [accepted_frames] at hcalls hcount
  obtain ⟨hlost₁, hlost₂⟩ := hlost fun c hc => by
    obtain ⟨f, -, rfl⟩ := List.mem_map.mp hc
    rw [f.accepted_collected]
    exact List.cons_ne_nil _ _
  rw [List.length_map] at hcount
  refine ⟨hcount.trans (Nat.zero_add _), hlost₁, hlost₂, ?_⟩
  rw [hcalls, List.map_map]
  refine List.map_congr_left fun f _ => ?_
  have hfits := f.fits
  rw [Function.comp_apply, take_rbufferOf _ (by omega)]

/-- Every frame on the air is received by a new receiver, once, in order, bit for bit, in
any number of calls, if the first frame begins with two zeros; nothing else is counted.
Two zeros are enough because each is an edge, and the line is low before the first. -/
theorem radio_link (frames : List SentFrame) (hlead : ∀ f ∈ frames.head?, 2 ≤ f.gap)
    (chunks : List (List Bool)) (hchunks : chunks.flatten = signal (frames.flatMap SentFrame.bits))
    (hlen : ∀ c ∈ chunks, c.length ≤ filteredLen) :
    ∃ rx calls,
      receiverRuns cfg clock chunks (initReceiver mem serial ipc name) =
        some (rx, frames.flatMap SentFrame.bits, calls) ∧
      rx.decoder.receivedframes = frames.length ∧ rx.decoder.lostframes = 0 ∧
      rx.decoder.lostframes2 = 0 ∧
      (getdataCalls calls).map (fun c => (c.1, c.2.toList.take c.1)) =
        frames.map fun f => (8 * f.octets.length, (f.octets.flatMap octetBE).map byte) := by
  obtain ⟨rx, calls, hrun, hclose⟩ := receiverRuns_frames cfg clock mem serial ipc name hlead
    hchunks hlen
  exact ⟨rx, calls, hrun, closeAll_frames hclose⟩

end Link

/-- A frame of one octet behind two zeros. -/
def shortFrame : SentFrame := ⟨2, false, [0x5a], by decide, by decide⟩

/-- It is received in two calls. -/
theorem radio_link_short :
    ∃ rx calls, receiverRuns .silent (fun _ => 0)
        [(signal ([shortFrame].flatMap SentFrame.bits)).take 100,
          (signal ([shortFrame].flatMap SentFrame.bits)).drop 100]
        (initReceiver .zeroed false false 65) =
        some (rx, [shortFrame].flatMap SentFrame.bits, calls) ∧
      rx.decoder.receivedframes = 1 ∧ rx.decoder.lostframes = 0 ∧ rx.decoder.lostframes2 = 0 ∧
      (getdataCalls calls).map (fun c => (c.1, c.2.toList.take c.1)) =
        [shortFrame].map fun f => (8 * f.octets.length, (f.octets.flatMap octetBE).map byte) :=
  radio_link .silent (fun _ => 0) .zeroed false false 65 [shortFrame]
    (fun f hf => by obtain rfl := Option.some.inj hf; decide) _
    (by rw [List.flatten_cons, List.flatten_singleton, List.take_append_drop])
    (by decide +kernel)

end Gnuais

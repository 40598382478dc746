import Gnuais.Framing

/-!
# Frames sent are frames received

`SentFrame.bits` is what a sender puts on the air for one frame: a gap of
zeros, 24 training bits in either phase, the start flag, the stuffed octets
with their frame check sequence, and the closing flag.

`decode_sent` says that a fresh decoder fed any number of such frames, one
directly after the other, receives exactly these frames in this order.
-/

namespace Gnuais

open Buffer Bits Hdlc

/-- A frame to be sent. The decoder's buffer has room for 53 octets. The gap may be empty,
and the frames of a stream need not have the same phase. -/
structure SentFrame where
  /-- zeros before the training sequence -/
  gap : ℕ
  /-- the first training bit -/
  phase : Bool
  /-- the message, as the sender has it -/
  octets : List UInt8
  /-- a frame without data is refused by the check -/
  nonempty : 1 ≤ octets.length
  /-- 53 octets and the check sequence are as much as the buffer holds -/
  fits : octets.length ≤ 53

namespace SentFrame

/-- The octets and their check sequence, least significant bits first. -/
def image (f : SentFrame) : List Bool :=
  (f.octets ++ fcsOctets (protodecSdlcCrc f.octets)).flatMap octetLE

/-- The frame on the air. -/
def bits (f : SentFrame) : List Bool :=
  List.replicate f.gap false ++ alternate f.phase 24 ++ flag ++ stuff f.image ++ flag

/-- What the decoder has collected when the closing flag is complete: the
image and the flag up to its fifth one. -/
def collected (f : SentFrame) : List Bool := f.image ++ [false, true, true, true, true, true]

/-- Eight bits an octet, and sixteen for the check sequence. -/
theorem length_image (f : SentFrame) : f.image.length = 8 * f.octets.length + 16 := by
  rw [image, List.length_flatMap]
  simp [fcsOctets]
  omega

/-- And six bits of the flag. -/
theorem length_collected (f : SentFrame) : f.collected.length = 8 * f.octets.length + 22 := by
  rw [collected, List.length_append, length_image]
  rfl

/-- The octets that are packed are those that were sent. -/
theorem octetsOf_collected (f : SentFrame) :
    octetsOf f.collected f.octets.length = f.octets := by
  rw [collected, image, List.flatMap_append, List.append_assoc]
  exact octetsOf_flatMap _ _

/-- They pass the check. -/
theorem checkPasses_collected (f : SentFrame) :
    checkPasses f.collected (f.collected.length - 22) = true := by
  have hlen : (f.collected.length - 22) / 8 + 2 =
      (f.octets ++ fcsOctets (protodecSdlcCrc f.octets)).length := by
    rw [length_collected, List.length_append]
    simp [fcsOctets]
  rw [checkPasses, hlen, collected, image, octetsOf_flatMap, decide_eq_true_iff]
  exact (residue_check_iff f.octets _ _).mpr rfl

/-- The decoder accepts what was sent. -/
theorem accepted_collected (f : SentFrame) :
    (Closing.frame f.collected).accepted = [(8 * f.octets.length, rbufferOf f.octets)] := by
  have hlen : f.collected.length - 22 = 8 * f.octets.length := by
    rw [length_collected]
    omega
  rw [Closing.accepted, if_pos f.checkPasses_collected, frameOf, hlen,
    Nat.mul_div_cancel_left _ (by omega), octetsOf_collected]

end SentFrame

/-! ## One frame through the deframer

The deframer is at its start in front of the frame and again behind it, so one frame says
nothing about the next. -/

/-- Zeros change nothing while the deframer waits. -/
theorem run_gap (n : ℕ) :
    Deframer.start.run (List.replicate n false) = .start ∧
    Deframer.start.closings (List.replicate n false) = [] := by
  induction n with
  | zero => exact ⟨rfl, rfl⟩
  | succ n ih => exact ih

/-- Training and the start flag, in both phases. -/
theorem run_training (phase : Bool) :
    Deframer.start.run (alternate phase 24 ++ flag) = .data [] 0 ∧
    Deframer.start.closings (alternate phase 24 ++ flag) = [] := by
  cases phase <;> exact ⟨by decide, by decide⟩

/-- The stuffed image and the closing flag: one frame is closed, and the
deframer is as at the start. -/
theorem run_image (f : SentFrame) :
    (Deframer.data [] 0).run (stuff f.image ++ flag) = .start ∧
    (Deframer.data [] 0).closings (stuff f.image ++ flag) = [.frame f.collected] := by
  have hfits := f.fits
  have hlen := f.length_collected
  have hle : onesFrom 0 (stuff f.image) ≤ 4 := onesFrom_stuffFrom (Nat.zero_le 4) _
  generalize hn : onesFrom 0 (stuff f.image) = n at hle
  have hnot : n ≠ 5 := by omega
  have hzero : nextOnes n false = 0 := by rw [nextOnes, if_neg hnot]; rfl
  -- the flag up to its fifth one is collected like data
  have hclean : Clean 0 (stuff f.image ++ [false, true, true, true, true, true]) := by
    rw [clean_append, hn]
    refine ⟨clean_stuffFrom (Nat.zero_le 4) _, fun h5 => absurd h5 hnot, ?_⟩
    rw [hzero]
    simp [Clean, nextOnes]
  have hones : onesFrom 0 (stuff f.image ++ [false, true, true, true, true, true]) = 5 := by
    rw [onesFrom_append, hn, onesFrom_cons, hzero]
    rfl
  have hraw : unstuffFrom 0 (stuff f.image ++ [false, true, true, true, true, true]) =
      f.collected := by
    rw [unstuffFrom_append, hn, stuff, unstuffFrom_stuffFrom (Nat.zero_le 4), unstuffFrom,
      if_neg hnot, hzero]
    rfl
  obtain ⟨hrun, hclosings⟩ := Deframer.run_clean _ [] 0 hclean
    (by rw [hraw, hlen, List.length_nil]; omega)
  rw [hraw, hones, List.nil_append] at hrun
  have hsplit : stuff f.image ++ flag =
      (stuff f.image ++ [false, true, true, true, true, true]) ++ [true, false] := by
    rw [List.append_assoc]
    rfl
  rw [hsplit, Deframer.run_append, Deframer.closings_append, hrun, hclosings]
  refine ⟨rfl, ?_⟩
  have hnonempty := f.nonempty
  simp only [Deframer.closings, Deframer.closing, Deframer.step, Deframer.stepData, if_true,
    List.nil_append, List.append_nil]
  rw [if_pos ⟨trivial, by omega⟩]

/-- One frame leaves the deframer where it was and closes once. -/
theorem run_sent (f : SentFrame) :
    Deframer.start.run f.bits = .start ∧
    Deframer.start.closings f.bits = [.frame f.collected] := by
  obtain ⟨hgap, hgap'⟩ := run_gap f.gap
  obtain ⟨htrain, htrain'⟩ := run_training f.phase
  obtain ⟨himage, himage'⟩ := run_image f
  have hsplit : f.bits = List.replicate f.gap false ++
      ((alternate f.phase 24 ++ flag) ++ (stuff f.image ++ flag)) := by
    simp only [SentFrame.bits, List.append_assoc]
  rw [hsplit, Deframer.run_append, hgap, Deframer.run_append, htrain, himage,
    Deframer.closings_append, hgap, hgap', Deframer.closings_append, htrain, htrain', himage']
  exact ⟨rfl, rfl⟩

/-! ## Any number of frames

The induction is on the frames. What it carries is the state of the deframer between two
of them. -/

/-- The frames one after the other: each is closed, and nothing else is. -/
theorem run_allSent (frames : List SentFrame) :
    Deframer.start.run (frames.flatMap SentFrame.bits) = .start ∧
    Deframer.start.closings (frames.flatMap SentFrame.bits) =
      frames.map fun f => .frame f.collected := by
  induction frames with
  | nil => exact ⟨rfl, rfl⟩
  | cons f frames ih =>
    obtain ⟨hrun, hclosings⟩ := run_sent f
    rw [List.flatMap_cons, Deframer.run_append, Deframer.closings_append, hrun, hclosings, ih.1,
      ih.2]
    exact ⟨rfl, rfl⟩

/-- The octets of a frame, as `rbuffer` holds them. -/
theorem take_rbufferOf (octets : List UInt8) (h : octets.length ≤ 56) :
    (rbufferOf octets).toList.take (8 * octets.length) = (octets.flatMap octetBE).map byte := by
  have hlen : ((octets.flatMap octetBE).map byte).length = 8 * octets.length := by
    rw [List.length_map, List.length_flatMap]
    simp [mul_comm]
  rw [← hlen, rbufferOf]
  exact take_splice _ _ (by rw [hlen]; change _ ≤ 450; omega)

/-- Every frame sent is received, once, in order, bit for bit, and nothing else is
counted. Both phases of the training sequence are received, and no gap is needed between
two frames. -/
theorem decode_sent (cfg : Config) (clock : ℕ → ℤ) (mem : Allocated) (serial ipc : Bool)
    (chanid : UInt8) (frames : List SentFrame) :
    ∃ d calls,
      protodecDecode cfg clock (frames.flatMap SentFrame.bits)
        (protodecInitialize mem serial ipc chanid) = some (d, calls) ∧
      d.receivedframes =
        (protodecInitialize mem serial ipc chanid).receivedframes + frames.length ∧
      d.lostframes = (protodecInitialize mem serial ipc chanid).lostframes ∧
      d.lostframes2 = (protodecInitialize mem serial ipc chanid).lostframes2 ∧
      (getdataCalls calls).map (fun c => (c.1, c.2.toList.take c.1)) =
        frames.map fun f => (8 * f.octets.length, (f.octets.flatMap octetBE).map byte) := by
  obtain ⟨d, calls, hrun, -, hclose⟩ := decode_simulates cfg clock
    (frames.flatMap SentFrame.bits) (simulates_initial mem serial ipc chanid)
  rw [(run_allSent frames).2] at hclose
  obtain ⟨hcalls, hcount, hlost⟩ := closeAll_accepted hclose
  have hflat : ∀ frames : List SentFrame,
      (frames.map fun f => Closing.frame f.collected).flatMap Closing.accepted =
        frames.map fun f => (8 * f.octets.length, rbufferOf f.octets) := by
    intro frames
    induction frames with
    | nil => rfl
    | cons f frames ih =>
      rw [List.map_cons, List.flatMap_cons, ih, f.accepted_collected]
      rfl
  rw [hflat] at hcalls hcount
  rw [List.length_map] at hcount
  obtain ⟨hlost₁, hlost₂⟩ := hlost fun c hc => by
    obtain ⟨f, -, rfl⟩ := List.mem_map.mp hc
    rw [f.accepted_collected]
    exact List.cons_ne_nil _ _
  refine ⟨d, calls, hrun, hcount, hlost₁, hlost₂, ?_⟩
  rw [hcalls, List.map_map]
  refine List.map_congr_left fun f _ => ?_
  have hfits := f.fits
  rw [Function.comp_apply, take_rbufferOf _ (by omega)]

end Gnuais

import Gnuais.Framing
import Gnuais.Sentences

/-!
# Everything stays inside its buffer

A run of the model is `none` when an array is accessed outside its bounds, so
the first half of `decode_in_bounds` is that no run is. The second half is
about what the model does not make a fault of: the strings formatted for the
serial port and the socket are never cut off, the checksum's `*` is inside
each sentence, and the error branches of the frame check are never taken.

All of it rests on the room the data state leaves: at most 448 bits are ever
collected (`frame_fits`), so a message has at most 426.
-/

namespace Gnuais

open Buffer Bits

/-! ## At most 448 bits

The decoder gives up when the buffer is nearly full. The invariant is the number of bits
it had collected then. -/

/-- The collected bits are not too many. -/
def Deframer.Fits : Deframer → Prop
  | .data payload _ => payload.length ≤ 448
  | .stop payload => payload.length ≤ 448
  | _ => True

/-- The frame of a closing has a message, and not too long a one. -/
def Closing.Fits : Closing → Prop
  | .frame payload => 22 < payload.length ∧ payload.length ≤ 448
  | .error => True

/-- One bit of the stream. -/
theorem fits_step {a : Deframer} (h : a.Fits) (b : Bool) : (a.step b).Fits := by
  cases a with
  | data payload ones =>
    rw [Deframer.step, Deframer.stepData]
    split
    · split
      · exact h
      · exact h
    · split
      · trivial
      · change (payload ++ [b]).length ≤ 448
        rw [List.length_append, List.length_singleton]
        omega
  | stop payload => trivial
  | skurr alternations nstartsign last =>
    rw [Deframer.step, Deframer.stepSkurr]
    generalize (if b ≠ last then alternations + 1 else 0) = k
    split <;> trivial
  | preamble nstartsign last =>
    rw [Deframer.step, Deframer.stepPreamble]
    split
    · trivial
    · split
      · split
        · trivial
        · split <;> trivial
      · split <;> trivial
  | startsign nstartsign =>
    rw [Deframer.step, Deframer.stepStartsign]
    split
    · split
      · exact Nat.zero_le _
      · trivial
    · split <;> trivial

/-- Any number of them. -/
theorem fits_run (bits : List Bool) : ∀ {a : Deframer}, a.Fits → (a.run bits).Fits := by
  induction bits with
  | nil => exact fun h => h
  | cons b bits ih => exact fun h => ih (fits_step h b)

/-- The frame that a closing hands over. -/
theorem fits_closing {a : Deframer} (h : a.Fits) (b : Bool) : ∀ c ∈ a.closing b, c.Fits := by
  cases a with
  | stop payload =>
    intro c hc
    rw [List.mem_singleton.mp hc]
    split
    · rename_i hframe
      exact ⟨hframe.2, h⟩
    · trivial
  | _ => intro c hc; cases hc

/-- All closings of a run. -/
theorem fits_closings (bits : List Bool) :
    ∀ {a : Deframer}, a.Fits → ∀ c ∈ a.closings bits, c.Fits := by
  induction bits with
  | nil => intro a _ c hc; cases hc
  | cons b bits ih =>
    intro a h c hc
    rcases List.mem_append.mp hc with hc | hc
    · exact fits_closing h b c hc
    · exact ih (fits_step h b) c hc

/-! ## Frames of bits

`rbuffer` holds one bit a byte. The letters of a sentence are made of six of these bytes
by shifting, so they are letters only if the bytes are bits. -/

/-- Bits stored into bits. -/
theorem isBits_splice {frame : Frame} (h : IsBits frame) {off : ℕ} {xs : List UInt8}
    (hfit : off + xs.length ≤ demodBufferLen) (hxs : ∀ x ∈ xs, x = 0 ∨ x = 1) :
    IsBits (splice frame off xs) := by
  intro i x hx
  rw [getElem?_splice _ _ _ _ hfit] at hx
  split at hx
  · exact hxs x (List.mem_of_getElem? hx)
  · exact h i x hx

/-- The array of a frame. -/
theorem isBits_rbufferOf {octets : List UInt8} (h : octets.length ≤ 56) :
    IsBits (rbufferOf octets) := by
  have hlen : ((octets.flatMap octetBE).map byte).length = 8 * octets.length := by
    rw [List.length_map, List.length_flatMap]
    simp [mul_comm]
  refine isBits_splice (fun i x hx => ?_) (by rw [hlen]; change _ ≤ 450; omega) ?_
  · rw [Vector.getElem?_replicate] at hx
    split at hx
    · exact .inl (Option.some.inj hx).symm
    · cases hx
  · intro x hx
    obtain ⟨b, -, rfl⟩ := List.mem_map.mp hx
    cases b
    · exact .inl rfl
    · exact .inr rfl

/-- The array of some bits. -/
theorem isBits_frameOf {payload : List Bool} (h : payload.length ≤ 448) :
    IsBits (frameOf payload) :=
  isBits_rbufferOf (by rw [length_octetsOf]; omega)

/-- A message with its fill bits. -/
theorem isBits_padded {frame : Frame} (h : IsBits frame) {bufferlen : ℕ}
    (hfit : bufferlen + fillbitsOf bufferlen ≤ demodBufferLen) :
    ∃ padded, storeAt frame bufferlen (List.replicate (fillbitsOf bufferlen) 0) = some padded ∧
      IsBits padded := by
  have hlen : bufferlen + (List.replicate (fillbitsOf bufferlen) (0 : UInt8)).length ≤
      demodBufferLen := by
    rw [List.length_replicate]
    exact hfit
  exact ⟨_, storeAt_eq _ _ _ hlen,
    isBits_splice h hlen fun x hx => .inl (List.eq_of_mem_replicate hx)⟩

/-! ## Calls

What the calls are given is bounded by the length of the message. The length decides how
many sentences there are, and how long the longest one is. -/

/-- What holds of a call's arguments: nothing is logged, messages are short, and the
strings fit the buffers they were formatted in. For a string that was formatted with
`snprintf` this is more than that no byte was written outside: none was dropped either. -/
def Call.InBounds : Call → Prop
  | .hlog _ => False
  | .getdata bufferlen rbuffer => (0 < bufferlen ∧ bufferlen ≤ 426) ∧ IsBits rbuffer
  | .serialWrite s => s.length < serbufferLen
  | .ipcWrite s => s.length < ipcbufferLen
  | _ => True

/-- Reports have no bounds to keep. -/
theorem inBounds_reports {reports : List Call} (h : reports.all Call.isReport) :
    ∀ c ∈ reports, c.InBounds := by
  intro c hc
  have := List.all_eq_true.mp h c hc
  cases c <;> trivial

/-- The sentences of a frame, each short enough for both buffers and with its
`*` inside. -/
theorem sentences_inBounds {rbuffer : Frame} (h : IsBits rbuffer) {bufferlen : ℕ}
    (hpos : 0 < bufferlen) (hfit : bufferlen ≤ 426) {seqnr : UInt8} (hseqnr : seqnr ≤ 9) :
    ∃ padded bodies,
      storeAt rbuffer bufferlen (List.replicate (fillbitsOf bufferlen) 0) = some padded ∧
      nmeaBodies padded seqnr (bufferlen + fillbitsOf bufferlen) (fillbitsOf bufferlen) =
        some bodies ∧
      ∀ body ∈ bodies, (33 :: body ++ [13, 10]).length < serbufferLen ∧
        (33 :: body).length < ipcbufferLen ∧ 42 ∈ body := by
  have hfill := fillbitsOf_le bufferlen
  have h6 := padded_mod bufferlen
  have hfit' : bufferlen + fillbitsOf bufferlen ≤ 450 := by omega
  obtain ⟨padded, hpadded, hbits⟩ := isBits_padded h hfit'
  refine ⟨padded, _, hpadded, nmeaBodies_eq hbits (by omega) h6 hfit' hseqnr hfill, ?_⟩
  intro body hbody
  obtain ⟨s, hs, rfl⟩ := List.mem_map.mp hbody
  have hlen := (messageSentences_wellFormed _ h6 hfit' hseqnr hfill s hs).length_text
  simp only [Sentence.text, List.length_append, List.length_cons, List.length_nil] at hlen
  refine ⟨?_, ?_, by simp [Sentence.body]⟩
  · simp only [List.length_append, List.length_cons, List.length_nil]
    change _ < 100
    omega
  · rw [List.length_cons]
    change _ < 255
    omega

/-- The sequence number stays a digit. -/
theorem nextSeqnr_le (seqnr : UInt8) : nextSeqnr seqnr ≤ 9 := by
  rw [nextSeqnr]
  split
  · decide
  · rename_i h
    exact UInt8.not_lt.mp h

/-- Handling a frame of bits stays in bounds and keeps the sequence number a
digit. -/
theorem getdataObs_inBounds {cfg : Config} {receivedT : ℤ} {bufferlen : ℕ} {rbuffer : Frame}
    {chanid seqnr seqnr' : UInt8} {serial ipc : Bool} {calls : List Call}
    (h : getdataObs cfg receivedT bufferlen rbuffer chanid seqnr serial ipc = some (calls, seqnr'))
    (hbits : IsBits rbuffer) (hpos : 0 < bufferlen) (hfit : bufferlen ≤ 426)
    (hseqnr : seqnr ≤ 9) : seqnr' ≤ 9 ∧ ∀ c ∈ calls, c.InBounds := by
  rcases getdataObs_some h with ⟨-, rfl, rfl⟩ | ⟨-, rfl, padded, bodies, reports, hpadded, hbodies,
    rfl, hreports⟩
  · exact ⟨hseqnr, fun c hc => by cases hc⟩
  obtain ⟨padded', bodies', hpadded', hbodies', hshort⟩ :=
    sentences_inBounds hbits hpos hfit hseqnr
  obtain rfl := Option.some.inj (hpadded'.symm.trans hpadded)
  obtain rfl := Option.some.inj (hbodies'.symm.trans hbodies)
  refine ⟨nextSeqnr_le seqnr, fun c hc => ?_⟩
  rcases List.mem_append.mp hc with hc | hc
  · obtain ⟨body, hbody, hc⟩ := List.mem_flatMap.mp hc
    obtain ⟨hserial, hipc, -⟩ := hshort body hbody
    simp only [sinkCalls, callIf, List.mem_append] at hc
    rcases hc with (hc | hc) | hc
    · cases serial
      · cases hc
      · rw [List.mem_singleton.mp hc]
        exact hserial
    · cases ipc
      · cases hc
      · rw [List.mem_singleton.mp hc]
        exact hipc
    · cases hmy : cfg.my <;> rw [hmy] at hc
      · cases hc
      · rw [List.mem_singleton.mp hc]
        trivial
  · exact inBounds_reports hreports c hc

/-! ## Runs

The run theorem has no hypothesis: a fresh decoder may be given any bits. -/

/-- The closings of a run, step by step. -/
theorem closeAll_inBounds {cfg : Config} {clock : ℕ → ℤ} (cs : List Closing) :
    ∀ {y y' : Tally} {calls : List Call}, (∀ c ∈ cs, c.Fits) → y.seqnr ≤ 9 →
      closeAll cfg clock cs y = some (y', calls) →
      y'.seqnr ≤ 9 ∧ ∀ c ∈ calls, c.InBounds := by
  induction cs with
  | nil =>
    intro y y' calls _ hseqnr h
    obtain ⟨rfl, rfl⟩ := Prod.mk.inj (Option.some.inj h)
    exact ⟨hseqnr, fun c hc => by cases hc⟩
  | cons c cs ih =>
    intro y y' calls hfits hseqnr h
    obtain ⟨⟨y₁, calls₁⟩, hclose, h⟩ := Option.bind_eq_some_iff.mp h
    obtain ⟨⟨y₂, calls₂⟩, hrest, h⟩ := Option.bind_eq_some_iff.mp h
    obtain ⟨rfl, rfl⟩ := Prod.mk.inj (Option.some.inj h)
    have hone : y₁.seqnr ≤ 9 ∧ ∀ c ∈ calls₁, c.InBounds := by
      rcases (close_cases hclose).2 with ⟨-, rfl, hseq⟩ | ⟨payload, calls', rfl, -, hobs, rfl⟩
      · exact ⟨hseq ▸ hseqnr, fun c hc => by cases hc⟩
      · obtain ⟨hlong, hfit⟩ := hfits _ (List.mem_cons_self ..)
        have hbits := isBits_frameOf hfit
        obtain ⟨hnext, hcalls⟩ := getdataObs_inBounds hobs hbits (by omega) (by omega) hseqnr
        refine ⟨hnext, fun c hc => ?_⟩
        rcases List.mem_cons.mp hc with rfl | hc
        · exact ⟨⟨by omega, by omega⟩, hbits⟩
        · exact hcalls c hc
    obtain ⟨hseqnr₂, hcalls₂⟩ := ih (fun c hc => hfits c (List.mem_cons_of_mem _ hc)) hone.1 hrest
    refine ⟨hseqnr₂, fun c hc => ?_⟩
    rcases List.mem_append.mp hc with hc | hc
    · exact hone.2 c hc
    · exact hcalls₂ c hc

/-- No stream of bits makes the decoder leave its buffers. Every access is inside its
array, nothing is logged, the strings for the serial port and the socket are not cut off,
and every sentence of an accepted frame fits the buffers it is formatted in and has its
`*` inside. There is no hypothesis on the stream: it may be noise, a frame that never
ends, or flags only. -/
theorem decode_in_bounds (cfg : Config) (clock : ℕ → ℤ) (mem : Allocated) (serial ipc : Bool)
    (chanid : UInt8) (bits : List Bool) :
    ∃ d calls,
      protodecDecode cfg clock bits (protodecInitialize mem serial ipc chanid) =
        some (d, calls) ∧
      (∀ msg, Call.hlog msg ∉ calls) ∧
      (∀ s, Call.serialWrite s ∈ calls → s.length < serbufferLen) ∧
      (∀ s, Call.ipcWrite s ∈ calls → s.length < ipcbufferLen) ∧
      ∀ bufferlen rbuffer, Call.getdata bufferlen rbuffer ∈ calls → ∀ seqnr : UInt8, seqnr ≤ 9 →
        ∃ padded bodies,
          storeAt rbuffer bufferlen (List.replicate (fillbitsOf bufferlen) 0) = some padded ∧
          nmeaBodies padded seqnr (bufferlen + fillbitsOf bufferlen) (fillbitsOf bufferlen) =
            some bodies ∧
          ∀ body ∈ bodies, (33 :: body ++ [13, 10]).length < serbufferLen ∧
            (33 :: body).length < ipcbufferLen ∧ 42 ∈ body := by
  obtain ⟨d, calls, hrun, -, hclose⟩ := decode_simulates cfg clock bits
    (simulates_initial mem serial ipc chanid)
  have hfits : ∀ c ∈ Deframer.start.closings bits, c.Fits :=
    fits_closings bits (show Deframer.start.Fits from trivial)
  obtain ⟨-, hcalls⟩ := closeAll_inBounds _ hfits (show (0 : UInt8) ≤ 9 by decide) hclose
  refine ⟨d, calls, hrun, fun msg hm => hcalls _ hm, fun s hm => hcalls _ hm,
    fun s hm => hcalls _ hm, fun bufferlen rbuffer hm seqnr hseqnr => ?_⟩
  obtain ⟨⟨hpos, hfit⟩, hbits⟩ := hcalls _ hm
  exact sentences_inBounds hbits hpos hfit hseqnr

end Gnuais

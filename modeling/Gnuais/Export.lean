import Gnuais.Acceptance
import Gnuais.Bounds

/-!
# Reading the sentences back

A receiver of the sentences takes the payload fields, turns the letters into
bits and drops as many bits from the end as the last sentence's fill field says
(`readBack`). The code writes that field only in the last of several
sentences, so a message is read back exactly when it needs no fill bits or more
than one sentence (`readBack_iff`, `export_iff`); a message of eight bits is
not (`export_loses_length`).
-/

namespace Gnuais

open Buffer Bits Hdlc

/-! ## The receiver

What somebody who gets the sentences can do: undo the letters, put the payloads together,
and drop the bits that the last sentence says are filled in. -/

/-- The six bits of a letter. -/
def dearmour (c : UInt8) : List Bool :=
  toBits 6 (if c < 88 then c.toNat - 48 else c.toNat - 56)

/-- The sixth field of a sentence. -/
def payloadField (text : List UInt8) : List UInt8 := (text.splitOn 44).getD 5 []

/-- The fill bits the seventh field of a sentence announces. -/
def fillField (text : List UInt8) : ℕ := (((text.splitOn 44).getD 6 []).headD 48).toNat - 48

/-- The bits of a group of sentences. -/
def readBack (texts : List (List UInt8)) : List Bool :=
  let bits := (texts.flatMap payloadField).flatMap dearmour
  bits.take (bits.length - fillField (texts.getLastD []))

/-- A letter gives back its six bits. -/
theorem dearmour_armour : ∀ letter < 64, dearmour (armour letter) = toBits 6 letter := by decide

/-- The letters of whole groups of six are undone. -/
theorem dearmour_lettersOf {bits : List Bool} (h6 : bits.length % 6 = 0) :
    (lettersOf bits).flatMap dearmour = bits := by
  have hgroup : ∀ j < bits.length / 6,
      dearmour (armour (ofBits ((bits.drop (6 * j)).take 6))) = (bits.drop (6 * j)).take 6 := by
    intro j hj
    have hlen : ((bits.drop (6 * j)).take 6).length = 6 := by
      rw [List.length_take, List.length_drop]
      omega
    have hlt := ofBits_lt ((bits.drop (6 * j)).take 6)
    rw [hlen] at hlt
    have hbits := toBits_ofBits ((bits.drop (6 * j)).take 6)
    rw [hlen] at hbits
    rw [dearmour_armour _ hlt, hbits]
  have hall : ∀ n ≤ bits.length / 6,
      ((List.range n).map fun j => armour (ofBits ((bits.drop (6 * j)).take 6))).flatMap dearmour =
        bits.take (6 * n) := by
    intro n
    induction n with
    | zero => exact fun _ => rfl
    | succ n ih =>
      intro hn
      rw [List.range_succ, List.map_append, List.flatMap_append, ih (by omega), List.map_singleton,
        List.flatMap_singleton, hgroup n (by omega), Nat.mul_succ, List.take_add]
  rw [lettersOf, hall _ (le_refl _), List.take_of_length_le (by omega)]

/-! ## What is read back

The receiver gets back the padded message, less the bits it is told to drop, so all turns
on the digit of the last sentence. -/

/-- The payload is found between the fifth and the sixth comma. -/
theorem payloadField_text {s : Sentence} (h : s.WellFormed) : payloadField s.text = s.payload := by
  rw [payloadField, h.splitOn_text]
  rfl

/-- The digit is found behind the sixth. -/
theorem fillField_text {s : Sentence} (h : s.WellFormed) :
    fillField s.text = s.digit.toNat - 48 := by
  rw [fillField, h.splitOn_text]
  rfl

/-- The last sentence of a message carries the last digit of the count. -/
theorem getLastD_messageSentences (rbuffer : Frame) (seqnr : UInt8) {bufferlen : ℕ}
    (fillbits : ℕ) (hpos : 0 < bufferlen) :
    ∃ s ∈ messageSentences rbuffer seqnr bufferlen fillbits,
      ((messageSentences rbuffer seqnr bufferlen fillbits).map Sentence.text).getLastD [] =
        s.text ∧
      s.digit = fillDigit (sentenceCount bufferlen) (sentenceCount bufferlen) fillbits := by
  obtain ⟨n, hn⟩ : ∃ n, sentenceCount bufferlen = n + 1 :=
    ⟨(bufferlen + 365) / 366 - 1, by rw [sentenceCount]; omega⟩
  rw [messageSentences, hn, List.range_succ, List.map_append, List.map_append, List.map_singleton,
    List.map_singleton]
  refine ⟨_, List.mem_append_right _ (List.mem_singleton_self _), ?_, rfl⟩
  rw [List.getLastD_eq_getLast?, List.getLast?_concat]
  rfl

/-- The fill field of the last sentence: right for several sentences, zero for
a single one. -/
theorem fillField_last {rbuffer : Frame} {seqnr : UInt8} {bufferlen fillbits : ℕ}
    (hpos : 0 < bufferlen) (h6 : bufferlen % 6 = 0) (hfit : bufferlen ≤ 450) (hseqnr : seqnr ≤ 9)
    (hfill : fillbits ≤ 5) :
    fillField (((messageSentences rbuffer seqnr bufferlen fillbits).map Sentence.text).getLastD
      []) = if bufferlen > 366 then fillbits else 0 := by
  have hcount : sentenceCount bufferlen > 1 ↔ bufferlen > 366 := by
    rw [sentenceCount]
    omega
  obtain ⟨s, hs, hlast, hdigit⟩ := getLastD_messageSentences rbuffer seqnr fillbits hpos
  rw [hlast, fillField_text (messageSentences_wellFormed _ h6 hfit hseqnr hfill s hs), hdigit,
    fillDigit]
  by_cases hmany : bufferlen > 366
  · rw [if_pos ⟨hcount.mpr hmany, rfl⟩, if_pos hmany, UInt8.toNat_ofNat', Nat.mod_eq_of_lt]
    · omega
    · change _ < 256
      omega
  · rw [if_neg fun hh => hmany (hcount.mp hh.1), if_neg hmany]
    rfl

/-- The padded message, less the fill bits the last sentence announces. -/
theorem readBack_messageSentences {rbuffer : Frame} {seqnr : UInt8} {bufferlen fillbits : ℕ}
    (hpos : 0 < bufferlen) (h6 : bufferlen % 6 = 0) (hfit : bufferlen ≤ 450) (hseqnr : seqnr ≤ 9)
    (hfill : fillbits ≤ 5) :
    readBack ((messageSentences rbuffer seqnr bufferlen fillbits).map Sentence.text) =
      (bitsOf rbuffer).take (bufferlen - if bufferlen > 366 then fillbits else 0) := by
  have hlen : ((bitsOf rbuffer).take bufferlen).length = bufferlen := by
    rw [List.length_take, length_bitsOf]
    omega
  have hpayload : ((messageSentences rbuffer seqnr bufferlen fillbits).map
      Sentence.text).flatMap payloadField = lettersOf ((bitsOf rbuffer).take bufferlen) := by
    rw [← payloads_messageSentences, List.flatMap_map]
    refine List.flatMap_congr fun s hs => ?_
    exact payloadField_text (messageSentences_wellFormed _ h6 hfit hseqnr hfill s hs)
  rw [readBack, hpayload, dearmour_lettersOf (by rw [hlen]; exact h6),
    fillField_last hpos h6 hfit hseqnr hfill, hlen, List.take_take, Nat.min_eq_left (Nat.sub_le _ _)]

/-- What the socket gets for a frame of a known type: its sentences, over the
padded bits. -/
theorem ipcWrites_getdataObs {cfg : Config} {receivedT : ℤ} {bufferlen : ℕ} {rbuffer : Frame}
    {chanid seqnr seqnr' : UInt8} {serial : Bool} {calls : List Call}
    (h : getdataObs cfg receivedT bufferlen rbuffer chanid seqnr serial true =
      some (calls, seqnr'))
    (hknown : KnownType rbuffer) (hbits : IsBits rbuffer) (hpos : 0 < bufferlen)
    (hfit : bufferlen ≤ 426) (hseqnr : seqnr ≤ 9) :
    ∃ padded, storeAt rbuffer bufferlen (List.replicate (fillbitsOf bufferlen) 0) = some padded ∧
      ipcWrites calls = (messageSentences padded seqnr (bufferlen + fillbitsOf bufferlen)
        (fillbitsOf bufferlen)).map Sentence.text := by
  have hfill := fillbitsOf_le bufferlen
  have hfit' : bufferlen + fillbitsOf bufferlen ≤ 450 := by omega
  rcases getdataObs_some h with ⟨hunknown, -⟩ | ⟨-, -, padded, bodies, reports, hpadded, hbodies,
    rfl, hreports⟩
  · exact absurd hknown hunknown
  obtain ⟨padded', hpadded', hbits'⟩ := isBits_padded hbits hfit'
  obtain rfl := Option.some.inj (hpadded'.symm.trans hpadded)
  rw [nmeaBodies_eq hbits' (by omega) (padded_mod bufferlen) hfit' hseqnr hfill] at hbodies
  obtain rfl := Option.some.inj hbodies
  refine ⟨padded', hpadded, ?_⟩
  rw [ipcWrites_append, ipcWrites_sinks, if_pos rfl, ipcWrites_reports hreports, List.append_nil,
    List.map_map]
  rfl

/-- Padding leaves the message as it is. -/
theorem take_padded {rbuffer padded : Frame} {bufferlen : ℕ} {zeros : List UInt8}
    (h : storeAt rbuffer bufferlen zeros = some padded)
    (hfit : bufferlen + zeros.length ≤ demodBufferLen) :
    (bitsOf padded).take bufferlen = (bitsOf rbuffer).take bufferlen := by
  rw [storeAt_eq _ _ _ hfit] at h
  obtain rfl := Option.some.inj h
  apply List.ext_getElem?
  intro i
  rw [List.getElem?_take, List.getElem?_take]
  by_cases hi : i < bufferlen
  · rw [if_pos hi, if_pos hi, bitsOf, bitsOf, List.getElem?_map, List.getElem?_map,
      Vector.getElem?_toList, Vector.getElem?_toList, getElem?_splice _ _ _ _ hfit,
      if_neg (by omega)]
  · rw [if_neg hi, if_neg hi]

/-- When the sentences of a frame read back as its bits. -/
theorem readBack_iff {cfg : Config} {receivedT : ℤ} {bufferlen : ℕ} {rbuffer : Frame}
    {chanid seqnr seqnr' : UInt8} {serial : Bool} {calls : List Call}
    (h : getdataObs cfg receivedT bufferlen rbuffer chanid seqnr serial true =
      some (calls, seqnr'))
    (hknown : KnownType rbuffer) (hbits : IsBits rbuffer) (hpos : 0 < bufferlen)
    (hfit : bufferlen ≤ 426) (hseqnr : seqnr ≤ 9) :
    readBack (ipcWrites calls) = (bitsOf rbuffer).take bufferlen ↔
      bufferlen % 6 = 0 ∨ 366 < bufferlen := by
  have hfill := fillbitsOf_le bufferlen
  have hzero : fillbitsOf bufferlen = 0 ↔ bufferlen % 6 = 0 := by
    rw [fillbitsOf]
    split <;> omega
  have hsplit : bufferlen + fillbitsOf bufferlen > 366 ↔ bufferlen > 366 := by
    have hmod := padded_mod bufferlen
    omega
  obtain ⟨padded, hpadded, hwrites⟩ := ipcWrites_getdataObs h hknown hbits hpos hfit hseqnr
  have htake := take_padded hpadded (by rw [List.length_replicate]; change _ ≤ 450; omega)
  rw [hwrites, readBack_messageSentences (by omega) (padded_mod bufferlen) (by omega) hseqnr hfill,
    ← htake]
  constructor
  · intro heq
    have hlen := congrArg List.length heq
    rw [List.length_take, List.length_take, length_bitsOf] at hlen
    split at hlen
    · right
      omega
    · left
      omega
  · intro hcond
    congr 1
    split
    · omega
    · omega

/-! ## Runs

The same for a frame that a decoder accepts in some run, where the sequence number and the
buffers are whatever the run has left. -/

/-- The bit at which a frame is handed over, with the frame's own calls. -/
theorem handing_bit (cfg : Config) (clock : ℕ → ℤ) {b : Bool} {a : Deframer}
    {d d' : DemodState} {calls : List Call} {bufferlen : ℕ} {rbuffer : Frame}
    (hsim : Simulates d a) (hfits : a.Fits)
    (hbit : protodecDecodeBit cfg (clock d.receivedframes) b d = some (d', calls))
    (hframe : getdataCalls calls = [(bufferlen, rbuffer)]) :
    (0 < bufferlen ∧ bufferlen ≤ 426) ∧ IsBits rbuffer ∧ ∃ calls',
      getdataObs cfg (clock d.receivedframes) bufferlen rbuffer d.chanid d.seqnr d.serial d.ipc =
        some (calls', d'.seqnr) ∧
      calls = .getdata bufferlen rbuffer :: calls' := by
  obtain ⟨d₁, calls₁, hbit₁, -, hclose⟩ := decodeBit_simulates cfg clock hsim b
  obtain ⟨rfl, rfl⟩ := Prod.mk.inj (Option.some.inj (hbit₁.symm.trans hbit))
  obtain ⟨hcalls, -, -⟩ := closeAll_accepted hclose
  rw [hframe] at hcalls
  have hne : (a.closing b).flatMap Closing.accepted ≠ [] := by
    rw [← hcalls]
    exact List.cons_ne_nil _ _
  obtain ⟨payload, rfl, rfl, hlong, hpass, haccepted⟩ := accepted_closing hne
  rw [haccepted] at hcalls
  obtain ⟨rfl, rfl⟩ := Prod.mk.inj (List.singleton_inj.mp hcalls)
  have hfit : payload.length ≤ 448 := hfits
  rw [Deframer.closing, if_pos ⟨rfl, hlong⟩, closeAll_singleton] at hclose
  rcases (close_cases hclose).2 with ⟨hnone, -⟩ | ⟨payload', calls', hpayload, -, hobs, rfl⟩
  · rw [Closing.accepted, if_pos hpass] at hnone
    cases hnone
  · obtain rfl := Closing.frame.inj hpayload
    exact ⟨⟨by omega, by omega⟩, isBits_frameOf hfit, calls', hobs, rfl⟩

/-- A decoder after a run: it simulates a deframer that is not too full, its
sequence number is a digit, and its outputs are the ones it was given. -/
theorem run_invariant (cfg : Config) (clock : ℕ → ℤ) (mem : Allocated) (serial ipc : Bool)
    (chanid : UInt8) {s : List Bool} {d : DemodState} {calls : List Call}
    (h : protodecDecode cfg clock s (protodecInitialize mem serial ipc chanid) =
      some (d, calls)) :
    Simulates d (Deframer.start.run s) ∧ (Deframer.start.run s).Fits ∧ d.seqnr ≤ 9 ∧
      d.serial = serial ∧ d.ipc = ipc := by
  obtain ⟨d₁, calls₁, hrun, hsim, hclose⟩ := decode_simulates cfg clock s
    (simulates_initial mem serial ipc chanid)
  obtain ⟨rfl, rfl⟩ := Prod.mk.inj (Option.some.inj (hrun.symm.trans h))
  have hfits : ∀ c ∈ Deframer.start.closings s, c.Fits :=
    fits_closings s (show Deframer.start.Fits from trivial)
  obtain ⟨hseqnr, -⟩ := closeAll_inBounds _ hfits (show (0 : UInt8) ≤ 9 by decide) hclose
  obtain ⟨-, hserial, hipc⟩ := closeAll_config _ hclose
  exact ⟨hsim, fits_run s (show Deframer.start.Fits from trivial), hseqnr, hserial, hipc⟩

/-- The sentences the socket gets for an accepted frame of a known type read back as its
bits if and only if the frame needs no fill bits or is longer than one sentence takes. For
the rest the last digit of the only sentence says that no bits were added, and the reader
takes the fill bits for bits of the message. -/
theorem export_iff (cfg : Config) (clock : ℕ → ℤ) (mem : Allocated) (serial : Bool)
    (chanid : UInt8) {s : List Bool} {b : Bool} {d d' : DemodState} {calls calls' : List Call}
    {bufferlen : ℕ} {rbuffer : Frame}
    (h : protodecDecode cfg clock s (protodecInitialize mem serial true chanid) = some (d, calls))
    (hbit : protodecDecodeBit cfg (clock d.receivedframes) b d = some (d', calls'))
    (hframe : getdataCalls calls' = [(bufferlen, rbuffer)]) (hknown : KnownType rbuffer) :
    readBack (ipcWrites calls') = (bitsOf rbuffer).take bufferlen ↔
      bufferlen % 6 = 0 ∨ 366 < bufferlen := by
  obtain ⟨hsim, hfits, hseqnr, -, hipc⟩ := run_invariant cfg clock mem serial true chanid h
  obtain ⟨⟨hpos, hfit⟩, hbits, calls₁, hobs, rfl⟩ := handing_bit cfg clock hsim hfits hbit hframe
  rw [hipc] at hobs
  change readBack (ipcWrites calls₁) = _ ↔ _
  exact readBack_iff hobs hknown hbits hpos hfit hseqnr

/-- The frame of `wholeStream`. -/
def octetFrame : Frame := frameOf ([4, 92, 182].flatMap octetLE ++ flag.take 6)

/-- It is a message of type 1. -/
theorem octetFrame_known : KnownType octetFrame := by
  unfold KnownType
  decide +kernel

/-- It is handed over at the last bit of the closing flag. -/
theorem octetFrame_handed : ∃ d calls d' calls',
    protodecDecode .silent (fun _ => 0) wholeStream (protodecInitialize .zeroed false true 65) =
      some (d, calls) ∧
    protodecDecodeBit .silent 0 false d = some (d', calls') ∧
    getdataCalls calls' = [(8, octetFrame)] := by
  have hstop : Deframer.start.run wholeStream =
      .stop ([4, 92, 182].flatMap octetLE ++ flag.take 6) := by decide +kernel
  obtain ⟨d, calls, d', calls', hrun, hbit, -, -, hframe⟩ := accepting_run .silent (fun _ => 0)
    .zeroed false true 65 hstop (by decide) (by decide +kernel)
  exact ⟨d, calls, d', calls', hrun, hbit, hframe⟩

/-- A frame of one octet needs four fill bits and has one sentence. -/
theorem export_iff_octet : ∃ d calls d' calls',
    protodecDecode .silent (fun _ => 0) wholeStream (protodecInitialize .zeroed false true 65) =
      some (d, calls) ∧
    protodecDecodeBit .silent 0 false d = some (d', calls') ∧
    getdataCalls calls' = [(8, octetFrame)] ∧ KnownType octetFrame ∧
    (readBack (ipcWrites calls') = (bitsOf octetFrame).take 8 ↔ 8 % 6 = 0 ∨ 366 < 8) := by
  obtain ⟨d, calls, d', calls', hrun, hbit, hframe⟩ := octetFrame_handed
  exact ⟨d, calls, d', calls', hrun, hbit, hframe, octetFrame_known,
    export_iff .silent (fun _ => 0) .zeroed false 65 hrun hbit hframe octetFrame_known⟩

/-- Its eight bits are not what its sentence reads back as. -/
theorem export_loses_length : ∃ d calls d' calls',
    protodecDecode .silent (fun _ => 0) wholeStream (protodecInitialize .zeroed false true 65) =
      some (d, calls) ∧
    protodecDecodeBit .silent 0 false d = some (d', calls') ∧
    getdataCalls calls' = [(8, octetFrame)] ∧ KnownType octetFrame ∧
    readBack (ipcWrites calls') ≠ (bitsOf octetFrame).take 8 := by
  obtain ⟨d, calls, d', calls', hrun, hbit, hframe⟩ := octetFrame_handed
  obtain ⟨hsim, hfits, hseqnr, -, hipc⟩ := run_invariant .silent (fun _ => 0) .zeroed false true 65 hrun
  obtain ⟨-, hbits, calls₁, hobs, rfl⟩ := handing_bit .silent (fun _ => 0) hsim hfits hbit hframe
  rw [hipc] at hobs
  refine ⟨d, calls, d', _, hrun, hbit, hframe, octetFrame_known, fun heq => ?_⟩
  have hcond := (readBack_iff hobs octetFrame_known hbits (by decide) (by decide) hseqnr).mp heq
  revert hcond
  decide

end Gnuais

import Gnuais.Getdata
import Mathlib.Data.List.TakeWhile

/-!
# The sentences of a message

What `protodec_generate_nmea` emits for a frame of bits, in closed form. The
message is armoured six bits a letter (`lettersOf`), cut into payloads of 61
letters, and each payload becomes a `Sentence`, whose text is its seven fields
with commas between them.

`nmeaBodies_eq` says that the code builds exactly these sentences and
`isGroup_messageSentences` what they are like: numbered in order, well formed,
short enough for the line, and together exactly the letters of the message.
-/

namespace Gnuais

open Buffer Bits

/-! ## Sentences

A sentence has six commas, and no field that could have one in it. All facts about a
reader of sentences rest on which characters are in which field. -/

/-- The fields of `!AIVDM,n,i,seq,chan,payload,digit*HH`. -/
structure Sentence where
  /-- how many sentences the message has -/
  sentences : ℕ
  /-- which of them this is, from 1 -/
  sentencenum : ℕ
  /-- the sequence number, or nothing for a message of one sentence -/
  seq : List UInt8
  /-- the channel, or nothing in a message of several -/
  chan : List UInt8
  /-- the letters -/
  payload : List UInt8
  /-- the number of bits that fill the last letter, as a digit -/
  digit : UInt8
  deriving DecidableEq, Repr

namespace Sentence

/-- The characters strictly between `!` and `*`. -/
def core (s : Sentence) : List UInt8 :=
  [65, 73, 86, 68, 77] ++ 44 :: ([UInt8.ofNat (48 + s.sentences)] ++ 44 ::
    ([UInt8.ofNat (48 + s.sentencenum)] ++ 44 :: (s.seq ++ 44 :: (s.chan ++ 44 ::
      (s.payload ++ 44 :: [s.digit])))))

/-- The sentence as `d->nmea` holds it. -/
def body (s : Sentence) : List UInt8 :=
  s.core ++ [42] ++ hexPair (s.core.foldl (· ^^^ ·) 0)

/-- The sentence as the sinks get it. -/
def text (s : Sentence) : List UInt8 := 33 :: s.body

/-- A letter of the armoured payload. -/
def IsLetter (c : UInt8) : Prop := (48 ≤ c ∧ c ≤ 87) ∨ (96 ≤ c ∧ c ≤ 119)

/-- A decimal digit. -/
def IsDigit (c : UInt8) : Prop := 48 ≤ c ∧ c ≤ 57

/-- A sentence whose fields are in their ranges. -/
structure WellFormed (s : Sentence) : Prop where
  /-- the numbers are one digit each -/
  numbered : 1 ≤ s.sentencenum ∧ s.sentencenum ≤ s.sentences ∧ s.sentences ≤ 9
  /-- a channel and no sequence number, or a sequence number and no channel -/
  tagged : (s.seq = [] ∧ s.chan = [65]) ∨ ∃ c, IsDigit c ∧ s.seq = [c] ∧ s.chan = []
  /-- a message has letters, and so has each of its sentences -/
  nonempty : 1 ≤ s.payload.length
  /-- 61 letters at most -/
  short : s.payload.length ≤ 61
  /-- from the alphabet of the armouring -/
  letters : ∀ c ∈ s.payload, IsLetter c
  /-- `0` to `9` -/
  digit : IsDigit s.digit

/-- A number below ten is a digit. -/
theorem isDigit_ofNat : ∀ n ≤ 9, IsDigit (UInt8.ofNat (48 + n)) := by
  unfold IsDigit
  decide

/-- A digit is none of the marks. -/
theorem IsDigit.ne {c : UInt8} (h : IsDigit c) : c ≠ 44 ∧ c ≠ 42 ∧ c ≠ 0 := by
  refine ⟨?_, ?_, ?_⟩ <;> (rintro rfl; exact absurd h (by unfold IsDigit; decide))

/-- Neither is a letter. -/
theorem IsLetter.ne {c : UInt8} (h : IsLetter c) : c ≠ 44 ∧ c ≠ 42 ∧ c ≠ 0 := by
  refine ⟨?_, ?_, ?_⟩ <;> (rintro rfl; exact absurd h (by unfold IsLetter; decide))

/-- Nor a digit of the checksum. -/
theorem hexDigit_ne : ∀ x < 16, hexDigit x ≠ 44 ∧ hexDigit x ≠ 0 := by decide

theorem hexPair_ne (x : UInt8) : (hexDigit (x.toNat / 16) ≠ 44 ∧ hexDigit (x.toNat / 16) ≠ 0) ∧
    (hexDigit (x.toNat % 16) ≠ 44 ∧ hexDigit (x.toNat % 16) ≠ 0) := by
  have hx := UInt8.toNat_lt x
  exact ⟨hexDigit_ne _ (by omega), hexDigit_ne _ (Nat.mod_lt _ (by omega))⟩

variable {s : Sentence}

/-- No field has a comma in it. -/
theorem WellFormed.no_comma (h : s.WellFormed) :
    44 ∉ [UInt8.ofNat (48 + s.sentences)] ∧ 44 ∉ [UInt8.ofNat (48 + s.sentencenum)] ∧
      44 ∉ s.seq ∧ 44 ∉ s.chan ∧ 44 ∉ s.payload ∧ 44 ∉ [s.digit] := by
  obtain ⟨hone, hle, hnine⟩ := h.numbered
  have hdigit : ∀ {c : UInt8}, IsDigit c → 44 ∉ [c] :=
    fun hc hm => hc.ne.1 (List.mem_singleton.mp hm).symm
  refine ⟨hdigit (isDigit_ofNat _ hnine), hdigit (isDigit_ofNat _ (hle.trans hnine)), ?_, ?_,
    fun hm => (h.letters _ hm).ne.1 rfl, hdigit h.digit⟩
  · rcases h.tagged with ⟨hs, -⟩ | ⟨c, hc, hs, -⟩
    · simp [hs]
    · rw [hs]
      exact hdigit hc
  · rcases h.tagged with ⟨-, hs⟩ | ⟨c, -, -, hs⟩ <;> simp [hs]

/-- The alphabet has the digits. -/
theorem IsDigit.isLetter {c : UInt8} (h : IsDigit c) : IsLetter c :=
  .inl ⟨h.1, UInt8.le_trans h.2 (show (57 : UInt8) ≤ 87 by decide)⟩

/-- Only commas and letters of the payload's alphabet are inside a sentence. -/
theorem WellFormed.core_mem (h : s.WellFormed) : ∀ c ∈ s.core, c = 44 ∨ IsLetter c := by
  obtain ⟨hone, hle, hnine⟩ := h.numbered
  have hn := (isDigit_ofNat s.sentences hnine).isLetter
  have hi := (isDigit_ofNat s.sentencenum (hle.trans hnine)).isLetter
  have hseq : ∀ c ∈ s.seq, c = 44 ∨ IsLetter c := by
    rcases h.tagged with ⟨hs, -⟩ | ⟨c, hc, hs, -⟩
    · simp [hs]
    · rw [hs]
      intro x hx
      rw [List.mem_singleton.mp hx]
      exact .inr hc.isLetter
  have hchan : ∀ c ∈ s.chan, c = 44 ∨ IsLetter c := by
    rcases h.tagged with ⟨-, hs⟩ | ⟨c, -, -, hs⟩
    · rw [hs]
      intro x hx
      rw [List.mem_singleton.mp hx]
      exact .inr (.inl ⟨by decide, by decide⟩)
    · simp [hs]
  have hpayload : ∀ c ∈ s.payload, c = 44 ∨ IsLetter c := fun c hc => .inr (h.letters c hc)
  simp only [core, List.forall_mem_append, List.forall_mem_cons]
  simp only [List.not_mem_nil, false_implies, implies_true, and_true, true_or, true_and]
  exact ⟨by unfold IsLetter; decide, .inr hn, .inr hi, hseq, hchan, hpayload,
    .inr h.digit.isLetter⟩

/-- Neither the checksum's mark nor a terminator is inside a sentence. -/
theorem WellFormed.core_ne (h : s.WellFormed) : ∀ c ∈ s.core, c ≠ 42 ∧ c ≠ 0 := by
  intro c hc
  rcases h.core_mem c hc with rfl | hletter
  · decide
  · exact hletter.ne.2

/-- The start of a sentence is nowhere inside one. -/
theorem WellFormed.no_bang (h : s.WellFormed) : 33 ∉ s.body := by
  have hhex : ∀ x < 16, hexDigit x ≠ 33 := by decide
  have hchecksum := UInt8.toNat_lt (s.core.foldl (· ^^^ ·) 0)
  rw [body, List.mem_append, List.mem_append, List.mem_singleton, hexPair, List.mem_pair]
  rintro ((hmem | heq) | heq | heq)
  · rcases h.core_mem 33 hmem with heq | hletter
    · exact absurd heq (by decide)
    · exact absurd hletter (by unfold IsLetter; decide)
  · exact absurd heq (by decide)
  · exact hhex _ (by omega) heq.symm
  · exact hhex _ (Nat.mod_lt _ (by decide)) heq.symm

/-- The length of a sentence, by its fields. -/
theorem length_core (s : Sentence) :
    s.core.length = 14 + s.seq.length + s.chan.length + s.payload.length := by
  simp only [core, List.length_append, List.length_cons, List.length_nil]
  omega

/-- The text with a carriage return and a line feed is at most 82 characters. -/
theorem WellFormed.length_text (h : s.WellFormed) : (s.text ++ [13, 10]).length ≤ 82 := by
  have hshort := h.short
  have htags : s.seq.length + s.chan.length = 1 := by
    rcases h.tagged with ⟨hs, hc⟩ | ⟨c, -, hs, hc⟩ <;> simp [hs, hc]
  simp only [text, body, hexPair, List.length_append, List.length_cons, List.length_nil,
    length_core]
  omega

/-- A well-formed sentence splits at its commas into its seven fields. -/
theorem WellFormed.splitOn_text (h : s.WellFormed) :
    s.text.splitOn 44 = [[33, 65, 73, 86, 68, 77], [UInt8.ofNat (48 + s.sentences)],
      [UInt8.ofNat (48 + s.sentencenum)], s.seq, s.chan, s.payload,
      s.digit :: 42 :: hexPair (s.core.foldl (· ^^^ ·) 0)] := by
  obtain ⟨hn, hi, hseq, hchan, hpayload, hdigit⟩ := h.no_comma
  have hhex : 44 ∉ s.digit :: 42 :: hexPair (s.core.foldl (· ^^^ ·) 0) := by
    obtain ⟨hhigh, hlow⟩ := hexPair_ne (s.core.foldl (· ^^^ ·) 0)
    rw [hexPair]
    simp only [List.mem_cons, List.not_mem_nil, or_false, not_or]
    exact ⟨h.digit.ne.1.symm, by decide, hhigh.1.symm, hlow.1.symm⟩
  have htext : s.text = [33, 65, 73, 86, 68, 77] ++ 44 :: ([UInt8.ofNat (48 + s.sentences)] ++
      44 :: ([UInt8.ofNat (48 + s.sentencenum)] ++ 44 :: (s.seq ++ 44 :: (s.chan ++ 44 ::
        (s.payload ++ 44 :: (s.digit :: 42 :: hexPair (s.core.foldl (· ^^^ ·) 0))))))) := by
    simp only [text, body]
    generalize hexPair (s.core.foldl (· ^^^ ·) 0) = hex
    simp [core]
  rw [htext, List.splitOn_append_cons_self_of_not_mem (by decide),
    List.splitOn_append_cons_self_of_not_mem hn, List.splitOn_append_cons_self_of_not_mem hi,
    List.splitOn_append_cons_self_of_not_mem hseq,
    List.splitOn_append_cons_self_of_not_mem hchan,
    List.splitOn_append_cons_self_of_not_mem hpayload, List.splitOn_eq_singleton hhex]

/-- A well-formed sentence is one C string. -/
theorem WellFormed.takeWhile_body (h : s.WellFormed) : s.body.takeWhile (· ≠ 0) = s.body := by
  rw [List.takeWhile_eq_self_iff]
  intro c hc
  rw [decide_eq_true_iff]
  obtain ⟨hhigh, hlow⟩ := hexPair_ne (s.core.foldl (· ^^^ ·) 0)
  rw [body, hexPair] at hc
  simp only [List.mem_append, List.mem_cons, List.not_mem_nil, or_false] at hc
  rcases hc with (hc | rfl) | rfl | rfl
  · exact (h.core_ne c hc).2
  · decide
  · exact hhigh.2
  · exact hlow.2

/-- The checksum the code takes is the one over the whole core. -/
theorem WellFormed.xorStar_core (h : s.WellFormed) :
    xorStar s.core = s.core.foldl (· ^^^ ·) 0 := by
  have hall : s.core.takeWhile (· ≠ 42) = s.core := by
    rw [List.takeWhile_eq_self_iff]
    intro c hc
    rw [decide_eq_true_iff]
    exact (h.core_ne c hc).1
  rw [xorStar, hall]

/-- The sentence the code builds around a payload. -/
def make (sentences sentencenum : ℕ) (seqnr : UInt8) (fillbits : ℕ) (payload : List UInt8) :
    Sentence where
  sentences := sentences
  sentencenum := sentencenum
  seq := if sentences > 1 then [seqnr + 48] else []
  chan := if sentences > 1 then [] else [65]
  payload := payload
  digit := fillDigit sentences sentencenum fillbits

/-- What stands between the marks. -/
theorem core_make (sentences sentencenum : ℕ) (seqnr : UInt8) (fillbits : ℕ)
    (payload : List UInt8) :
    (make sentences sentencenum seqnr fillbits payload).core =
      sentenceCore sentences sentencenum seqnr fillbits payload := by
  simp only [core, make, sentenceCore, sentenceHead]
  split <;> simp

theorem body_make {sentences sentencenum : ℕ} {seqnr : UInt8} {fillbits : ℕ}
    {payload : List UInt8}
    (h : (make sentences sentencenum seqnr fillbits payload).WellFormed) :
    (sentenceBody sentences sentencenum seqnr fillbits payload).takeWhile (· ≠ 0) =
      (make sentences sentencenum seqnr fillbits payload).body := by
  rw [← h.takeWhile_body, body, ← h.xorStar_core, sentenceBody, core_make]

/-- The sequence number is a digit. -/
theorem isDigit_seqnr {seqnr : UInt8} (h : seqnr ≤ 9) : IsDigit (seqnr + 48) := by
  rw [UInt8.le_iff_toNat_le] at h
  have hval : seqnr + 48 = UInt8.ofNat (48 + seqnr.toNat) := by
    apply UInt8.toNat.inj
    rw [UInt8.toNat_add, UInt8.toNat_ofNat', Nat.add_comm]
    rfl
  rw [hval]
  exact isDigit_ofNat _ h

/-- What the code builds is well formed. -/
theorem make_wellFormed {sentences sentencenum : ℕ} {seqnr : UInt8} {fillbits : ℕ}
    {payload : List UInt8} (hnum : 1 ≤ sentencenum ∧ sentencenum ≤ sentences ∧ sentences ≤ 9)
    (hseqnr : seqnr ≤ 9) (hfill : fillbits ≤ 5) (hnonempty : 1 ≤ payload.length)
    (hshort : payload.length ≤ 61) (hletters : ∀ c ∈ payload, IsLetter c) :
    (make sentences sentencenum seqnr fillbits payload).WellFormed where
  numbered := hnum
  tagged := by
    by_cases hs : sentences > 1
    · exact .inr ⟨seqnr + 48, isDigit_seqnr hseqnr, if_pos hs, if_pos hs⟩
    · exact .inl ⟨if_neg hs, if_neg hs⟩
  nonempty := hnonempty
  short := hshort
  letters := hletters
  digit := by
    change IsDigit (fillDigit _ _ _)
    rw [fillDigit]
    split
    · exact isDigit_ofNat _ (by omega)
    · exact isDigit_ofNat 0 (by omega)

end Sentence

/-! ## Letters

Six bits are a letter. The code adds up the bits and moves the sum into the alphabet,
which has a gap in it. -/

/-- Every element is a bit. -/
def IsBits (frame : Frame) : Prop := ∀ (i : ℕ) (x : UInt8), frame[i]? = some x → x = 0 ∨ x = 1

/-- The bits a frame holds. -/
def bitsOf (frame : Frame) : List Bool := frame.toList.map (· == 1)

/-- The letters of a message, six bits each. -/
def lettersOf (bits : List Bool) : List UInt8 :=
  (List.range (bits.length / 6)).map fun j => armour (ofBits ((bits.drop (6 * j)).take 6))

/-- As many as the array has. -/
@[simp] theorem length_bitsOf (frame : Frame) : (bitsOf frame).length = 450 := by
  rw [bitsOf, List.length_map, Vector.length_toList]

/-- Six bits a letter, and those that are left over make none. -/
@[simp] theorem length_lettersOf (bits : List Bool) :
    (lettersOf bits).length = bits.length / 6 := by
  rw [lettersOf, List.length_map, List.length_range]

/-- The bits one by one. -/
theorem getElem?_bitsOf {frame : Frame} (h : IsBits frame) (i : ℕ) :
    frame[i]? = (bitsOf frame)[i]?.map byte := by
  rw [bitsOf, List.getElem?_map, Vector.getElem?_toList]
  cases hx : frame[i]? with
  | none => rfl
  | some x => rcases h i x hx with rfl | rfl <;> rfl

/-- A field of a frame of bits. -/
theorem hentenVal_bitsOf {frame : Frame} (h : IsBits frame) {pos size : ℕ}
    (hfit : pos + size ≤ 450) :
    hentenVal pos size frame = ofBits (((bitsOf frame).drop pos).take size) := by
  have hlen : (((bitsOf frame).drop pos).take size).length = size := by
    rw [List.length_take, List.length_drop, length_bitsOf]
    omega
  have hholds : HoldsBits frame pos (((bitsOf frame).drop pos).take size) := by
    intro i hi
    rw [hlen] at hi
    rw [getElem?_bitsOf h, List.getElem?_take, if_pos hi, List.getElem?_drop]
  rw [← hentenVal_bits hholds, hlen]

/-- Six bits give a letter. -/
theorem isLetter_armour : ∀ letter < 64, Sentence.IsLetter (armour letter) := by
  unfold Sentence.IsLetter
  decide

/-- The letters of a message are letters. -/
theorem isLetter_of_mem {bits : List Bool} {c : UInt8} (h : c ∈ lettersOf bits) :
    Sentence.IsLetter c := by
  obtain ⟨j, -, rfl⟩ := List.mem_map.mp h
  refine isLetter_armour _ ((ofBits_lt _).trans_le ?_)
  exact Nat.pow_le_pow_right (by omega) (List.length_take_le _ _)

/-! ## The sentences of a message

Each sentence takes the next letters. The loop of the code is followed sentence by
sentence, with the letters that are left. -/

/-- The letters before the end of the message, from letter `q` on. -/
theorem payloadLetters_eq {rbuffer : Frame} (h : IsBits rbuffer) {bufferlen : ℕ}
    (h6 : bufferlen % 6 = 0) (hfit : bufferlen ≤ 450) (left : ℕ) : ∀ q : ℕ,
      payloadLetters bufferlen rbuffer left (6 * q) =
        some (((lettersOf ((bitsOf rbuffer).take bufferlen)).drop q).take left) := by
  have hbits : ((bitsOf rbuffer).take bufferlen).length = bufferlen := by
    rw [List.length_take, length_bitsOf]
    omega
  induction left with
  | zero => exact fun _ => rfl
  | succ left ih =>
    intro q
    rw [payloadLetters]
    by_cases hq : bufferlen > 6 * q
    · have hqlen : q < (lettersOf ((bitsOf rbuffer).take bufferlen)).length := by
        rw [length_lettersOf, hbits]
        omega
      have hletter : (lettersOf ((bitsOf rbuffer).take bufferlen))[q] =
          armour (hentenVal (6 * q) 6 rbuffer) := by
        rw [hentenVal_bitsOf h (by omega)]
        simp only [lettersOf, List.getElem_map, List.getElem_range]
        rw [List.drop_take, List.take_take, Nat.min_eq_left (by omega)]
      rw [if_pos hq, henten_frame rbuffer (by omega), show 6 * q + 6 = 6 * (q + 1) by omega, ih,
        List.drop_eq_getElem_cons hqlen, hletter, List.take_succ_cons]
      rfl
    · rw [if_neg hq, List.drop_eq_nil_of_le (by rw [length_lettersOf, hbits]; omega)]
      rfl

/-- The payload of sentence `i`, counted from zero. -/
def payloadOf (letters : List UInt8) (i : ℕ) : List UInt8 := (letters.drop (61 * i)).take 61

/-- The number of sentences. -/
def sentenceCount (bufferlen : ℕ) : ℕ := (bufferlen + 365) / 366

/-- The sentences of a message of `bufferlen` bits. -/
def messageSentences (rbuffer : Frame) (seqnr : UInt8) (bufferlen fillbits : ℕ) :
    List Sentence :=
  (List.range (sentenceCount bufferlen)).map fun i =>
    .make (sentenceCount bufferlen) (i + 1) seqnr fillbits
      (payloadOf (lettersOf ((bitsOf rbuffer).take bufferlen)) i)

/-- The number of sentences that the code computes. -/
theorem sentencesOf_eq {bufferlen : ℕ} (hpos : 0 < bufferlen) (hfit : bufferlen ≤ 450) :
    sentencesOf bufferlen = sentenceCount bufferlen := by
  rw [sentencesOf, show senlen * 6 = 366 from rfl, sentenceCount]
  split
  · omega
  · simp only
    split <;> omega

/-- Consecutive sentences, each payload full until the last. -/
theorem bodiesFrom_eq {rbuffer : Frame} (h : IsBits rbuffer) {bufferlen : ℕ}
    (h6 : bufferlen % 6 = 0) (hfit : bufferlen ≤ 450) (seqnr : UInt8) (fillbits sentences : ℕ)
    (m : ℕ) : ∀ i : ℕ, 366 * (i + m) ≤ bufferlen + 365 →
      bodiesFrom rbuffer seqnr bufferlen fillbits sentences (List.range' (i + 1) m)
          (6 * (61 * i)) =
        some ((List.range' i m).map fun i => (sentenceBody sentences (i + 1) seqnr fillbits
          (payloadOf (lettersOf ((bitsOf rbuffer).take bufferlen)) i)).takeWhile (· ≠ 0)) := by
  induction m with
  | zero => exact fun _ _ => rfl
  | succ m ih =>
    intro i hi
    rw [List.range'_succ, List.range'_succ, bodiesFrom, payloadLetters_eq h h6 hfit]
    simp only [Option.bind_eq_bind, Option.bind_some]
    rw [← payloadOf]
    cases m with
    | zero => rfl
    | succ m =>
      -- another sentence follows, so this payload is full
      have hfull : (payloadOf (lettersOf ((bitsOf rbuffer).take bufferlen)) i).length = 61 := by
        rw [payloadOf, List.length_take, List.length_drop, length_lettersOf, List.length_take,
          length_bitsOf]
        omega
      rw [hfull, show 6 * (61 * i) + 6 * 61 = 6 * (61 * (i + 1)) by omega, ih (i + 1) (by omega)]
      rfl

/-- Every payload is full but the last. -/
theorem length_payloadOf (rbuffer : Frame) {bufferlen i : ℕ} (h6 : bufferlen % 6 = 0)
    (hfit : bufferlen ≤ 450) (hi : i < sentenceCount bufferlen) :
    1 ≤ (payloadOf (lettersOf ((bitsOf rbuffer).take bufferlen)) i).length ∧
      (payloadOf (lettersOf ((bitsOf rbuffer).take bufferlen)) i).length ≤ 61 := by
  rw [sentenceCount] at hi
  rw [payloadOf, List.length_take, List.length_drop, length_lettersOf, List.length_take,
    length_bitsOf]
  omega

/-- The sentences of a message are well formed. -/
theorem messageSentences_wellFormed (rbuffer : Frame) {seqnr : UInt8} {bufferlen fillbits : ℕ}
    (h6 : bufferlen % 6 = 0) (hfit : bufferlen ≤ 450) (hseqnr : seqnr ≤ 9) (hfill : fillbits ≤ 5) :
    ∀ s ∈ messageSentences rbuffer seqnr bufferlen fillbits, s.WellFormed := by
  intro s hs
  obtain ⟨i, hi, rfl⟩ := List.mem_map.mp hs
  rw [List.mem_range] at hi
  obtain ⟨hone, hmany⟩ := length_payloadOf rbuffer h6 hfit hi
  have hcount : sentenceCount bufferlen ≤ 9 := by
    rw [sentenceCount]
    omega
  refine Sentence.make_wellFormed ⟨by omega, by omega, hcount⟩ hseqnr hfill hone hmany ?_
  exact fun c hc => isLetter_of_mem (List.mem_of_mem_drop (List.mem_of_mem_take hc))

/-- The code builds these sentences. -/
theorem nmeaBodies_eq {rbuffer : Frame} (h : IsBits rbuffer) {seqnr : UInt8}
    {bufferlen fillbits : ℕ} (hpos : 0 < bufferlen) (h6 : bufferlen % 6 = 0)
    (hfit : bufferlen ≤ 450) (hseqnr : seqnr ≤ 9) (hfill : fillbits ≤ 5) :
    nmeaBodies rbuffer seqnr bufferlen fillbits =
      some ((messageSentences rbuffer seqnr bufferlen fillbits).map Sentence.body) := by
  have hcount : 1 ≤ sentenceCount bufferlen := by
    rw [sentenceCount]
    omega
  have hbodies := bodiesFrom_eq h h6 hfit seqnr fillbits (sentenceCount bufferlen)
    (sentenceCount bufferlen) 0 (by rw [sentenceCount]; omega)
  rw [nmeaBodies, sentencesOf_eq hpos hfit, Nat.max_eq_right hcount]
  refine hbodies.trans ?_
  rw [← List.range_eq_range', messageSentences, List.map_map]
  refine congrArg some (List.map_congr_left fun i hi => ?_)
  exact Sentence.body_make (messageSentences_wellFormed _ h6 hfit hseqnr hfill _
    (List.mem_map.mpr ⟨i, hi, rfl⟩))

/-! ## The group as a whole

What a reader needs to know of all sentences of a message together. -/

/-- Consecutive payloads are consecutive letters. -/
theorem flatMap_payloadOf (letters : List UInt8) (n : ℕ) :
    (List.range n).flatMap (payloadOf letters) = letters.take (61 * n) := by
  induction n with
  | zero => rfl
  | succ n ih =>
    rw [List.range_succ, List.flatMap_append, ih, List.flatMap_singleton, payloadOf, Nat.mul_succ,
      List.take_add]

/-- The payloads of a message are its letters, none lost or repeated. -/
theorem payloads_messageSentences {rbuffer : Frame} {seqnr : UInt8} {bufferlen fillbits : ℕ} :
    (messageSentences rbuffer seqnr bufferlen fillbits).flatMap Sentence.payload =
      lettersOf ((bitsOf rbuffer).take bufferlen) := by
  rw [messageSentences, List.flatMap_map]
  refine (flatMap_payloadOf _ _).trans (List.take_of_length_le ?_)
  rw [length_lettersOf, List.length_take, sentenceCount]
  omega

/-- A well-formed group for the first `bufferlen` bits of a frame. The numbers in the
sentences are those of the group, so a reader can tell that it has all of them. -/
structure IsGroup (rbuffer : Frame) (seqnr : UInt8) (bufferlen : ℕ) (group : List Sentence) :
    Prop where
  /-- 61 letters a sentence, rounded up -/
  count : group.length = (bufferlen + 365) / 366
  /-- numbered in order, with the sequence number in all of several sentences -/
  numbered : ∀ (i : ℕ) (s : Sentence), group[i]? = some s →
    s.sentences = group.length ∧ s.sentencenum = i + 1 ∧
      s.seq = if group.length > 1 then [seqnr + 48] else []
  /-- each by itself -/
  wellFormed : ∀ s ∈ group, s.WellFormed
  /-- the commas of the text are the ones between the fields -/
  commas : ∀ s ∈ group, s.text.splitOn 44 =
    [[33, 65, 73, 86, 68, 77], [UInt8.ofNat (48 + s.sentences)],
      [UInt8.ofNat (48 + s.sentencenum)], s.seq, s.chan, s.payload,
      s.digit :: 42 :: hexPair (s.core.foldl (· ^^^ ·) 0)]
  /-- the first `*` is the one before the checksum -/
  mark : ∀ s ∈ group, 42 ∉ s.core
  /-- with the two characters that end a line -/
  short : ∀ s ∈ group, (s.text ++ [13, 10]).length ≤ 82
  /-- no letter is lost or sent twice -/
  payload : group.flatMap Sentence.payload = lettersOf ((bitsOf rbuffer).take bufferlen)

/-- The sentences of a message are such a group. -/
theorem isGroup_messageSentences {rbuffer : Frame} {seqnr : UInt8} {bufferlen fillbits : ℕ}
    (h6 : bufferlen % 6 = 0) (hfit : bufferlen ≤ 450) (hseqnr : seqnr ≤ 9) (hfill : fillbits ≤ 5) :
    IsGroup rbuffer seqnr bufferlen (messageSentences rbuffer seqnr bufferlen fillbits) := by
  have hwell := messageSentences_wellFormed rbuffer h6 hfit hseqnr hfill
  have hlen : (messageSentences rbuffer seqnr bufferlen fillbits).length =
      sentenceCount bufferlen := by
    rw [messageSentences, List.length_map, List.length_range]
  refine ⟨hlen, fun i s hs => ?_, hwell, fun s hs => (hwell s hs).splitOn_text,
    fun s hs hm => ((hwell s hs).core_ne _ hm).1 rfl, fun s hs => (hwell s hs).length_text,
    payloads_messageSentences⟩
  rw [messageSentences, List.getElem?_map, Option.map_eq_some_iff] at hs
  obtain ⟨j, hj, rfl⟩ := hs
  obtain ⟨-, rfl⟩ := List.getElem?_eq_some_iff.mp hj
  rw [List.getElem_range, hlen]
  exact ⟨rfl, rfl, rfl⟩

/-- For every frame of bits and every padded length `protodec_generate_nmea` emits one
well-formed group, whatever its buffers hold. What the group is like is `IsGroup`; a
reader of sentences needs nothing else. -/
theorem generateNmea_group (cfg : Config) (receivedT : ℤ) {bufferlen fillbits : ℕ} {d : DemodState}
    (hpos : 0 < bufferlen) (h6 : bufferlen % 6 = 0) (hfit : bufferlen ≤ 450)
    (hfill : fillbits ≤ 5) (hbits : IsBits d.rbuffer) (hseqnr : d.seqnr ≤ 9) :
    ∃ d' group,
      protodecGenerateNmea cfg receivedT bufferlen fillbits d =
        some (d', group.flatMap fun s => sinkCalls cfg d.serial d.ipc receivedT s.body) ∧
      IsGroup d.rbuffer d.seqnr bufferlen group := by
  obtain ⟨nmea, ser, ipc, hgen, -⟩ := protodecGenerateNmea_some cfg receivedT bufferlen fillbits d
    (nmeaBodies_eq hbits hpos h6 hfit hseqnr hfill)
  rw [List.flatMap_map] at hgen
  exact ⟨_, _, hgen, isGroup_messageSentences h6 hfit hseqnr hfill⟩

/-- A group of two sentences out of a frame of zeros. -/
theorem generateNmea_group_zeros : ∃ d' group,
    protodecGenerateNmea .silent 0 372 2 (protodecInitialize .zeroed true true 65) =
      some (d', group.flatMap fun s => sinkCalls .silent true true 0 s.body) ∧
    IsGroup (protodecInitialize .zeroed true true 65).rbuffer 0 372 group := by
  have hbits : IsBits (protodecInitialize .zeroed true true 65).rbuffer := by
    intro i x hx
    rw [protodecInitialize, Allocated.zeroed] at hx
    simp only [Vector.getElem?_replicate] at hx
    split at hx
    · exact .inl (Option.some.inj hx).symm
    · cases hx
  exact generateNmea_group .silent 0 (by omega) (by omega) (by omega) (by omega) hbits (by decide)

end Gnuais

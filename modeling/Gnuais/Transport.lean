import Gnuais.Export
import Gnuais.GuiLoops

/-!
# From the decoder to the map window

The sentences of a message, written to the socket one by one and read one by
one, are put together again by `threaden` and give back the bits the decoder
had. `Collected` is what is true between two reads: the letters of the
sentences so far are in `aisline`. `threadenRead_sentence` takes one
well-formed sentence, `threaden_message` the sentences of one message, and
`transport_identity` any sequence of messages.
-/

namespace Gnuais

open Buffer Bits

/-! ## Finding the payload

A sentence that the daemon wrote has its commas where the thread looks for them. This is
shown for any stretch of the sentence that reaches the end of the payload, for the reads
may end there. -/

/-- The text of a sentence up to the comma behind its payload. -/
theorem Sentence.WellFormed.text_payload {s : Sentence} (h : s.WellFormed) :
    ∃ head rest, s.text = (head ++ [44]) ++ (s.payload ++ [44]) ++ rest ∧ head.length = 13 ∧
      head.count 44 = 4 ∧
      [33, 65, 73, 86, 68, 77, 44, UInt8.ofNat (48 + s.sentences), 44,
        UInt8.ofNat (48 + s.sentencenum)] <+: head := by
  obtain ⟨hn, hi, hseq, hchan, -, -⟩ := h.no_comma
  have htags : s.seq.length + s.chan.length = 1 := by
    rcases h.tagged with ⟨hs, hc⟩ | ⟨c, -, hs, hc⟩ <;> simp [hs, hc]
  refine ⟨[33, 65, 73, 86, 68, 77, 44, UInt8.ofNat (48 + s.sentences), 44,
    UInt8.ofNat (48 + s.sentencenum)] ++ 44 :: (s.seq ++ 44 :: s.chan),
    s.digit :: 42 :: hexPair (s.core.foldl (· ^^^ ·) 0), ?_, ?_, ?_, List.prefix_append ..⟩
  · simp only [text, body]
    generalize hexPair (s.core.foldl (· ^^^ ·) 0) = hex
    simp [core]
  · simp only [List.length_append, List.length_cons, List.length_nil]
    omega
  · rw [List.mem_singleton] at hn hi
    have hs := List.count_eq_zero.mpr hseq
    have hc := List.count_eq_zero.mpr hchan
    generalize UInt8.ofNat (48 + s.sentences) = n at hn ⊢
    generalize UInt8.ofNat (48 + s.sentencenum) = i at hi ⊢
    simp [hs, hc, Ne.symm hn, Ne.symm hi]

/-- A stretch of a sentence that reaches the end of its payload. -/
theorem Sentence.WellFormed.front_payload {s : Sentence} (h : s.WellFormed) {front : List UInt8}
    (hfront : front <+: s.text) (hlong : 14 + s.payload.length ≤ front.length) :
    ∃ head more, front = head ++ 44 :: (s.payload ++ more) ∧ head.length = 13 ∧
      head.count 44 = 4 ∧
      [33, 65, 73, 86, 68, 77, 44, UInt8.ofNat (48 + s.sentences), 44,
        UInt8.ofNat (48 + s.sentencenum)] <+: head ∧ ∀ c ∈ more.head?, c = 44 := by
  obtain ⟨head, rest, htext, hlen, hcount, hfields⟩ := h.text_payload
  have hsplit : s.text = (head ++ 44 :: s.payload) ++ 44 :: rest := by
    rw [htext]
    simp only [List.append_assoc, List.cons_append, List.nil_append]
  have hpayload : head ++ 44 :: s.payload <+: front := by
    refine List.prefix_of_prefix_length_le ⟨_, hsplit.symm⟩ hfront ?_
    rw [List.length_append, List.length_cons]
    omega
  obtain ⟨more, rfl⟩ := hpayload
  rw [hsplit, List.prefix_append_right_inj] at hfront
  refine ⟨head, more, by rw [List.append_assoc, List.cons_append], hlen, hcount, hfields, ?_⟩
  intro c hc
  cases more with
  | nil => cases hc
  | cons c' more =>
    obtain rfl := Option.some.inj hc
    exact (List.cons_prefix_cons.mp hfront).1

/-- What the thread reads in the array, from such a stretch on. It does not say where in
the array the sentence stands, as nothing later on looks at it. -/
structure HeaderOf (s : Sentence) (header : List UInt8) (left : ℕ) : Prop where
  /-- it is the start of a sentence -/
  bang : header[0]? = some 33
  /-- `A`, as in `AIVDM` -/
  talker : header[1]? = some 65
  /-- `M` -/
  kind : header[5]? = some 77
  /-- the digits and the commas are there -/
  fits : HeaderFits header
  /-- how many sentences the message has -/
  sentences : headerDigit header 7 = s.sentences
  /-- which of them this is -/
  sentencenum : headerDigit header 9 = s.sentencenum
  /-- what the copy will take -/
  payload : payloadRead header left = s.payload

/-- A well-formed sentence has such a header. -/
theorem Sentence.WellFormed.headerOf {s : Sentence} (h : s.WellFormed) {front : List UInt8}
    (hfront : front <+: s.text) (hlong : 14 + s.payload.length ≤ front.length)
    (stale : List UInt8) : HeaderOf s (front ++ stale) front.length := by
  obtain ⟨head, more, rfl, hlen, hcount, ⟨fields, hfields⟩, hmore⟩ := h.front_payload hfront hlong
  have hnumbers := h.numbered
  have hdigit : ∀ n ≤ 9, (UInt8.ofNat (48 + n)).toInt8.toInt - 48 = (n : ℤ) := by decide
  have hchar : ∀ i < 10, ((head ++ 44 :: (s.payload ++ more)) ++ stale)[i]? =
      ([33, 65, 73, 86, 68, 77, 44, UInt8.ofNat (48 + s.sentences), 44,
        UInt8.ofNat (48 + s.sentencenum)] : List UInt8)[i]? := by
    intro i hi
    rw [← hfields, List.append_assoc, List.append_assoc, List.getElem?_append_left hi]
  have hcomma : ∀ c ∈ s.payload, decide (c ≠ 44) = true := fun c hc =>
    decide_eq_true (h.letters c hc).ne.1
  have hend : more.takeWhile (· ≠ 44) = [] := by
    cases more with
    | nil => rfl
    | cons c more =>
      rw [hmore c rfl]
      rfl
  refine ⟨hchar 0 (by decide), hchar 1 (by decide), hchar 5 (by decide), ⟨?_, .inr ?_⟩, ?_, ?_, ?_⟩
  · simp only [List.length_append, List.length_cons, hlen]
    omega
  · simp only [List.count_append, List.count_cons_self, hcount]
    omega
  · rw [headerDigit, hchar 7 (by decide)]
    exact hdigit _ (by omega)
  · rw [headerDigit, hchar 9 (by decide)]
    exact hdigit _ (by omega)
  · have hfifth : nthComma 5 (((head ++ 44 :: (s.payload ++ more)) ++ stale).take 20) = 13 := by
      rw [List.append_assoc, List.take_append, List.take_of_length_le (by omega), hlen,
        List.cons_append, List.take_succ_cons, ← hlen, ← nthComma_append, hcount]
    have hdrop : (head ++ 44 :: (s.payload ++ more)).drop (13 + 1) = s.payload ++ more := by
      rw [← hlen, List.drop_length_add_append, List.drop_succ_cons, List.drop_zero]
    rw [payloadRead, hfifth, List.take_left, hdrop, List.takeWhile_append_of_pos hcomma, hend,
      List.append_nil]

/-- Such a read is taken for the digits and the payload of the sentence. -/
theorem threadenRead_part {s : Sentence} (h : s.WellFormed) {tail front : List UInt8}
    (htail : 33 ∉ tail) (hfront : front <+: s.text) (hlong : 14 + s.payload.length ≤ front.length)
    (hfit : (tail ++ front).length ≤ 255) (gui : GuiState)
    (hbefore : lettersBefore s.sentencenum gui.lettersread ≤ 500) :
    threadenRead (tail ++ front) gui = takePayload s.sentences s.sentencenum s.payload
      { gui with nmeabuffer := afterRead gui.nmeabuffer (tail ++ front) } := by
  have hheader := h.headerOf hfront hlong
    (0 :: gui.nmeabuffer.toList.drop ((tail ++ front).length + 1))
  have hdrop : (afterRead gui.nmeabuffer (tail ++ front)).toList.drop tail.length =
      front ++ 0 :: gui.nmeabuffer.toList.drop ((tail ++ front).length + 1) := by
    rw [toList_afterRead _ hfit, List.append_assoc, List.drop_left]
  have hlen : (tail ++ front).length = tail.length + front.length := List.length_append
  have hbang : front.head? = some 33 := by
    have hzero := hheader.bang
    rwa [List.getElem?_append_left (by omega), ← List.head?_eq_getElem?] at hzero
  have hidx : (tail ++ front).idxOf 33 = tail.length := by
    obtain ⟨rest, rfl⟩ := List.head?_eq_some_iff.mp hbang
    rw [List.idxOf_append_of_notMem htail, List.idxOf_cons_self, Nat.add_zero]
  have hnext : 1 < (front ++ 0 :: gui.nmeabuffer.toList.drop ((tail ++ front).length + 1)).length := by
    rw [List.length_append]
    omega
  have hleft : (tail ++ front).length - tail.length = front.length := by omega
  rw [threadenRead_eq (List.length_pos_iff.mp (by omega)) hfit, hidx]
  dsimp only
  rw [if_neg (by omega), startsSentence_eq hdrop hheader.bang hnext, if_pos hheader.talker,
    hheader.kind]
  refine (takeSentence_eq hdrop hfit hheader.fits ?_).trans ?_
  · rw [hheader.sentencenum]
    exact hbefore
  · rw [hheader.sentences, hheader.sentencenum, hleft, hheader.payload]

/-! ## Letters to bits

The daemon adds 48 or 56 to six bits, and the thread takes it off again. The two agree for
the 64 letters there are. -/

/-- Every bit of a letter is taken from it. -/
theorem letterBit_dearmour {c : UInt8} (h : Sentence.IsLetter c) {j : ℕ} (hj : j < 6) :
    (dearmour c)[j]?.map byte = some (letterBit c j) := by
  have hall : ∀ n < 120, 48 ≤ n → ∀ j < 6,
      (dearmour (UInt8.ofNat n))[j]?.map byte = some (letterBit (UInt8.ofNat n) j) := by
    decide +kernel
  have hc : UInt8.ofNat c.toNat = c := UInt8.ofNat_toNat
  rw [← hc]
  rcases h with ⟨hlow, hhigh⟩ | ⟨hlow, hhigh⟩
  · exact hall _ (Nat.lt_of_le_of_lt (UInt8.le_iff_toNat_le.mp hhigh) (by decide))
      (UInt8.le_iff_toNat_le.mp hlow) j hj
  · exact hall _ (Nat.lt_of_le_of_lt (UInt8.le_iff_toNat_le.mp hhigh) (by decide))
      (Nat.le_trans (by decide) (UInt8.le_iff_toNat_le.mp hlow)) j hj

/-- The bits the letters of a payload stand for, one a byte. -/
def payloadBits (letters : List UInt8) : List UInt8 := (letters.flatMap dearmour).map byte

/-- Six bits a letter. -/
@[simp] theorem length_dearmour (c : UInt8) : (dearmour c).length = 6 := length_toBits _ _

/-- They are the bits `aisdecode` stores. -/
theorem payloadBits_eq {letters : List UInt8} (h : ∀ c ∈ letters, Sentence.IsLetter c) :
    payloadBits letters = lineBits letters := by
  refine List.ext_getElem? fun i => ?_
  rw [payloadBits, List.getElem?_map, getElem?_flatMap_blocks length_dearmour (by decide),
    getElem?_lineBits]
  cases hc : letters[i / 6]? with
  | none => rfl
  | some c => exact letterBit_dearmour (h c (List.mem_of_getElem? hc)) (Nat.mod_lt _ (by decide))

/-- `aisdecode` leaves the bits of a terminated payload in `r_buffer` and
dispatches on them. -/
theorem aisdecode_eq {aisline : AisLine} {letters : List UInt8}
    (hline : HoldsAt aisline 0 (letters ++ [0])) (hletters : ∀ c ∈ letters, Sentence.IsLetter c)
    (hfit : letters.length ≤ 100) (rBuffer : RBuffer) (data : ShipData) :
    aisdecode aisline rBuffer data =
      some (letters.length * 6, splice rBuffer 0 (payloadBits letters),
        decodedShip (splice rBuffer 0 (payloadBits letters)) data) := by
  have hzero : letters.takeWhile (· ≠ 0) = letters :=
    List.takeWhile_eq_self_iff.mpr fun c hc => by simpa using (hletters c hc).ne.2.2
  have hcomma : letters.takeWhile (· ≠ 44) = letters :=
    List.takeWhile_eq_self_iff.mpr fun c hc => by simpa using (hletters c hc).ne.1
  rw [aisdecode_eq_ite hline, payloadBits_eq hletters]
  dsimp only
  rw [hzero, hcomma, if_pos hfit]

/-! ## One sentence

The thread expects a sentence if its number follows the one before. Of a message that is
read from its start every sentence is expected. -/

/-- Between two reads: the payloads of the sentences up to `sentencenum` are in `aisline`.
What stands in `aisline` behind the letters is of no concern. -/
structure Collected (gui : GuiState) (sentencenum : ℕ) (letters : List UInt8) : Prop where
  /-- the letters, and no more -/
  lettersread : gui.lettersread = letters.length
  /-- they stand at the start of `aisline` -/
  aisline : HoldsAt gui.aisline 0 letters
  /-- the next sentence is the one after these -/
  previoussentence : gui.previoussentence = sentencenum

/-- The calls of `aisdecode`: `lengde`, and what they left in `r_buffer`. -/
def aisdecodes (calls : List GuiCall) : List (ℕ × RBuffer) :=
  calls.filterMap fun
    | .aisdecode lengde rBuffer => some (lengde, rBuffer)
    | .updateship _ => none

/-- Only what is left in `r_buffer`. -/
theorem decodes_eq (calls : List GuiCall) : decodes calls = (aisdecodes calls).map Prod.snd := by
  rw [decodes, aisdecodes, List.map_filterMap]
  congr 1
  funext call
  cases call <;> rfl

/-- The calls of two passes. -/
theorem aisdecodes_append (calls calls' : List GuiCall) :
    aisdecodes (calls ++ calls') = aisdecodes calls ++ aisdecodes calls' := List.filterMap_append

/-- The calls of some passes. -/
theorem aisdecodes_flatten (calls : List (List GuiCall)) :
    aisdecodes calls.flatten = calls.flatMap aisdecodes := by
  induction calls with
  | nil => rfl
  | cons cs calls ih => rw [List.flatten_cons, aisdecodes_append, ih, List.flatMap_cons]

/-- The end of the loop body: the message is decoded once if this was its last
sentence, and not at all otherwise. -/
theorem finishSentence_collected {sentences sentencenum : ℕ} {gui : GuiState}
    {letters : List UInt8} (hlen : gui.lettersread = letters.length)
    (hline : HoldsAt gui.aisline 0 letters) (hletters : ∀ c ∈ letters, Sentence.IsLetter c)
    (hfit : letters.length ≤ 100) :
    ∃ gui' calls, finishSentence sentences sentencenum gui = some (gui', calls) ∧
      Collected gui' sentencenum letters ∧
      aisdecodes calls = if sentences ≤ sentencenum then
        [(letters.length * 6, splice gui.rBuffer 0 (payloadBits letters))] else [] := by
  rw [finishSentence]
  by_cases hlast : sentences ≤ sentencenum
  · have hterminated := hline.splice [0] (by rw [List.length_singleton]; omega)
    rw [Nat.zero_add] at hterminated
    have hdecode := aisdecode_eq hterminated hletters hfit gui.rBuffer gui.shipd
    rw [if_pos (by omega), if_pos hlast, hlen, wr_eq _ _ (by omega)]
    simp only [Option.bind_eq_bind, Option.bind_some]
    rw [show gui.aisline.setIfInBounds letters.length 0 = splice gui.aisline letters.length [0]
      from rfl, hdecode]
    simp only [Option.bind_some]
    split
    · exact ⟨_, _, rfl, ⟨rfl, hterminated.left, rfl⟩, rfl⟩
    · exact ⟨_, _, rfl, ⟨rfl, hterminated.left, rfl⟩, rfl⟩
  · rw [if_neg (by omega), if_neg hlast]
    simp only [Option.bind_eq_bind, Option.bind_some]
    split
    · exact ⟨_, _, rfl, ⟨hlen, hline, rfl⟩, rfl⟩
    · exact ⟨_, _, rfl, ⟨hlen, hline, rfl⟩, rfl⟩

/-- The letters before a sentence: none before the first, and those of the
sentences before it otherwise. -/
def Expects (gui : GuiState) (sentencenum : ℕ) (letters : List UInt8) : Prop :=
  (sentencenum = 1 ∧ letters = []) ∨
    (1 < sentencenum ∧ Collected gui (sentencenum - 1) letters)

/-- What is expected does not depend on the array of the read. -/
theorem Expects.nmeabuffer {gui : GuiState} {sentencenum : ℕ} {letters : List UInt8}
    (h : Expects gui sentencenum letters) (nmeabuffer : NmeaBuffer) :
    Expects { gui with nmeabuffer } sentencenum letters :=
  h.imp_right fun ⟨hmore, hlen, hline, hprevious⟩ => ⟨hmore, hlen, hline, hprevious⟩

/-- A sentence that is expected is not skipped and continues the letters. -/
theorem Expects.continues {gui : GuiState} {sentencenum : ℕ} {letters : List UInt8}
    (h : Expects gui sentencenum letters) :
    ¬ Skipped sentencenum gui.previoussentence ∧
      lettersBefore sentencenum gui.lettersread = letters.length ∧
      HoldsAt gui.aisline 0 letters := by
  rcases h with ⟨rfl, rfl⟩ | ⟨hmore, hcollected⟩
  · refine ⟨fun hh => absurd hh.1 (by decide), rfl, ?_⟩
    intro i hi
    cases hi
  · refine ⟨fun hh => hh.2 ?_, ?_, hcollected.aisline⟩
    · rw [hcollected.previoussentence]
      omega
    · rw [lettersBefore, if_neg (by omega)]
      exact hcollected.lettersread

/-- A sentence of a message, once its payload is read. -/
theorem takePayload_collected {s : Sentence} (h : s.WellFormed) {gui : GuiState}
    {letters : List UInt8} (horder : Expects gui s.sentencenum letters)
    (hletters : ∀ c ∈ letters, Sentence.IsLetter c)
    (hfit : (letters ++ s.payload).length ≤ 100) :
    ∃ gui' calls, takePayload s.sentences s.sentencenum s.payload gui = some (gui', calls) ∧
      Collected gui' s.sentencenum (letters ++ s.payload) ∧
      aisdecodes calls = if s.sentences ≤ s.sentencenum then
        [((letters ++ s.payload).length * 6,
          splice gui.rBuffer 0 (payloadBits (letters ++ s.payload)))] else [] := by
  obtain ⟨hskip, hread, hline⟩ := horder.continues
  have hall : ∀ c ∈ letters ++ s.payload, Sentence.IsLetter c := fun c hc =>
    (List.mem_append.mp hc).elim (hletters c) (h.letters c)
  have hlen : letters.length + s.payload.length = (letters ++ s.payload).length :=
    List.length_append.symm
  have hnext := hline.splice s.payload (by omega)
  rw [Nat.zero_add] at hnext
  rw [takePayload, if_neg hskip, hread, if_pos (by omega), hlen]
  exact finishSentence_collected rfl hnext hall hfit

/-- A sentence is longer than its payload by fourteen characters at least. -/
theorem Sentence.length_payload_le (s : Sentence) : 14 + s.payload.length ≤ s.text.length := by
  simp only [text, body, List.length_cons, List.length_append, length_core]
  omega

/-- One read of one sentence of a message. -/
theorem threadenRead_sentence {s : Sentence} (h : s.WellFormed) {gui : GuiState}
    {letters : List UInt8} (horder : Expects gui s.sentencenum letters)
    (hletters : ∀ c ∈ letters, Sentence.IsLetter c)
    (hfit : (letters ++ s.payload).length ≤ 100) :
    ∃ gui' calls, threadenRead s.text gui = some (gui', calls) ∧
      Collected gui' s.sentencenum (letters ++ s.payload) ∧
      aisdecodes calls = if s.sentences ≤ s.sentencenum then
        [((letters ++ s.payload).length * 6,
          splice gui.rBuffer 0 (payloadBits (letters ++ s.payload)))] else [] := by
  have hlen := h.length_text
  rw [List.length_append] at hlen
  have hbefore : lettersBefore s.sentencenum gui.lettersread ≤ 500 := by
    rw [horder.continues.2.1]
    rw [List.length_append] at hfit
    omega
  have hread := threadenRead_part h List.not_mem_nil (List.prefix_refl _) s.length_payload_le
    (by rw [List.nil_append]; omega) gui hbefore
  rw [List.nil_append] at hread
  rw [hread]
  exact takePayload_collected h (horder.nmeabuffer _) hletters hfit

/-! ## The sentences of a message

The letters collected after sentence `i` are those of the first `i` payloads, and after
the last one all letters of the message. -/

/-- A sentence is not empty, so it is not taken for the end of the stream. -/
theorem Sentence.text_ne_nil (s : Sentence) : s.text ≠ [] := List.cons_ne_nil _ _

/-- Sentence `i + 1` of a message, with the letters before it collected. -/
theorem threadenRead_make {letters : List UInt8} (hletters : ∀ c ∈ letters, Sentence.IsLetter c)
    (hfit : letters.length ≤ 100) {seqnr : UInt8} {fillbits n i : ℕ}
    (hwell : (Sentence.make n (i + 1) seqnr fillbits (payloadOf letters i)).WellFormed)
    {gui : GuiState} (horder : Expects gui (i + 1) (letters.take (61 * i))) :
    ∃ gui' calls, threadenRead
        (Sentence.make n (i + 1) seqnr fillbits (payloadOf letters i)).text gui =
        some (gui', calls) ∧
      Collected gui' (i + 1) (letters.take (61 * (i + 1))) ∧
      aisdecodes calls = if n ≤ i + 1 then
        [((letters.take (61 * (i + 1))).length * 6,
          splice gui.rBuffer 0 (payloadBits (letters.take (61 * (i + 1)))))] else [] := by
  have hnext : letters.take (61 * (i + 1)) = letters.take (61 * i) ++ payloadOf letters i := by
    rw [payloadOf, Nat.mul_succ, List.take_add]
  have hlen : (letters.take (61 * (i + 1))).length ≤ 100 := by
    rw [List.length_take]
    omega
  rw [hnext] at hlen ⊢
  exact threadenRead_sentence hwell horder (fun c hc => hletters c (List.mem_of_mem_take hc)) hlen

/-- The sentences of a message, read one by one: only the last one is followed
by a decoding, of all letters. The induction is on the sentences that are still
to come after sentence `i + 1`. -/
theorem threaden_message {letters : List UInt8} (hletters : ∀ c ∈ letters, Sentence.IsLetter c)
    (hfit : letters.length ≤ 100) {seqnr : UInt8} {fillbits n : ℕ}
    (hwell : ∀ j < n, (Sentence.make n (j + 1) seqnr fillbits (payloadOf letters j)).WellFormed)
    (m : ℕ) : ∀ (i : ℕ) (gui : GuiState), i + (m + 1) = n →
      Expects gui (i + 1) (letters.take (61 * i)) →
      ∃ gui' before last rBuffer,
        threaden (((List.range' i (m + 1)).map fun j =>
            (Sentence.make n (j + 1) seqnr fillbits (payloadOf letters j)).text).map some) gui =
          some (gui', before ++ [last]) ∧
        before.length = m ∧ (∀ calls ∈ before, aisdecodes calls = []) ∧
        aisdecodes last = [((letters.take (61 * n)).length * 6,
          splice rBuffer 0 (payloadBits (letters.take (61 * n))))] := by
  induction m with
  | zero =>
    intro i gui hi horder
    obtain ⟨gui', calls, hrun, -, hdecodes⟩ := threadenRead_make hletters hfit (hwell i (by omega)) horder
    rw [if_pos (by omega), show i + 1 = n by omega] at hdecodes
    refine ⟨gui', [], calls, gui.rBuffer, ?_, rfl, fun _ h => absurd h List.not_mem_nil,
      hdecodes⟩
    rw [List.range'_succ, List.map_cons, List.map_cons, threaden_cons (Sentence.text_ne_nil _), hrun]
    rfl
  | succ m ih =>
    intro i gui hi horder
    obtain ⟨gui₁, calls, hrun, hcollected, hdecodes⟩ := threadenRead_make hletters hfit (hwell i (by omega)) horder
    rw [if_neg (by omega)] at hdecodes
    obtain ⟨gui', before, last, rBuffer, hrest, hlen, hbefore, hlast⟩ :=
      ih (i + 1) gui₁ (by omega) (.inr ⟨by omega, hcollected⟩)
    refine ⟨gui', calls :: before, last, rBuffer, ?_, by rw [List.length_cons, hlen], ?_, hlast⟩
    · rw [List.range'_succ, List.map_cons, List.map_cons, threaden_cons (Sentence.text_ne_nil _),
        hrun, Option.bind_some, hrest]
      rfl
    · intro cs hcs
      rcases List.mem_cons.mp hcs with rfl | hcs
      · exact hdecodes
      · exact hbefore cs hcs

/-- The sentences of a padded message leave it in `r_buffer`. -/
theorem threaden_messageSentences {padded : Frame} (hbits : IsBits padded) {seqnr : UInt8}
    {bufferlen fillbits : ℕ} (hpos : 0 < bufferlen) (h6 : bufferlen % 6 = 0)
    (hfit : bufferlen ≤ 450) (hseqnr : seqnr ≤ 9) (hfill : fillbits ≤ 5) (gui : GuiState) :
    ∃ gui' before last rBuffer,
      threaden (((messageSentences padded seqnr bufferlen fillbits).map Sentence.text).map some)
        gui = some (gui', before ++ [last]) ∧
      before.length + 1 = (messageSentences padded seqnr bufferlen fillbits).length ∧
      (∀ calls ∈ before, aisdecodes calls = []) ∧ aisdecodes last = [(bufferlen, rBuffer)] ∧
      ∀ i < bufferlen, rBuffer[i]? = padded[i]? := by
  have hlen : ((bitsOf padded).take bufferlen).length = bufferlen := by
    rw [List.length_take, length_bitsOf]
    omega
  obtain ⟨m, hm⟩ : ∃ m, sentenceCount bufferlen = m + 1 :=
    ⟨sentenceCount bufferlen - 1, by rw [sentenceCount]; omega⟩
  have hcount : (bufferlen + 365) / 366 = m + 1 := hm
  have hwell := messageSentences_wellFormed padded h6 hfit hseqnr hfill
  obtain ⟨gui', before, last, rBuffer, hrun, hbefore, hnone, hlast⟩ := threaden_message
    (fun c hc => isLetter_of_mem hc)
    (show (lettersOf ((bitsOf padded).take bufferlen)).length ≤ 100 by
      rw [length_lettersOf, hlen]
      omega)
    (fun j hj => hwell _ (List.mem_map.mpr ⟨j, List.mem_range.mpr hj, rfl⟩)) m 0 gui
    (by rw [hm, Nat.zero_add]) (.inl ⟨rfl, rfl⟩)
  -- the last payload ends with the letters
  have hall : (lettersOf ((bitsOf padded).take bufferlen)).take (61 * sentenceCount bufferlen) =
      lettersOf ((bitsOf padded).take bufferlen) := by
    rw [hm]
    refine List.take_of_length_le ?_
    rw [length_lettersOf, hlen]
    omega
  have hletters : (lettersOf ((bitsOf padded).take bufferlen)).length * 6 = bufferlen := by
    rw [length_lettersOf, hlen]
    omega
  rw [hall, hletters, payloadBits, dearmour_lettersOf (by rw [hlen]; exact h6)] at hlast
  refine ⟨gui', before, last, _, ?_, ?_, hnone, hlast, ?_⟩
  · have htexts : (messageSentences padded seqnr bufferlen fillbits).map Sentence.text =
        (List.range' 0 (m + 1)).map fun j => (Sentence.make (sentenceCount bufferlen) (j + 1) seqnr
          fillbits (payloadOf (lettersOf ((bitsOf padded).take bufferlen)) j)).text := by
      rw [messageSentences, List.map_map, List.range_eq_range', hm]
      rfl
    rw [htexts]
    exact hrun
  · rw [messageSentences, List.length_map, List.length_range, hbefore, hm]
  · intro i hi
    have hheld := holdsAt_splice rBuffer (((bitsOf padded).take bufferlen).map byte)
      (by rw [List.length_map, hlen]; omega) i (by rw [List.length_map, hlen]; exact hi)
    rw [Nat.zero_add, List.getElem?_map, List.getElem?_take_of_lt hi,
      ← getElem?_bitsOf hbits] at hheld
    exact hheld

/-! ## Any sequence of messages

After the last sentence of a message the next one starts with `lettersread` set back,
since its first sentence has the number 1. So messages do not disturb each other, whatever
`r_buffer` holds. -/

/-- A frame a decoder handed over, with the calls made at its last bit. -/
structure Handed where
  /-- the bits of the frame -/
  bufferlen : ℕ
  /-- the array of the decoder that accepted it -/
  rbuffer : Frame
  /-- with the strings written to the socket among them -/
  calls : List Call

namespace Handed

/-- A decoder that writes to the socket accepted the frame after some run. -/
def Accepted (cfg : Config) (f : Handed) : Prop :=
  ∃ clock mem serial chanid s b d d' calls,
    protodecDecode cfg clock s (protodecInitialize mem serial true chanid) = some (d, calls) ∧
    protodecDecodeBit cfg (clock d.receivedframes) b d = some (d', f.calls) ∧
    getdataCalls f.calls = [(f.bufferlen, f.rbuffer)]

/-- What the reads of the sentences of a frame must give: `aisdecode` is called after the
last sentence and only there, and leaves the padded frame. That the earlier passes decode
nothing is part of it: the message is decoded once. -/
structure Delivered (f : Handed) (calls : List (List GuiCall)) : Prop where
  /-- one read a sentence -/
  reads : calls.length = (ipcWrites f.calls).length
  /-- the last pass decodes the message, and no other does -/
  decoded : ∃ before last rBuffer padded,
    calls = before ++ [last] ∧ (∀ cs ∈ before, decodes cs = []) ∧ decodes last = [rBuffer] ∧
    storeAt f.rbuffer f.bufferlen (List.replicate (fillbitsOf f.bufferlen) 0) = some padded ∧
    ∀ i < f.bufferlen + fillbitsOf f.bufferlen, rBuffer[i]? = padded[i]?

/-- What `aisdecode` makes of a frame: the padded frame, and no bit more. -/
structure Decoded (f : Handed) (call : ℕ × RBuffer) : Prop where
  /-- the length with the bits that were added to fill the last letter -/
  lengde : call.1 = f.bufferlen + fillbitsOf f.bufferlen
  /-- the bits, with zeros behind them -/
  payload : ∃ padded,
    storeAt f.rbuffer f.bufferlen (List.replicate (fillbitsOf f.bufferlen) 0) = some padded ∧
    ∀ i < f.bufferlen + fillbitsOf f.bufferlen, call.2[i]? = padded[i]?

/-- What is written for a frame, sentence by sentence. -/
theorem Accepted.sentences {cfg : Config} {f : Handed} (h : f.Accepted cfg)
    (hknown : KnownType f.rbuffer) :
    ∃ sentences : List Sentence, ipcWrites f.calls = sentences.map Sentence.text ∧
      (∀ s ∈ sentences, s.WellFormed) ∧
      sentences.length = sentenceCount (f.bufferlen + fillbitsOf f.bufferlen) ∧
      ∀ gui : GuiState, ∃ gui' calls call,
        threaden ((ipcWrites f.calls).map some) gui = some (gui', calls) ∧
          f.Delivered calls ∧ aisdecodes calls.flatten = [call] ∧ f.Decoded call := by
  obtain ⟨clock, mem, serial, chanid, s, b, d, d', calls, hrun, hbit, hframe⟩ := h
  obtain ⟨hsim, hfits, hseqnr, -, hipc⟩ := run_invariant cfg clock mem serial true chanid hrun
  obtain ⟨⟨hpos, hfit⟩, hbits, calls₁, hobs, hcalls⟩ := handing_bit cfg clock hsim hfits hbit hframe
  rw [hipc] at hobs
  obtain ⟨padded, hpadded, hwrites⟩ := ipcWrites_getdataObs hobs hknown hbits hpos hfit hseqnr
  have hsent : ipcWrites f.calls = (messageSentences padded d.seqnr
      (f.bufferlen + fillbitsOf f.bufferlen) (fillbitsOf f.bufferlen)).map Sentence.text := by
    rw [hcalls]
    exact hwrites
  have hfill := fillbitsOf_le f.bufferlen
  have hfit' : f.bufferlen + fillbitsOf f.bufferlen ≤ 450 := by omega
  obtain ⟨padded', hpadded', hbits'⟩ := isBits_padded hbits hfit'
  obtain rfl := Option.some.inj (hpadded'.symm.trans hpadded)
  refine ⟨_, hsent, messageSentences_wellFormed padded' (padded_mod f.bufferlen) hfit' hseqnr hfill,
    by rw [messageSentences, List.length_map, List.length_range], fun gui => ?_⟩
  obtain ⟨gui', before, last, rBuffer, hrun, hlen, hbefore, hlast, hheld⟩ :=
    threaden_messageSentences hbits' (by omega) (padded_mod f.bufferlen) hfit' hseqnr hfill gui
  rw [hsent]
  refine ⟨gui', _, (_, rBuffer), hrun, ⟨?_, before, last, rBuffer, padded', rfl, ?_, ?_, hpadded, hheld⟩,
    ?_, rfl, padded', hpadded, hheld⟩
  · rw [hsent, List.length_map, List.length_append, List.length_singleton, hlen]
  · intro calls hcalls
    rw [decodes_eq, hbefore calls hcalls, List.map_nil]
  · rw [decodes_eq, hlast, List.map_singleton]
  · have hnone : before.flatMap aisdecodes = [] := List.flatMap_eq_nil_iff.mpr hbefore
    rw [aisdecodes_flatten, List.flatMap_append, hnone, List.nil_append, List.flatMap_singleton,
      hlast]

end Handed

/-- The sentences of any sequence of accepted frames, delivered one per read. -/
theorem threaden_frames (cfg : Config) {frames : List Handed}
    (haccepted : ∀ f ∈ frames, f.Accepted cfg) (hknown : ∀ f ∈ frames, KnownType f.rbuffer)
    (gui : GuiState) :
    ∃ gui' calls,
      threaden ((frames.flatMap fun f => ipcWrites f.calls).map some) gui =
        some (gui', calls.flatten) ∧
      List.Forall₂ Handed.Delivered frames calls ∧
      List.Forall₂ Handed.Decoded frames (aisdecodes calls.flatten.flatten) := by
  induction frames generalizing gui with
  | nil => exact ⟨gui, [], rfl, .nil, .nil⟩
  | cons f frames ih =>
    obtain ⟨sentences, hsent, -, -, hread⟩ :=
      (haccepted f (List.mem_cons_self ..)).sentences (hknown f (List.mem_cons_self ..))
    have hne : ∀ text ∈ ipcWrites f.calls, text ≠ [] := by
      rw [hsent]
      exact List.forall_mem_map.mpr fun s _ => s.text_ne_nil
    obtain ⟨gui₁, calls, call, hrun, hdelivered, hcall, hdecoded⟩ := hread gui
    obtain ⟨gui', rest, hrest, hall, hall'⟩ := ih
      (fun g hg => haccepted g (List.mem_cons_of_mem _ hg))
      (fun g hg => hknown g (List.mem_cons_of_mem _ hg)) gui₁
    refine ⟨gui', calls :: rest, ?_, .cons hdelivered hall, ?_⟩
    · rw [List.flatMap_cons, List.map_append, threaden_append hne, hrun, Option.bind_some, hrest]
      rfl
    · rw [List.flatten_cons, List.flatten_append, aisdecodes_append, hcall]
      exact .cons hdecoded hall'

/-- The strings passed to `ipc_write` for any sequence of accepted frames of known types,
delivered one per read: for each frame `aisdecode` is called once, after the last
sentence, and leaves the padded frame in `r_buffer`. The window may be in any state before
the first sentence, and what it stored earlier does not matter. -/
theorem transport_identity (cfg : Config) {frames : List Handed}
    (haccepted : ∀ f ∈ frames, f.Accepted cfg) (hknown : ∀ f ∈ frames, KnownType f.rbuffer)
    (gui : GuiState) :
    ∃ gui' calls,
      threaden ((frames.flatMap fun f => ipcWrites f.calls).map some) gui =
        some (gui', calls.flatten) ∧
      List.Forall₂ Handed.Delivered frames calls := by
  obtain ⟨gui', calls, hrun, hdelivered, -⟩ := threaden_frames cfg haccepted hknown gui
  exact ⟨gui', calls, hrun, hdelivered⟩

/-- A frame of one octet is accepted, and of a known type. -/
theorem octetFrame_accepted : ∃ f : Handed, f.rbuffer = octetFrame ∧ f.bufferlen = 8 ∧
    f.Accepted .silent ∧ KnownType f.rbuffer := by
  obtain ⟨d, calls, d', calls', hrun, hbit, hframe⟩ := octetFrame_handed
  exact ⟨⟨8, octetFrame, calls'⟩, rfl, rfl, ⟨fun _ => 0, .zeroed, false, 65, wholeStream, false, d,
    d', calls, hrun, hbit, hframe⟩, octetFrame_known⟩

/-- The same frame twice, to a window that has just been opened. -/
theorem transport_identity_octet : ∃ f : Handed, f.rbuffer = octetFrame ∧ ∃ gui' calls,
    threaden (([f, f].flatMap fun f => ipcWrites f.calls).map some)
      (.initial (.replicate 256 0) (.replicate 500 0) ⟨0, 0, .lit 0, .lit 0, .lit 0, .lit 0, .lit 0⟩)
      = some (gui', calls.flatten) ∧
    List.Forall₂ Handed.Delivered [f, f] calls := by
  obtain ⟨f, hf, -, haccepted, hknown⟩ := octetFrame_accepted
  refine ⟨f, hf, transport_identity .silent ?_ ?_ _⟩
  · intro g hg
    rcases List.mem_pair.mp hg with rfl | rfl <;> exact haccepted
  · intro g hg
    rcases List.mem_pair.mp hg with rfl | rfl <;> exact hknown

end Gnuais

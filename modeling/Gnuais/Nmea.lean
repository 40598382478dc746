import Gnuais.Messages
import Mathlib.Order.Basic

/-!
# Building the NMEA sentences

`protodec_generate_nmea`: the payload characters, the trailer and the header
are stored into `d->nmea` at computed offsets, the checksum is taken over what
lies there and patched in, and the result is formatted for the serial port and
the socket. One buffer serves all sentences of a message and is never cleared.

The second half says what comes out. `sentenceBody` is the sentence as a
function of the frame alone, and `generateLoop_eq` says that the loop emits
exactly these bodies, whatever the buffers held before.
-/

namespace Gnuais

open Buffer

/-- `senlen`, the payload characters of one sentence -/
abbrev senlen : ℕ := 61

/-- `d->nmea` -/
abbrev NmeaBuf : Type := Vector UInt8 serbufferLen

/-! ## The code

The source computes with indices into one array. Every store and every read goes through
`wr` or `[·]?` here, so an index outside the array makes the whole loop `none`. -/

/-- The six-bit armouring of IEC 61162. -/
def armour (letter : ℕ) : UInt8 :=
  UInt8.ofNat (if letter < 40 then letter + 48 else letter + 56)

/-- The number of sentences, an `unsigned char`. -/
def sentencesOf (bufferlen : ℕ) : ℕ :=
  if bufferlen ≤ senlen * 6 then 1
  else
    let sentences := bufferlen / (senlen * 6) % 256
    if bufferlen % (senlen * 6) ≠ 0 then (sentences + 1) % 256 else sentences

/-- The payload loop, entered with `k = 13`: it stops after `senlen`
characters or at the end of the message, and leaves `pos`, `k` and the
buffer. `left` is `senlen + 13 - k`. -/
def payloadLoop (bufferlen : ℕ) (rbuffer : Frame) (left pos k : ℕ) (nmea : NmeaBuf) :
    Option (ℕ × ℕ × NmeaBuf) :=
  match left with
  | 0 => some (pos, k, nmea)
  | left + 1 =>
    if bufferlen > pos then do
      let letter ← protodecHenten pos 6 rbuffer
      let nmea ← wr nmea k (armour letter)
      payloadLoop bufferlen rbuffer left (pos + 6) (k + 1) nmea
    else some (pos, k, nmea)

/-- The checksum loop `while (nmea[m] != '*')`. A read behind the buffer is a
fault, so `serbufferLen` steps are as good as unboundedly many. -/
def nmeachkLoop (nmea : NmeaBuf) (left m : ℕ) (nmeachk : UInt8) : Option UInt8 :=
  match left with
  | 0 => none
  | left + 1 => do
    let c ← nmea[m]?
    if c = 42 then some nmeachk else nmeachkLoop nmea left (m + 1) (nmeachk ^^^ c)

/-- A digit of the `%X` conversion. -/
def hexDigit (x : ℕ) : UInt8 := if x < 10 then UInt8.ofNat (48 + x) else UInt8.ofNat (55 + x)

/-- `nchk[0]` and `nchk[1]` after `snprintf(nchk, NCHK_LEN, "%X", nmeachk)`. -/
def nchkOf (nmeachk : UInt8) : UInt8 × UInt8 :=
  if nmeachk.toNat < 16 then (hexDigit nmeachk.toNat, 0)
  else (hexDigit (nmeachk.toNat / 16), hexDigit (nmeachk.toNat % 16))

/-- The stores around the payload, which ends before index `k`: the trailer
with `00` for the checksum, then the header. -/
def assembleSentence (seqnr : UInt8) (fillbits sentences sentencenum k : ℕ) (nmea : NmeaBuf) :
    Option NmeaBuf := do
  let nmea ← storeAt nmea k [44, 48, 42, 48, 48, 0]
  let nmea ← storeAt nmea 0
    [65, 73, 86, 68, 77, 44, UInt8.ofNat (48 + sentences), 44, UInt8.ofNat (48 + sentencenum), 44]
  if sentences > 1 then do
    let nmea ← storeAt nmea 10 [seqnr + 48, 44, 44]
    if sentencenum = sentences then wr nmea (k + 1) (UInt8.ofNat (48 + fillbits))
    else some nmea
  else storeAt nmea 10 [44, 65, 44]

/-- The converted checksum goes over the `00` of the trailer. -/
def patchChecksum (k : ℕ) (nmeachk : UInt8) (nmea : NmeaBuf) : Option NmeaBuf :=
  let nchk := nchkOf nmeachk
  if nchk.2 = 0 then wr nmea (k + 4) nchk.1
  else do
    let nmea ← wr nmea (k + 3) nchk.1
    wr nmea (k + 4) nchk.2

/-- One pass of the sentence loop up to the point where `d->nmea` is complete:
the new `pos` and the buffer. -/
def buildSentence (rbuffer : Frame) (seqnr : UInt8) (bufferlen fillbits sentences sentencenum : ℕ)
    (pos : ℕ) (nmea : NmeaBuf) : Option (ℕ × NmeaBuf) := do
  let (pos, k, nmea) ← payloadLoop bufferlen rbuffer senlen pos 13 nmea
  let nmea ← assembleSentence seqnr fillbits sentences sentencenum k nmea
  let nmeachk ← nmeachkLoop nmea serbufferLen 1 (← nmea[0]?)
  let nmea ← patchChecksum k nmeachk nmea
  return (pos, nmea)

/-- The rest of the pass: the sentence is formatted for the serial port and
the socket and handed to the three sinks. -/
def emitSentence (cfg : Config) (receivedT : ℤ) (d : DemodState) :
    Option (DemodState × List Call) := do
  let (serbuffer, serbufferL) := snprintf d.serbuffer (33 :: (← cString d.nmea) ++ [13, 10])
  let serialCalls ←
    if d.serial then (readOut serbuffer serbufferL).map fun s => [Call.serialWrite s] else some []
  let (ipcbuffer, ipcbufferL) := snprintf d.ipcbuffer (33 :: (← cString d.nmea))
  let ipcCalls ←
    if d.ipc then (readOut ipcbuffer ipcbufferL).map fun s => [Call.ipcWrite s] else some []
  let myCalls ←
    if cfg.my then (cString d.nmea).map fun s => [Call.myoutNmea receivedT s] else some []
  return ({ d with serbuffer := serbuffer, ipcbuffer := ipcbuffer },
    serialCalls ++ ipcCalls ++ myCalls)

/-- The sentence loop, over the values `sentencenum` takes. -/
def generateLoop (cfg : Config) (receivedT : ℤ) (bufferlen fillbits sentences : ℕ) :
    List ℕ → ℕ → DemodState → Option (DemodState × List Call)
  | [], _, d => some (d, [])
  | sentencenum :: nums, pos, d => do
    let (pos, nmea) ←
      buildSentence d.rbuffer d.seqnr bufferlen fillbits sentences sentencenum pos d.nmea
    let (d, calls) ← emitSentence cfg receivedT { d with nmea := nmea }
    let (d, rest) ← generateLoop cfg receivedT bufferlen fillbits sentences nums pos d
    return (d, calls ++ rest)

/-- `protodec_generate_nmea`. The loop body runs at least once, and then as
long as `sentencenum < sentences`. -/
def protodecGenerateNmea (cfg : Config) (receivedT : ℤ) (bufferlen fillbits : ℕ)
    (d : DemodState) : Option (DemodState × List Call) :=
  let sentences := sentencesOf bufferlen
  generateLoop cfg receivedT bufferlen fillbits sentences
    (List.range' 1 (max 1 sentences)) 0 d

/-! ## What one sentence is

The same sentence without the array: its head, its letters, the digit for the fill bits
and the checksum, put one behind the other. -/

/-- The payload characters of a sentence that starts at bit `pos`. -/
def payloadLetters (bufferlen : ℕ) (rbuffer : Frame) : ℕ → ℕ → Option (List UInt8)
  | 0, _ => some []
  | left + 1, pos =>
    if bufferlen > pos then do
      let letter ← protodecHenten pos 6 rbuffer
      let rest ← payloadLetters bufferlen rbuffer left (pos + 6)
      return armour letter :: rest
    else some []

/-- The header of a sentence, without the leading `!`. -/
def sentenceHead (sentences sentencenum : ℕ) (seqnr : UInt8) : List UInt8 :=
  [65, 73, 86, 68, 77, 44, UInt8.ofNat (48 + sentences), 44, UInt8.ofNat (48 + sentencenum), 44]
    ++ if sentences > 1 then [seqnr + 48, 44, 44] else [44, 65, 44]

/-- The fill-bits digit: only the last of several sentences carries one. -/
def fillDigit (sentences sentencenum fillbits : ℕ) : UInt8 :=
  if sentences > 1 ∧ sentencenum = sentences then UInt8.ofNat (48 + fillbits) else 48

/-- What the checksum is taken over, when nothing in it is a `*`. -/
def sentenceCore (sentences sentencenum : ℕ) (seqnr : UInt8) (fillbits : ℕ)
    (letters : List UInt8) : List UInt8 :=
  sentenceHead sentences sentencenum seqnr ++ letters
    ++ [44, fillDigit sentences sentencenum fillbits]

/-- The exclusive or of the characters before the first `*`. -/
def xorStar (s : List UInt8) : UInt8 := (s.takeWhile (· ≠ 42)).foldl (· ^^^ ·) 0

/-- The checksum as the two characters stored for it. -/
def hexPair (x : UInt8) : List UInt8 := [hexDigit (x.toNat / 16), hexDigit (x.toNat % 16)]

/-- The finished sentence, as stored in `d->nmea` before the terminator. -/
def sentenceBody (sentences sentencenum : ℕ) (seqnr : UInt8) (fillbits : ℕ)
    (letters : List UInt8) : List UInt8 :=
  sentenceCore sentences sentencenum seqnr fillbits letters ++ [42]
    ++ hexPair (xorStar (sentenceCore sentences sentencenum seqnr fillbits letters))

/-- The sentences of a message from bit `pos` on, each as the C string a
reader of `d->nmea` sees. -/
def bodiesFrom (rbuffer : Frame) (seqnr : UInt8) (bufferlen fillbits sentences : ℕ) :
    List ℕ → ℕ → Option (List (List UInt8))
  | [], _ => some []
  | sentencenum :: nums, pos => do
    let letters ← payloadLetters bufferlen rbuffer senlen pos
    let rest ←
      bodiesFrom rbuffer seqnr bufferlen fillbits sentences nums (pos + 6 * letters.length)
    return (sentenceBody sentences sentencenum seqnr fillbits letters).takeWhile (· ≠ 0) :: rest

/-- The sentences of a message. -/
def nmeaBodies (rbuffer : Frame) (seqnr : UInt8) (bufferlen fillbits : ℕ) :
    Option (List (List UInt8)) :=
  bodiesFrom rbuffer seqnr bufferlen fillbits (sentencesOf bufferlen)
    (List.range' 1 (max 1 (sentencesOf bufferlen))) 0

/-- What the three sinks are given for one sentence. -/
def sinkCalls (cfg : Config) (serial ipc : Bool) (receivedT : ℤ) (body : List UInt8) :
    List Call :=
  callIf serial (.serialWrite (33 :: body ++ [13, 10])) ++ callIf ipc (.ipcWrite (33 :: body))
    ++ callIf cfg.my (.myoutNmea receivedT body)

/-! ## The code builds these sentences

The loop keeps the buffer from one sentence to the next and never clears it. Each pass
stores a stretch from the front up to a terminator, and a C string ends there, so what the
pass before left behind is never seen. -/

theorem length_payloadLetters {bufferlen : ℕ} {rbuffer : Frame} :
    ∀ {left pos : ℕ} {letters : List UInt8},
      payloadLetters bufferlen rbuffer left pos = some letters → letters.length ≤ left := by
  intro left
  induction left with
  | zero =>
    intro pos letters h
    obtain rfl := Option.some.inj h
    exact le_refl 0
  | succ left ih =>
    intro pos letters h
    rw [payloadLetters] at h
    split at h
    · simp only [Option.bind_eq_bind, Option.bind_eq_some_iff] at h
      obtain ⟨letter, -, rest, hrest, heq⟩ := h
      obtain rfl := Option.some.inj heq
      exact Nat.succ_le_succ (ih hrest)
    · obtain rfl := Option.some.inj h
      exact Nat.zero_le _

/-- The payload loop stores the letters and moves on by six bits for each. -/
theorem payloadLoop_eq (bufferlen : ℕ) (rbuffer : Frame) (left : ℕ) :
    ∀ (pos k : ℕ) (nmea : NmeaBuf), k + left ≤ serbufferLen →
      payloadLoop bufferlen rbuffer left pos k nmea =
        (payloadLetters bufferlen rbuffer left pos).map fun letters =>
          (pos + 6 * letters.length, k + letters.length, splice nmea k letters) := by
  induction left with
  | zero => intro pos k nmea _; rfl
  | succ left ih =>
    intro pos k nmea hk
    rw [payloadLoop, payloadLetters]
    split
    · cases hletter : protodecHenten pos 6 rbuffer with
      | none => rfl
      | some letter =>
        simp only [Option.bind_eq_bind, Option.bind_some]
        rw [wr_eq nmea _ (by omega), Option.bind_some, ih _ _ _ (by omega)]
        cases payloadLetters bufferlen rbuffer left (pos + 6) with
        | none => rfl
        | some rest =>
          simp only [Option.map_some, Option.bind_some, Option.pure_def, List.length_cons, splice]
          rw [show pos + 6 + 6 * rest.length = pos + 6 * (rest.length + 1) by omega,
            show k + 1 + rest.length = k + (rest.length + 1) by omega]
    · rfl

/-- The checksum loop stops at the first `*`. -/
theorem nmeachkLoop_eq (nmea : NmeaBuf) (s rest : List UInt8) :
    ∀ (m left : ℕ) (nmeachk : UInt8), nmea.toList.drop m = s ++ 42 :: rest → s.length < left →
      nmeachkLoop nmea left m nmeachk =
        some ((s.takeWhile (· ≠ 42)).foldl (· ^^^ ·) nmeachk) := by
  induction s with
  | nil =>
    intro m left nmeachk hdrop hleft
    obtain ⟨left, rfl⟩ := Nat.exists_eq_succ_of_ne_zero (Nat.ne_of_gt hleft)
    have hm : nmea[m]? = some 42 := by
      rw [← Vector.getElem?_toList, ← Nat.add_zero m, ← List.getElem?_drop, hdrop]
      rfl
    rw [nmeachkLoop, hm]
    rfl
  | cons c s ih =>
    intro m left nmeachk hdrop hleft
    obtain ⟨left, rfl⟩ := Nat.exists_eq_succ_of_ne_zero (Nat.ne_of_gt (Nat.zero_lt_of_lt hleft))
    have hm : nmea[m]? = some c := by
      rw [← Vector.getElem?_toList, ← Nat.add_zero m, ← List.getElem?_drop, hdrop]
      rfl
    have hnext : nmea.toList.drop (m + 1) = s ++ 42 :: rest := by
      rw [← List.drop_drop, hdrop]
      rfl
    rw [nmeachkLoop, hm]
    simp only [Option.bind_eq_bind, Option.bind_some]
    by_cases hc : c = 42
    · rw [if_pos hc, List.takeWhile_cons_of_neg (by simpa using hc)]
      rfl
    · rw [if_neg hc, ih _ _ _ hnext (by rw [List.length_cons] at hleft; omega),
        List.takeWhile_cons_of_pos (by simpa using hc)]
      rfl

/-- A digit is no terminator. -/
theorem hexDigit_ne_zero : ∀ x < 16, hexDigit x ≠ 0 := by decide

theorem length_sentenceHead (sentences sentencenum : ℕ) (seqnr : UInt8) :
    (sentenceHead sentences sentencenum seqnr).length = 13 := by
  rw [sentenceHead]
  split <;> rfl

theorem length_sentenceCore (sentences sentencenum : ℕ) (seqnr : UInt8) (fillbits : ℕ)
    (letters : List UInt8) :
    (sentenceCore sentences sentencenum seqnr fillbits letters).length = letters.length + 15 := by
  rw [sentenceCore, List.length_append, List.length_append, length_sentenceHead]
  simp only [List.length_cons, List.length_nil]
  omega

theorem length_sentenceBody (sentences sentencenum : ℕ) (seqnr : UInt8) (fillbits : ℕ)
    (letters : List UInt8) :
    (sentenceBody sentences sentencenum seqnr fillbits letters).length = letters.length + 18 := by
  rw [sentenceBody, List.length_append, List.length_append, length_sentenceCore]
  rfl

/-- The letters, the trailer and the header end up as one stretch from the
front of the buffer. -/
theorem assembleSentence_eq (nmea : NmeaBuf) (seqnr : UInt8) (fillbits sentences sentencenum : ℕ)
    {letters : List UInt8} (h : letters.length ≤ 61) :
    assembleSentence seqnr fillbits sentences sentencenum (13 + letters.length)
        (splice nmea 13 letters) =
      some (splice nmea 0
        (sentenceCore sentences sentencenum seqnr fillbits letters ++ [42, 48, 48, 0])) := by
  have hsize : serbufferLen = 100 := rfl
  -- the header, once both its parts are stored in front of the payload
  have hfront : ∀ tail : List UInt8, tail.length = 3 →
      splice (splice (splice nmea 13 (letters ++ [44, 48, 42, 48, 48, 0])) 0
        [65, 73, 86, 68, 77, 44, UInt8.ofNat (48 + sentences), 44, UInt8.ofNat (48 + sentencenum),
          44]) 10 tail =
      splice nmea 0 (([65, 73, 86, 68, 77, 44, UInt8.ofNat (48 + sentences), 44,
        UInt8.ofNat (48 + sentencenum), 44] ++ tail) ++ (letters ++ [44, 48, 42, 48, 48, 0])) := by
    intro tail htail
    rw [← splice_splice_left nmea _ (letters ++ [44, 48, 42, 48, 48, 0]) 0
      (by simp only [List.length_append, List.length_cons, List.length_nil, htail]; omega),
      splice_append _ tail, List.length_append, htail]
    rfl
  rw [assembleSentence,
    storeAt_eq _ _ _ (by simp only [List.length_cons, List.length_nil]; omega), ← splice_append]
  simp only [Option.bind_eq_bind, Option.bind_some]
  rw [storeAt_eq _ _ _ (by simp only [List.length_cons, List.length_nil]; omega),
    Option.bind_some, sentenceCore, sentenceHead]
  by_cases hs : sentences > 1
  · -- several sentences: the sequence number, and in the last one the number of fill bits
    rw [if_pos hs, if_pos hs,
      storeAt_eq _ _ _ (by simp only [List.length_cons, List.length_nil]; omega),
      Option.bind_some, hfront _ rfl]
    by_cases hn : sentencenum = sentences
    · have hset := setIfInBounds_splice nmea
        (([65, 73, 86, 68, 77, 44, UInt8.ofNat (48 + sentences), 44,
          UInt8.ofNat (48 + sentencenum), 44] ++ [seqnr + 48, 44, 44]) ++
          (letters ++ [44, 48, 42, 48, 48, 0])) 0 (13 + letters.length + 1)
        (UInt8.ofNat (48 + fillbits))
        (by simp only [List.length_append, List.length_cons, List.length_nil]; omega)
        (by simp only [List.length_append, List.length_cons, List.length_nil]; omega)
      rw [Nat.zero_add] at hset
      rw [if_pos hn, wr_eq _ _ (by omega), hset, fillDigit, if_pos ⟨hs, hn⟩]
      congr 2
      rw [List.set_append_right _ _ (by simp; omega), List.set_append_right _ _ (by simp; omega)]
      simp [show 13 + letters.length - 12 - letters.length = 1 by omega]
    · rw [if_neg hn, fillDigit, if_neg fun hh => hn hh.2]
      simp
  · -- one sentence: the channel
    rw [if_neg hs, if_neg hs,
      storeAt_eq _ _ _ (by simp only [List.length_cons, List.length_nil]; omega), hfront _ rfl,
      fillDigit, if_neg fun hh => hs hh.1]
    simp

/-- The patch turns `00` into the two digits of the checksum, one-digit
checksums included. -/
theorem patchChecksum_eq (nmea : NmeaBuf) (core : List UInt8) (x : UInt8) {k : ℕ}
    (hk : core.length = k + 2) (h : core.length + 4 ≤ serbufferLen) :
    patchChecksum k x (splice nmea 0 (core ++ [42, 48, 48, 0])) =
      some (splice nmea 0 (core ++ [42] ++ hexPair x ++ [0])) := by
  have hset : ∀ (i : ℕ) (c : UInt8) (ts : List UInt8), i < ts.length →
      core.length + ts.length ≤ serbufferLen →
      wr (splice nmea 0 (core ++ ts)) (core.length + i) c =
        some (splice nmea 0 (core ++ ts.set i c)) := by
    intro i c ts hi hts
    have hone := setIfInBounds_splice nmea (core ++ ts) 0 (core.length + i) c
      (by rw [List.length_append]; omega) (by rw [List.length_append]; omega)
    rw [Nat.zero_add] at hone
    rw [wr_eq _ _ (by omega), hone, List.set_append_right _ _ (by omega), Nat.add_sub_cancel_left]
  rw [patchChecksum, show k + 4 = core.length + 2 by omega, show k + 3 = core.length + 1 by omega,
    nchkOf]
  split
  · rename_i hx
    have h0 : x.toNat / 16 = 0 := Nat.div_eq_of_lt hx
    rw [if_pos rfl, hset 2 _ [42, 48, 48, 0] (by simp) h]
    simp [hexPair, h0, Nat.mod_eq_of_lt hx, hexDigit]
  · rw [if_neg (hexDigit_ne_zero _ (Nat.mod_lt _ (by omega))),
      hset 1 _ [42, 48, 48, 0] (by simp) h]
    simp only [Option.bind_eq_bind, Option.bind_some, List.set_cons_succ, List.set_cons_zero]
    rw [hset 2 _ [42, hexDigit (x.toNat / 16), 48, 0] (by simp) h]
    simp [hexPair]

/-- The checksum read off the assembled buffer. -/
theorem nmeachkLoop_core (nmea : NmeaBuf) (core rest : List UInt8)
    (hlen : core.length + 1 < serbufferLen) (hlist : nmea.toList = 65 :: core ++ 42 :: rest) :
    nmea[0]? = some 65 ∧ nmeachkLoop nmea serbufferLen 1 65 = some (xorStar (65 :: core)) := by
  refine ⟨by rw [← Vector.getElem?_toList, hlist]; rfl, ?_⟩
  rw [nmeachkLoop_eq nmea core rest 1 serbufferLen 65 (by rw [hlist]; rfl) (by omega), xorStar,
    List.takeWhile_cons_of_pos (by decide)]
  rfl

/-- One pass of the loop builds the sentence, whatever the buffer held. -/
theorem buildSentence_eq (rbuffer : Frame) (seqnr : UInt8)
    (bufferlen fillbits sentences sentencenum pos : ℕ) (nmea : NmeaBuf) :
    buildSentence rbuffer seqnr bufferlen fillbits sentences sentencenum pos nmea =
      (payloadLetters bufferlen rbuffer senlen pos).map fun letters =>
        (pos + 6 * letters.length,
          splice nmea 0 (sentenceBody sentences sentencenum seqnr fillbits letters ++ [0])) := by
  have hsize : serbufferLen = 100 := rfl
  have hsenlen : senlen = 61 := rfl
  rw [buildSentence, payloadLoop_eq _ _ _ _ _ _ (by omega)]
  cases hletters : payloadLetters bufferlen rbuffer senlen pos with
  | none => rfl
  | some letters =>
    have hlen : letters.length ≤ 61 := length_payloadLetters hletters
    have hclen := length_sentenceCore sentences sentencenum seqnr fillbits letters
    have hlist := toList_splice_zero nmea
      (sentenceCore sentences sentencenum seqnr fillbits letters ++ [42, 48, 48, 0]) (by
        rw [List.length_append, hclen]
        simp only [List.length_cons, List.length_nil]
        omega)
    obtain ⟨core, hcore⟩ : ∃ core, sentenceCore sentences sentencenum seqnr fillbits letters =
      65 :: core := ⟨_, rfl⟩
    obtain ⟨hhead, hxor⟩ := nmeachkLoop_core _ core _
      (by rw [hcore, List.length_cons] at hclen; omega)
      (by rw [hlist, hcore, List.append_assoc]; rfl)
    have hpatch := patchChecksum_eq nmea
      (sentenceCore sentences sentencenum seqnr fillbits letters)
      (xorStar (sentenceCore sentences sentencenum seqnr fillbits letters))
      (show _ = 13 + letters.length + 2 by omega) (by omega)
    rw [← hcore] at hxor
    simp only [Option.map_some, Option.bind_eq_bind, Option.bind_some,
      assembleSentence_eq nmea seqnr fillbits sentences sentencenum hlen, hhead, hxor, hpatch,
      sentenceBody]
    rfl

/-- The three sinks get the C string the buffer holds. -/
theorem emitSentence_eq (cfg : Config) (receivedT : ℤ) (d : DemodState) {body : List UInt8}
    (hbody : cString d.nmea = some body) (hlen : body.length + 3 < serbufferLen) :
    emitSentence cfg receivedT d =
      some ({ d with
          serbuffer := (snprintf d.serbuffer (33 :: body ++ [13, 10])).1
          ipcbuffer := (snprintf d.ipcbuffer (33 :: body)).1 },
        sinkCalls cfg d.serial d.ipc receivedT body) := by
  have hsize : serbufferLen = 100 := rfl
  have hser := readOut_snprintf d.serbuffer (33 :: body ++ [13, 10])
    (by simp only [List.length_append, List.length_cons, List.length_nil]; omega)
  have hipc := readOut_snprintf d.ipcbuffer (33 :: body)
    (by simp only [List.length_cons, show ipcbufferLen = 255 from rfl]; omega)
  simp only [emitSentence, hbody, Option.bind_eq_bind, Option.bind_some, hser, hipc, sinkCalls]
  cases d.serial <;> cases d.ipc <;> cases cfg.my <;> rfl

theorem length_takeWhile_le {α : Type} (p : α → Bool) (l : List α) :
    (l.takeWhile p).length ≤ l.length := (List.takeWhile_prefix p).length_le

/-- One pass of the loop as a whole, when the payload is inside the frame. -/
theorem generateLoop_cons (cfg : Config) (receivedT : ℤ) (bufferlen fillbits sentences : ℕ)
    (sentencenum : ℕ) (nums : List ℕ) (pos : ℕ) (d : DemodState) {letters : List UInt8}
    (hletters : payloadLetters bufferlen d.rbuffer senlen pos = some letters) :
    ∃ nmea ser ipc,
      cString nmea = some ((sentenceBody sentences sentencenum d.seqnr fillbits letters).takeWhile
        (· ≠ 0)) ∧
      generateLoop cfg receivedT bufferlen fillbits sentences (sentencenum :: nums) pos d =
        (generateLoop cfg receivedT bufferlen fillbits sentences nums (pos + 6 * letters.length)
          { d with nmea := nmea, serbuffer := ser, ipcbuffer := ipc }).map fun r =>
            (r.1, sinkCalls cfg d.serial d.ipc receivedT
              ((sentenceBody sentences sentencenum d.seqnr fillbits letters).takeWhile (· ≠ 0))
              ++ r.2) := by
  have hsize : serbufferLen = 100 := rfl
  have hlen : letters.length ≤ 61 := length_payloadLetters hletters
  have hblen := length_sentenceBody sentences sentencenum d.seqnr fillbits letters
  have hstr := cString_splice d.nmea (sentenceBody sentences sentencenum d.seqnr fillbits letters)
    (by omega)
  have hshort := length_takeWhile_le (· ≠ 0)
    (sentenceBody sentences sentencenum d.seqnr fillbits letters)
  rw [generateLoop, buildSentence_eq, hletters]
  generalize hbody : (sentenceBody sentences sentencenum d.seqnr fillbits letters).takeWhile
    (· ≠ 0) = body at hstr hshort ⊢
  simp only [Option.map_some, Option.bind_eq_bind, Option.bind_some]
  generalize splice d.nmea 0
    (sentenceBody sentences sentencenum d.seqnr fillbits letters ++ [0]) = nmea at hstr ⊢
  rw [emitSentence_eq cfg receivedT { d with nmea := nmea } hstr (by omega), Option.bind_some]
  refine ⟨nmea, (snprintf d.serbuffer (33 :: body ++ [13, 10])).1,
    (snprintf d.ipcbuffer (33 :: body)).1, hstr, ?_⟩
  rw [Option.map_eq_bind]
  rfl

/-- A payload read outside the frame is a fault of the whole loop, whatever
the other buffers hold. -/
theorem generateLoop_none (cfg : Config) (receivedT : ℤ) (bufferlen fillbits sentences : ℕ)
    (nums : List ℕ) : ∀ (pos : ℕ) (d : DemodState),
      bodiesFrom d.rbuffer d.seqnr bufferlen fillbits sentences nums pos = none →
      generateLoop cfg receivedT bufferlen fillbits sentences nums pos d = none := by
  induction nums with
  | nil => intro pos d h; cases h
  | cons sentencenum nums ih =>
    intro pos d h
    rw [bodiesFrom] at h
    cases hletters : payloadLetters bufferlen d.rbuffer senlen pos with
    | none =>
      rw [generateLoop, buildSentence_eq, hletters]
      rfl
    | some letters =>
      rw [hletters] at h
      obtain ⟨nmea, ser, ipc, -, hstep⟩ := generateLoop_cons cfg receivedT bufferlen fillbits
        sentences sentencenum nums pos d hletters
      have hrest : bodiesFrom d.rbuffer d.seqnr bufferlen fillbits sentences nums
          (pos + 6 * letters.length) = none := by
        simp only [Option.bind_eq_bind, Option.bind_some] at h
        cases hb : bodiesFrom d.rbuffer d.seqnr bufferlen fillbits sentences nums
            (pos + 6 * letters.length) with
        | none => rfl
        | some bodies => rw [hb] at h; cases h
      rw [hstep, ih _ { d with nmea := nmea, serbuffer := ser, ipcbuffer := ipc } hrest]
      rfl

/-- The loop emits the sentences of the message, one after the other, and
leaves the last in `d->nmea`. Nothing but the three output buffers changes. -/
theorem generateLoop_some (cfg : Config) (receivedT : ℤ) (bufferlen fillbits sentences : ℕ)
    (nums : List ℕ) : ∀ (pos : ℕ) (d : DemodState) (bodies : List (List UInt8)),
      bodiesFrom d.rbuffer d.seqnr bufferlen fillbits sentences nums pos = some bodies →
      ∃ nmea ser ipc,
        generateLoop cfg receivedT bufferlen fillbits sentences nums pos d =
          some ({ d with nmea := nmea, serbuffer := ser, ipcbuffer := ipc },
            bodies.flatMap (sinkCalls cfg d.serial d.ipc receivedT)) ∧
        ∀ body, bodies.getLast? = some body → cString nmea = some body := by
  induction nums with
  | nil =>
    intro pos d bodies h
    obtain rfl := Option.some.inj h
    exact ⟨d.nmea, d.serbuffer, d.ipcbuffer, rfl, fun body hb => by cases hb⟩
  | cons sentencenum nums ih =>
    intro pos d bodies h
    rw [bodiesFrom] at h
    simp only [Option.bind_eq_bind, Option.bind_eq_some_iff] at h
    obtain ⟨letters, hletters, rest, hrest, heq⟩ := h
    obtain rfl := Option.some.inj heq
    obtain ⟨nmea, ser, ipc, hstr, hstep⟩ := generateLoop_cons cfg receivedT bufferlen fillbits
      sentences sentencenum nums pos d hletters
    obtain ⟨nmea', ser', ipc', hloop, hlast⟩ :=
      ih _ { d with nmea := nmea, serbuffer := ser, ipcbuffer := ipc } rest hrest
    cases rest with
    | nil =>
      -- the last sentence: the loop ends with what this pass left
      cases nums with
      | nil =>
        refine ⟨nmea, ser, ipc, by rw [hstep]; rfl, fun body hb => ?_⟩
        obtain rfl := Option.some.inj hb
        exact hstr
      | cons num nums =>
        rw [bodiesFrom] at hrest
        simp only [Option.bind_eq_bind, Option.bind_eq_some_iff] at hrest
        obtain ⟨_, -, _, -, hbad⟩ := hrest
        cases hbad
    | cons body rest =>
      refine ⟨nmea', ser', ipc', by rw [hstep, hloop]; rfl, fun b hb => hlast b ?_⟩
      rwa [List.getLast?_cons_cons] at hb

end Gnuais

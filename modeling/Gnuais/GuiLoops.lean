import Gnuais.Gui

/-!
# The loops of the map window

What each loop of `threaden` and `aisdecode` computes, and when it stays inside
its array, in terms of the list an array is. The fifth comma in front of the
payload is found by counting (`nthComma`); the loops themselves end at a comma,
at a bound, or outside the array.
-/

namespace Gnuais

open Buffer Bits

/-- What an array holds from an element on. -/
theorem drop_toList {α : Type} {n : ℕ} {buf : Vector α n} {i : ℕ} {c : α} (h : buf[i]? = some c) :
    buf.toList.drop i = c :: buf.toList.drop (i + 1) := by
  rw [← Vector.getElem?_toList] at h
  obtain ⟨hi, rfl⟩ := List.getElem?_eq_some_iff.mp h
  exact List.drop_eq_getElem_cons hi

/-- Behind the array there is nothing. -/
theorem drop_toList_nil {α : Type} {n : ℕ} {buf : Vector α n} {i : ℕ} (h : buf[i]? = none) :
    buf.toList.drop i = [] := by
  rw [← Vector.getElem?_toList, List.getElem?_eq_none_iff] at h
  exact List.drop_eq_nil_of_le h

/-- The number of elements from `i` on. -/
theorem length_drop_toList {α : Type} {n : ℕ} (buf : Vector α n) (i : ℕ) :
    (buf.toList.drop i).length = n - i := by
  rw [List.length_drop, Vector.length_toList]

/-! ## Looking for the sentence

When the loop ends the index is one past the character that was tested last; the source
takes that one off again before it looks at the header. -/

/-- The loop stops behind the first `!`, or behind the read. -/
theorem seekStart_eq (nmeabuffer : NmeaBuffer) {r : ℕ} (hr : r ≤ 256) :
    ∀ turns m : ℕ, m < r → r - m ≤ turns →
      seekStart nmeabuffer r turns m =
        some (min (m + (nmeabuffer.toList.drop m).idxOf 33 + 1) r) := by
  intro turns
  induction turns with
  | zero => intro m hm hturns; omega
  | succ turns ih =>
    intro m hm hturns
    have hread : nmeabuffer[m]? = some nmeabuffer[m] := Vector.getElem?_eq_getElem (by omega)
    rw [seekStart, hread, drop_toList hread]
    simp only [Option.bind_eq_bind, Option.bind_some]
    generalize nmeabuffer[m] = c
    by_cases hc : c = 33
    · rw [if_pos hc, hc, List.idxOf_cons_self]
      congr 1
      omega
    · rw [if_neg hc, List.idxOf_cons_ne _ hc]
      by_cases hlast : m + 1 > r - 1
      · rw [if_pos hlast]
        congr 1
        omega
      · rw [if_neg hlast, ih (m + 1) (by omega) (by omega)]
        congr 2
        omega

/-! ## The header

The thread counts commas to find the payload and takes the digits at fixed places. Both
agree for the sentences the daemon writes; the lemmas are about any header. -/

/-- The place of the `n`-th comma; behind the last character if there are fewer. The loop
gives up behind twenty characters; that is not part of this. -/
def nthComma : ℕ → List UInt8 → ℕ
  | _, [] => 0
  | n, c :: cs =>
    if c = 44 then if n ≤ 1 then 0 else nthComma (n - 1) cs + 1 else nthComma n cs + 1

/-- The comma behind `pre` is the one after those in it. -/
theorem nthComma_append (pre rest : List UInt8) :
    nthComma (pre.count 44 + 1) (pre ++ 44 :: rest) = pre.length := by
  induction pre with
  | nil => rfl
  | cons c pre ih =>
    rw [List.cons_append, nthComma, List.length_cons]
    by_cases hc : c = 44
    · subst hc
      rw [if_pos rfl, List.count_cons_self, if_neg (by omega), Nat.add_sub_cancel, ih]
    · rw [if_neg hc, List.count_cons_of_ne hc, ih]

/-- The loop ends at the fifth comma or after its last turn, unless it leaves the
array first. -/
theorem kommaLoop_eq (nmeabuffer : NmeaBuffer) (m : ℕ) :
    ∀ left k kommas : ℕ, kommas < 5 →
      kommaLoop nmeabuffer m left k kommas =
        let window := (nmeabuffer.toList.drop (k + m)).take left
        if window.length = left ∨ 5 - kommas ≤ window.count 44 then
          some (k + nthComma (5 - kommas) window)
        else none := by
  intro left
  induction left with
  | zero =>
    intro k kommas _
    rw [kommaLoop, List.take_zero]
    exact (if_pos (.inl rfl)).symm
  | succ left ih =>
    intro k kommas hkommas
    rw [kommaLoop]
    cases hread : nmeabuffer[k + m]? with
    -- past the end of the array: nothing is left, and no comma is in it
    | none =>
      rw [drop_toList_nil hread, List.take_nil]
      refine (if_neg ?_).symm
      rw [List.length_nil, List.count_nil]
      omega
    | some c =>
      rw [drop_toList hread, List.take_succ_cons]
      simp only [Option.bind_eq_bind, Option.bind_some, List.length_cons, Nat.add_right_cancel_iff,
        nthComma]
      by_cases hc : c = 44
      · subst hc
        rw [if_pos rfl, if_pos rfl, List.count_cons_self]
        -- the fifth comma ends the loop, with `k` still at it
        by_cases hlast : kommas + 1 = 5
        · rw [if_pos hlast, if_pos (.inr (by omega)), if_pos (by omega), Nat.add_zero]
        · rw [if_neg hlast, ih (k + 1) (kommas + 1) (by omega), Nat.add_right_comm k 1 m,
            if_neg (show ¬ 5 - kommas ≤ 1 by omega),
            show 5 - (kommas + 1) = 5 - kommas - 1 by omega]
          generalize (nmeabuffer.toList.drop (k + m + 1)).take left = window
          by_cases hstays : window.length = left ∨ 5 - kommas - 1 ≤ window.count 44
          · rw [if_pos hstays, if_pos (by omega)]
            congr 1
            omega
          · rw [if_neg hstays, if_neg (by omega)]
      · rw [if_neg hc, if_neg hc, if_neg (show ¬ kommas = 5 by omega),
          ih (k + 1) kommas hkommas, Nat.add_right_comm k 1 m, List.count_cons_of_ne hc]
        simp only [Nat.add_assoc, Nat.add_comm 1]

/-- A digit is read if the place is inside the array. -/
theorem digitAt_eq (nmeabuffer : NmeaBuffer) (i : ℕ) :
    digitAt nmeabuffer i = nmeabuffer[i]?.map fun c => c.toInt8.toInt - 48 := by
  rw [digitAt]
  cases nmeabuffer[i]? <;> rfl

/-- What the test of the header reads. -/
theorem startsSentence_eq {nmeabuffer : NmeaBuffer} {m : ℕ} {header : List UInt8}
    (hheader : nmeabuffer.toList.drop m = header) (hbang : header[0]? = some 33)
    (hnext : 1 < header.length) :
    startsSentence nmeabuffer m =
      if header[1]? = some 65 then header[5]?.map (· == 77) else some false := by
  have hread : ∀ i, nmeabuffer[m + i]? = header[i]? := by
    intro i
    rw [← hheader, List.getElem?_drop, Vector.getElem?_toList]
  have hzero := hread 0
  rw [Nat.add_zero] at hzero
  rw [startsSentence, hzero, hbang, hread, hread, List.getElem?_eq_getElem hnext]
  simp only [Option.bind_eq_bind, Option.bind_some, Option.some.injEq]
  rw [if_neg (not_not_intro rfl)]
  by_cases htalker : header[1] = 65
  · rw [if_neg (not_not_intro htalker), if_pos htalker]
    exact Option.map_eq_bind.symm
  · rw [if_pos htalker, if_neg htalker]
    rfl

/-! ## The payload

The copy ends at a comma or where the read ends, and leaves `aisline` if there are too
many letters in front of that. -/

/-- The loop copies what stands in front of a comma, if it fits. -/
theorem copyLoop_eq (nmeabuffer : NmeaBuffer) :
    ∀ (left pos : ℕ) (aisline : AisLine) (lettersread : ℕ), pos + left ≤ 256 → lettersread ≤ 500 →
      copyLoop nmeabuffer left pos aisline lettersread =
        let payload := ((nmeabuffer.toList.drop pos).take left).takeWhile (· ≠ 44)
        if lettersread + payload.length ≤ 500 then
          some (splice aisline lettersread payload, lettersread + payload.length)
        else none := by
  intro left
  induction left with
  | zero =>
    intro pos aisline lettersread _ hfit
    rw [copyLoop, List.take_zero]
    exact (if_pos hfit).symm
  | succ left ih =>
    intro pos aisline lettersread hpos hfit
    have hread : nmeabuffer[pos]? = some nmeabuffer[pos] := Vector.getElem?_eq_getElem (by omega)
    rw [copyLoop, hread, drop_toList hread, List.take_succ_cons]
    simp only [Option.bind_eq_bind, Option.bind_some]
    generalize nmeabuffer[pos] = c
    by_cases hc : c = 44
    · rw [if_pos hc, List.takeWhile_cons_of_neg (by simpa using hc)]
      exact (if_pos hfit).symm
    · rw [if_neg hc, List.takeWhile_cons_of_pos (by simpa using hc), List.length_cons]
      by_cases hroom : lettersread < 500
      · rw [wr_eq _ _ hroom, Option.bind_some, ih _ _ _ (by omega) (by omega)]
        simp only [Nat.add_assoc, Nat.add_comm 1, splice]
      · rw [wr_eq_none _ _ (Nat.not_lt.mp hroom), Option.bind_none, if_neg (by omega)]

/-! ## The bits

`aisdecode` takes the letters up to a comma and stores six bits for each. -/

/-- What ends the characters in front of a comma. -/
theorem takeWhile_comma (cs : List UInt8) :
    ∃ rest, cs = cs.takeWhile (· ≠ 44) ++ rest ∧ ∀ c ∈ rest.head?, c = 44 := by
  refine ⟨cs.dropWhile (· ≠ 44), List.takeWhile_append_dropWhile.symm, fun c hc => ?_⟩
  have hstop := List.head?_dropWhile_not (· ≠ (44 : UInt8)) cs
  rw [Option.mem_def.mp hc] at hstop
  simpa using hstop

/-- The bits `aisdecode` stores for some letters. -/
def lineBits (letters : List UInt8) : List UInt8 :=
  letters.flatMap fun c => (List.range 6).map (letterBit c)

/-- Six bits a letter. -/
theorem length_lineBits (letters : List UInt8) : (lineBits letters).length = letters.length * 6 := by
  have hsix : ∀ c, ((List.range 6).map (letterBit c)).length = 6 := fun c => List.length_map _
  rw [lineBits, length_flatMap_blocks hsix, Nat.mul_comm]

/-- Bit `i` is bit `i % 6` of letter `i / 6`. -/
theorem getElem?_lineBits (letters : List UInt8) (i : ℕ) :
    (lineBits letters)[i]? = letters[i / 6]?.map fun c => letterBit c (i % 6) := by
  have hsix : ∀ c, ((List.range 6).map (letterBit c)).length = 6 := fun c => List.length_map _
  have hbit : i % 6 < 6 := Nat.mod_lt _ (by decide)
  rw [lineBits, getElem?_flatMap_blocks hsix (by decide), Option.map_eq_bind]
  congr 1
  funext c
  rw [List.getElem?_map, List.getElem?_range hbit]
  rfl

/-- The loop of `aisdecode` stores the bits of the letters in front of a comma, if
they are a hundred at most. -/
theorem decodeLoop_eq {nmea : AisLine} {line : List UInt8} (hline : HoldsAt nmea 0 line)
    (left : ℕ) :
    ∀ (i : ℕ) (rBuffer : RBuffer), i + left = line.length * 6 → i ≤ 600 →
      i ≤ (line.takeWhile (· ≠ 44)).length * 6 →
      decodeLoop nmea left i rBuffer =
        let letters := line.takeWhile (· ≠ 44)
        if letters.length ≤ 100 then
          some (letters.length * 6, splice rBuffer i ((lineBits letters).drop i))
        else none := by
  obtain ⟨rest, hsplit, hrest⟩ := takeWhile_comma line
  have hlen := congrArg List.length hsplit
  have hbits := length_lineBits (line.takeWhile (· ≠ 44))
  rw [List.length_append] at hlen
  dsimp only
  induction left with
  | zero =>
    intro i rBuffer hi _ hfront
    rw [decodeLoop, if_pos (by omega), List.drop_eq_nil_of_le (by omega), splice]
    congr 2
    omega
  | succ left ih =>
    intro i rBuffer hi hroom hfront
    have hlt : i / 6 < line.length := by omega
    obtain ⟨c, hc⟩ := Option.ne_none_iff_exists'.mp
      (mt List.getElem?_eq_none_iff.mp (Nat.not_le.mpr hlt))
    have hread : nmea[i / 6]? = some c := by
      rw [← hc, ← hline (i / 6) (by omega), Nat.zero_add]
    rw [decodeLoop, hread]
    simp only [Option.bind_eq_bind, Option.bind_some]
    rw [hsplit] at hc
    -- the loop ends at the comma, or goes on with the next bit of the letter
    by_cases hend : i = (line.takeWhile (· ≠ 44)).length * 6
    · rw [List.getElem?_append_right (by omega),
        show i / 6 - (line.takeWhile (· ≠ 44)).length = 0 by omega, ← List.head?_eq_getElem?] at hc
      rw [if_pos (hrest c hc), if_pos (by omega), List.drop_eq_nil_of_le (by omega), splice, hend]
    · rw [List.getElem?_append_left (by omega)] at hc
      have hletter : c ≠ 44 := by simpa using List.mem_takeWhile_imp (List.mem_of_getElem? hc)
      rw [if_neg hletter]
      -- the array has 600 places: the bit after the hundredth letter is outside
      by_cases hi600 : i < 600
      · have hbit := getElem?_lineBits (line.takeWhile (· ≠ 44)) i
        rw [hc, Option.map_some] at hbit
        obtain ⟨hlt, hget⟩ := List.getElem?_eq_some_iff.mp hbit
        rw [wr_eq _ _ hi600, Option.bind_some, ih (i + 1) _ (by omega) hi600 (by omega),
          List.drop_eq_getElem_cons hlt, hget, splice]
      · rw [wr_eq_none _ _ (Nat.not_lt.mp hi600), Option.bind_none, if_neg (by omega)]

/-! ## The fields

What a type stores is written down as a function of the array, without `Option`: all
fields lie inside it. -/

/-- What `type1` stores. -/
def type1Ship (rBuffer : RBuffer) (data : ShipData) : ShipData :=
  { data with
    type := 1
    mmsi := hentenVal 8 30 rBuffer
    latitude := scaled (latitudeOf (hentenVal 89 27 rBuffer)) 600000
    longitude := scaled (longitudeOf (hentenVal 61 28 rBuffer)) 600000
    speed := .div (.ofInt (hentenVal 50 10 rBuffer)) (.ofInt 10)
    heading := .ofInt (hentenVal 128 9 rBuffer)
    course := .div (.ofInt (hentenVal 116 12 rBuffer)) (.ofInt 10) }

/-- What `type4` stores. -/
def type4Ship (rBuffer : RBuffer) (data : ShipData) : ShipData :=
  { data with
    type := 4
    mmsi := hentenVal 8 30 rBuffer
    latitude := .div (.ofInt (hentenVal 107 27 rBuffer)) (.ofInt 600000)
    longitude := .div (.ofInt (longitudeOf (hentenVal 79 28 rBuffer))) (.ofInt 600000) }

/-- What `type5` stores. -/
def type5Ship (rBuffer : RBuffer) (data : ShipData) : ShipData :=
  { data with
    type := 5
    mmsi := hentenVal 8 30 rBuffer }

/-- What `aisdecode` stores of the message in `r_buffer`. -/
def decodedShip (rBuffer : RBuffer) (data : ShipData) : ShipData :=
  match cUChar (hentenVal 0 6 rBuffer) with
  | 1 | 2 | 3 => type1Ship rBuffer data
  | 4 => type4Ship rBuffer data
  | 5 => type5Ship rBuffer data
  | _ => data

/-- The types, one by one. -/
theorem decodedShip_type1 {rBuffer : RBuffer} (data : ShipData)
    (htype : cUChar (hentenVal 0 6 rBuffer) = 1 ∨ cUChar (hentenVal 0 6 rBuffer) = 2 ∨
      cUChar (hentenVal 0 6 rBuffer) = 3) : decodedShip rBuffer data = type1Ship rBuffer data := by
  rw [decodedShip]
  rcases htype with h | h | h <;> simp only [h]

theorem decodedShip_type4 {rBuffer : RBuffer} (data : ShipData)
    (htype : cUChar (hentenVal 0 6 rBuffer) = 4) :
    decodedShip rBuffer data = type4Ship rBuffer data := by
  simp only [decodedShip, htype]

theorem decodedShip_type5 {rBuffer : RBuffer} (data : ShipData)
    (htype : cUChar (hentenVal 0 6 rBuffer) = 5) :
    decodedShip rBuffer data = type5Ship rBuffer data := by
  simp only [decodedShip, htype]

/-- The fields of every message type lie inside `r_buffer`. -/
theorem dispatchType_eq (rBuffer : RBuffer) (data : ShipData) :
    dispatchType rBuffer data = some (decodedShip rBuffer data) := by
  have hread : ∀ pos len : ℕ, pos + len ≤ 600 →
      pickone rBuffer pos len = some (hentenVal pos len rBuffer) :=
    fun pos len h => protodecHenten_eq rBuffer h
  have htext : ∀ pos ≤ 480, (List.range 20).mapM (fun i => pickone rBuffer (pos + 6 * i) 6) =
      some ((List.range 20).map fun i => hentenVal (pos + 6 * i) 6 rBuffer) := by
    intro pos hpos
    refine mapM_some fun i hi => hread _ _ ?_
    have hlt := List.mem_range.mp hi
    omega
  rw [dispatchType, hread 0 6 (by omega)]
  simp only [Option.bind_eq_bind, Option.bind_some, decodedShip]
  generalize cUChar (hentenVal 0 6 rBuffer) = type
  split <;>
    simp [type1, type4, type5, type1Ship, type4Ship, type5Ship, hread, htext]

/-- `aisdecode` stores the bits of the letters in front of a comma and reads the
fields, if there are a hundred letters at most. -/
theorem aisdecode_eq_ite {nmea : AisLine} {line : List UInt8}
    (hline : HoldsAt nmea 0 (line ++ [0])) (rBuffer : RBuffer) (data : ShipData) :
    aisdecode nmea rBuffer data =
      let letters := (line.takeWhile (· ≠ 0)).takeWhile (· ≠ 44)
      let rBuffer := splice rBuffer 0 (lineBits letters)
      if letters.length ≤ 100 then
        some (letters.length * 6, rBuffer, decodedShip rBuffer data)
      else none := by
  have hstring : cString nmea = some (line.takeWhile (· ≠ 0)) := by
    rw [cString, hline.toList_eq, cStringList_append (by simp), takeWhile_terminated]
  obtain ⟨rest, hrest⟩ := List.takeWhile_prefix (l := line) (· ≠ 0)
  have hletters : HoldsAt nmea 0 (line.takeWhile (· ≠ 0)) := by
    have hleft := hline.left
    rw [← hrest] at hleft
    exact hleft.left
  rw [aisdecode, hstring]
  simp only [Option.bind_eq_bind, Option.bind_some]
  rw [decodeLoop_eq hletters _ 0 rBuffer (Nat.zero_add _) (Nat.zero_le _) (Nat.zero_le _)]
  dsimp only
  split
  · rw [Option.bind_some, List.drop_zero, dispatchType_eq]
    rfl
  · rfl

/-- `aisdecode` stays inside its arrays for a hundred letters. -/
theorem aisdecode_isSome_iff {nmea : AisLine} {line : List UInt8}
    (hline : HoldsAt nmea 0 (line ++ [0])) (rBuffer : RBuffer) (data : ShipData) :
    (aisdecode nmea rBuffer data).isSome ↔
      ((line.takeWhile (· ≠ 0)).takeWhile (· ≠ 44)).length ≤ 100 := by
  rw [aisdecode_eq_ite hline]
  dsimp only
  split
  · rename_i h
    exact ⟨fun _ => h, fun _ => rfl⟩
  · rename_i h
    exact ⟨fun hsome => absurd hsome (by decide), fun hle => absurd hle h⟩

/-! ## One pass

A pass is described from outside: the characters of the read, what was in the array
before, and the sentence at the first `!`. -/

/-- `nmeabuffer` after a read: the characters, the terminator, and what was
there before. -/
def afterRead (nmeabuffer : NmeaBuffer) (bytes : List UInt8) : NmeaBuffer :=
  splice nmeabuffer 0 (bytes ++ [0])

/-- The array as a list. -/
theorem toList_afterRead (nmeabuffer : NmeaBuffer) {bytes : List UInt8} (h : bytes.length ≤ 255) :
    (afterRead nmeabuffer bytes).toList =
      bytes ++ 0 :: nmeabuffer.toList.drop (bytes.length + 1) := by
  have hfit : (bytes ++ [0]).length ≤ 256 := by
    rw [List.length_append, List.length_singleton]
    omega
  rw [afterRead, toList_splice_zero nmeabuffer _ hfit, List.length_append, List.append_assoc]
  rfl

/-- A pass does nothing for a read without a `!` in front of its last character.
Otherwise it takes the sentence at the first one, if it is the start of one. -/
theorem threadenRead_eq {bytes : List UInt8} (hne : bytes ≠ []) (hfit : bytes.length ≤ 255)
    (st : GuiState) :
    threadenRead bytes st =
      let m := bytes.idxOf 33
      let next := { st with nmeabuffer := afterRead st.nmeabuffer bytes }
      if bytes.length ≤ m + 1 then some (next, [])
      else (startsSentence next.nmeabuffer m).bind fun starts =>
        if starts then takeSentence m bytes.length next else some (next, []) := by
  have hpos : 0 < bytes.length := List.length_pos_iff.mpr hne
  have hstored : (storeAt st.nmeabuffer 0 bytes).bind (fun buf => wr buf bytes.length 0) =
      some (afterRead st.nmeabuffer bytes) := by
    rw [storeAt_eq _ _ _ (by omega), Option.bind_some, wr_eq _ _ (by omega), afterRead,
      splice_append, Nat.zero_add]
    rfl
  have hseek : seekStart (afterRead st.nmeabuffer bytes) bytes.length 257 0 =
      some (min (bytes.idxOf 33 + 1) bytes.length) := by
    rw [seekStart_eq _ (by omega) 257 0 hpos (by omega), List.drop_zero, Nat.zero_add,
      toList_afterRead _ hfit, List.idxOf_append]
    by_cases hbang : 33 ∈ bytes
    · rw [if_pos hbang]
    · rw [if_neg hbang, List.idxOf_eq_length hbang]
      congr 1
      omega
  rw [Option.bind_eq_some_iff] at hstored
  obtain ⟨nmeabuffer, hstore, hterminate⟩ := hstored
  rw [threadenRead]
  simp only [Option.bind_eq_bind]
  rw [hstore, Option.bind_some, hterminate, Option.bind_some, hseek, Option.bind_some]
  by_cases hlate : bytes.length ≤ bytes.idxOf 33 + 1
  · rw [if_pos hlate, if_pos (by omega)]
    rfl
  · rw [if_neg hlate, if_neg (by omega), Nat.min_eq_left (by omega), Nat.add_sub_cancel]
    rfl

/-! ## One sentence

With the header and the payload as lists, the loop body is a few lines: two digits, a test
whether the sentence is the expected one, and a copy. -/

/-- The places of a header the thread reads lie in the array: both digits, and
the fifth comma or twenty characters. -/
structure HeaderFits (header : List UInt8) : Prop where
  /-- the digits are at places 7 and 9 -/
  digits : 10 ≤ header.length
  /-- the loop over the commas ends inside the array -/
  kommas : 20 ≤ header.length ∨ 5 ≤ header.count 44

/-- A digit of a header. -/
def headerDigit (header : List UInt8) (i : ℕ) : ℤ := (header[i]?.getD 0).toInt8.toInt - 48

/-- Such a digit is read. -/
theorem digitAt_header {nmeabuffer : NmeaBuffer} {m i : ℕ}
    (h : i < (nmeabuffer.toList.drop m).length) :
    digitAt nmeabuffer (m + i) = some (headerDigit (nmeabuffer.toList.drop m) i) := by
  have hread := List.getElem?_eq_getElem h
  rw [headerDigit, hread, Option.getD_some, digitAt_eq, ← Vector.getElem?_toList,
    ← List.getElem?_drop, hread, Option.map_some]

/-- The sentence is not the one after the sentence before. -/
def Skipped (sentencenumb previoussentence : ℤ) : Prop :=
  sentencenumb > 1 ∧ previoussentence ≠ sentencenumb - 1

instance (sentencenumb previoussentence : ℤ) :
    Decidable (Skipped sentencenumb previoussentence) :=
  inferInstanceAs (Decidable (_ ∧ _))

/-- Where in `aisline` the payload of a sentence goes. -/
def lettersBefore (sentencenumb : ℤ) (lettersread : ℕ) : ℕ :=
  if sentencenumb = 1 then 0 else lettersread

/-- The payload goes inside `aisline`, as the letters before it did. -/
theorem lettersBefore_le (sentencenumb : ℤ) {lettersread n : ℕ} (h : lettersread ≤ n) :
    lettersBefore sentencenumb lettersread ≤ n := by
  rw [lettersBefore]
  split
  · exact Nat.zero_le _
  · exact h

/-- What a pass does with a sentence, once its header and its payload are read. -/
def takePayload (sentences sentencenumb : ℤ) (payload : List UInt8) (st : GuiState) :
    Option (GuiState × List GuiCall) :=
  let before := lettersBefore sentencenumb st.lettersread
  if Skipped sentencenumb st.previoussentence then some (st, [])
  else if before + payload.length ≤ 500 then
    finishSentence sentences sentencenumb
      { st with
        aisline := splice st.aisline before payload
        lettersread := before + payload.length }
  else none

/-- What stands behind the fifth comma, up to the next one, of a sentence of which `left`
characters were read. If the read ends within the payload, this is the part of it that
came. -/
def payloadRead (header : List UInt8) (left : ℕ) : List UInt8 :=
  ((header.take left).drop (nthComma 5 (header.take 20) + 1)).takeWhile (· ≠ 44)

/-- The loop over the header ends unless it leaves the array. -/
theorem kommaLoop_header (nmeabuffer : NmeaBuffer) (m : ℕ) :
    kommaLoop nmeabuffer m 20 0 0 =
      let header := nmeabuffer.toList.drop m
      if 20 ≤ header.length ∨ 5 ≤ header.count 44 then some (nthComma 5 (header.take 20))
      else none := by
  rw [kommaLoop_eq _ _ _ _ _ (by decide), Nat.zero_add, Nat.sub_zero]
  simp only [Nat.zero_add]
  by_cases hlong : 20 ≤ (nmeabuffer.toList.drop m).length
  · rw [if_pos (.inl (List.length_take_of_le hlong)), if_pos (.inl hlong)]
  · have hshort : (nmeabuffer.toList.drop m).length ≤ 20 := by omega
    rw [List.take_of_length_le hshort]
    by_cases hcount : 5 ≤ (nmeabuffer.toList.drop m).count 44
    · rw [if_pos (.inr hcount), if_pos (.inr hcount)]
    · rw [if_neg (by omega), if_neg (by omega)]

section TakeSentence

variable {m r : ℕ} {st : GuiState} {header : List UInt8}
  (hheader : st.nmeabuffer.toList.drop m = header)

include hheader

/-- A sentence whose header is not in the array makes the pass leave it. -/
theorem takeSentence_none (hnot : ¬ HeaderFits header) : takeSentence m r st = none := by
  rw [takeSentence, kommaLoop_header, hheader]
  by_cases hkommas : 20 ≤ header.length ∨ 5 ≤ header.count 44
  · have hshort : ¬ 10 ≤ header.length := fun h => hnot ⟨h, hkommas⟩
    have hlen := length_drop_toList st.nmeabuffer m
    rw [hheader] at hlen
    have hdigit : digitAt st.nmeabuffer (m + 9) = none := by
      rw [digitAt_eq, Vector.getElem?_eq_none (by omega), Option.map_none]
    rw [if_pos hkommas]
    simp only [Option.bind_eq_bind, Option.bind_some, hdigit, Option.bind_none]
    cases digitAt st.nmeabuffer (m + 7) <;> rfl
  · rw [if_neg hkommas]
    rfl

/-- The payload loop on what was read of a sentence. -/
theorem copyLoop_read (hr : r ≤ 255) {lettersread : ℕ}
    (hletters : lettersread ≤ 500) (aisline : AisLine) :
    let start := nthComma 5 (header.take 20) + 1
    copyLoop st.nmeabuffer (r - start - m) (m + start) aisline lettersread =
      let payload := payloadRead header (r - m)
      if lettersread + payload.length ≤ 500 then
        some (splice aisline lettersread payload, lettersread + payload.length)
      else none := by
  intro start
  have hwindow : (header.take (r - m)).drop start =
      (st.nmeabuffer.toList.drop (m + start)).take (r - start - m) := by
    rw [List.drop_take, ← hheader, List.drop_drop, Nat.sub_right_comm]
  rw [payloadRead, hwindow]
  by_cases hroom : r ≤ m + start
  · have hnone : r - start - m = 0 := by omega
    rw [hnone, copyLoop, List.take_zero]
    exact (if_pos hletters).symm
  · exact copyLoop_eq _ _ _ _ _ (by omega) hletters

/-- A sentence whose header lies in the array is taken for its two digits and its
payload. -/
theorem takeSentence_eq (hr : r ≤ 255) (hfits : HeaderFits header)
    (hbefore : lettersBefore (headerDigit header 9) st.lettersread ≤ 500) :
    takeSentence m r st = takePayload (headerDigit header 7) (headerDigit header 9)
      (payloadRead header (r - m)) st := by
  have hlen := hfits.digits
  have hsentences : digitAt st.nmeabuffer (m + 7) = some (headerDigit header 7) := by
    rw [← hheader] at hlen ⊢
    exact digitAt_header (Nat.lt_of_lt_of_le (by decide) hlen)
  have hsentencenumb : digitAt st.nmeabuffer (m + 9) = some (headerDigit header 9) := by
    rw [← hheader] at hlen ⊢
    exact digitAt_header (Nat.lt_of_lt_of_le (by decide) hlen)
  rw [takeSentence, kommaLoop_header, hheader, if_pos hfits.kommas, hsentences, hsentencenumb,
    takePayload]
  simp only [Option.bind_eq_bind, Option.bind_some]
  by_cases hskip : Skipped (headerDigit header 9) st.previoussentence
  · rw [if_pos hskip]
    exact if_pos hskip
  · rw [if_neg hskip]
    refine (if_neg hskip).trans ?_
    rw [← lettersBefore, copyLoop_read hheader hr hbefore]
    dsimp only
    split <;> rfl

end TakeSentence

/-! ## The loop

A run of the thread is a sequence of passes, and what it calls is listed pass by pass. -/

/-- A read of some characters is one pass of the loop. -/
theorem threaden_cons {text : List UInt8} (hne : text ≠ [])
    (reads : List (Option (List UInt8))) (gui : GuiState) :
    threaden (some text :: reads) gui = (threadenRead text gui).bind fun r =>
      (threaden reads r.1).bind fun r' => some (r'.1, r.2 :: r'.2) := by
  cases text with
  | nil => exact absurd rfl hne
  | cons c text => rfl

/-- A run in two parts. -/
theorem threaden_append {texts : List (List UInt8)} (hne : ∀ text ∈ texts, text ≠ [])
    (reads : List (Option (List UInt8))) : ∀ gui : GuiState,
      threaden (texts.map some ++ reads) gui = (threaden (texts.map some) gui).bind fun r =>
        (threaden reads r.1).bind fun r' => some (r'.1, r.2 ++ r'.2) := by
  induction texts with
  | nil =>
    intro gui
    rw [List.map_nil, List.nil_append, threaden, Option.bind_some]
    cases threaden reads gui <;> rfl
  | cons text texts ih =>
    intro gui
    have htext := hne text (List.mem_cons_self ..)
    rw [List.map_cons, List.cons_append, threaden_cons htext, threaden_cons htext]
    cases threadenRead text gui with
    | none => rfl
    | some r =>
      rw [Option.bind_some, Option.bind_some,
        ih fun t ht => hne t (List.mem_cons_of_mem _ ht)]
      cases threaden (texts.map some) r.1 with
      | none => rfl
      | some r' =>
        rw [Option.bind_some, Option.bind_some, Option.bind_some]
        cases threaden reads r'.1 <;> rfl

end Gnuais

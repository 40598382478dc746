import Gnuais.Received
import Mathlib.Data.List.DropRight

/-!
# Six-bit text, sent and decoded

The text fields of a message are letters of six bits. The code 0 stands for `@`,
1 to 31 for `A` to `_`, and 32 to 63 for themselves, a blank to `?`.

The decoder shows every `@` as a blank and cuts off the blanks at the end
(`sixbitText_letters`). A text that has no `@` and no blank at its end, padded
with any mix of both, is what comes out (`Padded.shown_letters`), provided that
the loop takes all letters of the field: of fewer letters it is just the texts
that fit into them which do (`Padded.shown_take_iff`).
-/

namespace Gnuais

open Buffer Bits Layout

/-! ## What the trimming loop leaves

The loop goes from the end of the string to the front and stops at the first character
that is not a blank. -/

/-- Blanks at the end of a string are zeroed, from the last one down. The
induction takes the letters off at the end; `rest` are the letters behind. -/
theorem trimFrom_append {s : List UInt8} (hs : 0 ∉ s) : ∀ rest : List UInt8,
    ∃ k, trimFrom s.length (s ++ rest) =
      s.rdropWhile (· = 32) ++ (List.replicate k 0 ++ rest) := by
  induction s using List.reverseRecOn with
  | nil => exact fun rest => ⟨0, rfl⟩
  | append_singleton s c ih =>
    intro rest
    obtain ⟨hs, hc⟩ : 0 ∉ s ∧ 0 ≠ c := by
      rw [List.mem_append, List.mem_singleton, not_or] at hs
      exact hs
    have hlast : (s ++ [c] ++ rest)[s.length]? = some c := by
      rw [List.append_assoc, List.getElem?_append_right (Nat.le_refl _), Nat.sub_self]
      rfl
    rw [List.length_append, List.length_singleton, trimFrom, hlast]
    by_cases hblank : c = 32
    · have hset : (s ++ [c] ++ rest).set s.length 0 = s ++ 0 :: rest := by
        rw [List.append_assoc, List.set_append_right _ _ (Nat.le_refl _), Nat.sub_self]
        rfl
      obtain ⟨k, hk⟩ := ih hs (0 :: rest)
      refine ⟨k + 1, ?_⟩
      rw [if_pos (.inl (congrArg some hblank)), hset, hk,
        List.rdropWhile_concat_pos _ _ _ (by simpa using hblank), List.replicate_succ',
        List.append_assoc]
      rfl
    · refine ⟨0, ?_⟩
      have hkept : ¬ (some c = some 32 ∨ some c = some 0) := by
        rintro (h | h)
        · exact hblank (Option.some.inj h)
        · exact hc (Option.some.inj h).symm
      rw [if_neg hkept, List.rdropWhile_concat_neg _ _ _ (by simpa using hblank)]
      rfl

/-- The string left is the one without the blanks at its end. -/
theorem removeTrailingSpaces_eq {s : List UInt8} (hs : 0 ∉ s) :
    (removeTrailingSpaces (s ++ [0]) s.length).takeWhile (· ≠ 0) = s.rdropWhile (· = 32) := by
  have hset : (s ++ [0]).set s.length 0 = s ++ [0] := by
    rw [List.set_append_right _ _ (Nat.le_refl _), Nat.sub_self]
    rfl
  obtain ⟨k, hk⟩ := trimFrom_append hs [0]
  have hzeros : List.replicate k (0 : UInt8) ++ [0] = 0 :: List.replicate k 0 := by
    rw [← List.replicate_succ', List.replicate_succ]
  have hclean : ∀ c ∈ s.rdropWhile (· = 32), decide (c ≠ 0) = true := by
    intro c hc
    rw [decide_eq_true_iff]
    rintro rfl
    exact hs ((List.rdropWhile_prefix _ _).subset hc)
  rw [removeTrailingSpaces, hset, hk, hzeros, List.takeWhile_append_of_pos hclean,
    List.takeWhile_cons_of_neg (by decide), List.append_nil]

/-! ## Text fields

A letter of the message becomes a character by adding 64 to the small codes; `@` would be
64 itself and is shown as a blank. -/

/-- What a text field holds: the codes of its letters. -/
abbrev Letters (len : ℕ) : Type := Vector (BitVec 6) len

/-- A text field in a message. -/
def Letters.field {len : ℕ} (l : Letters len) : Field :=
  .letters 6 (l.toList.map BitVec.toNat) (by rw [List.length_map, Vector.length_toList])

/-- Six bits a letter. -/
@[simp] theorem Letters.width_field {len : ℕ} (l : Letters len) : l.field.width = 6 * len := by
  rw [Letters.field, Field.letters]

/-- The letters the decoder shows for some codes. -/
def shown (codes : List (BitVec 6)) : List UInt8 :=
  (codes.map fun c => protodecDecodeSixbitAscii c.toNat).rdropWhile (· = 32)

/-- A loop over the first letters of a text field leaves what they show. -/
theorem sixbitText_letters {n : ℕ} {frame : Vector UInt8 n} {start : ℕ} {fields : List Field}
    (hholds : HoldsBits frame start (pack fields)) {i len : ℕ} {l : Letters len}
    (hf : fields[i]? = some l.field) {count : ℕ} (hcount : count ≤ len) {pos : ℕ}
    (hpos : start + width (fields.take i) = pos) :
    sixbitText pos count frame = some (shown (l.toList.take count)) := by
  have hsize : l.toList.length = len := Vector.length_toList
  have hletter : ∀ k c, k < count → l.toList[k]? = some c →
      protodecHenten (pos + 6 * k) 6 frame = some c.toNat := by
    intro k c hk hc
    have hcode : (l.toList.map BitVec.toNat)[k]? = some c.toNat := by
      rw [List.getElem?_map, hc, Option.map_some]
    have hend : 6 * k + 6 ≤ l.field.width := by
      rw [l.width_field]
      omega
    rw [henten_inside hholds hf hend (by omega), Letters.field, Field.drop_take_letters hcode,
      ofBits_toBits c.isLt]
  -- the loop over the letters
  have hread : ((List.range count).mapM fun k => do
        let letter ← protodecHenten (pos + 6 * k) 6 frame
        return protodecDecodeSixbitAscii letter : Option (List UInt8)) =
      some ((List.range count).map fun k =>
        protodecDecodeSixbitAscii ((l.toList[k]?).getD 0).toNat) := by
    refine Buffer.mapM_some fun k hk => ?_
    have hlt : k < count := List.mem_range.mp hk
    have hget := List.getElem?_eq_getElem (show k < l.toList.length by omega)
    rw [hletter k _ hlt hget, hget]
    rfl
  have hletters : ((List.range count).map fun k =>
        protodecDecodeSixbitAscii ((l.toList[k]?).getD 0).toNat) =
      (l.toList.take count).map fun c => protodecDecodeSixbitAscii c.toNat := by
    apply List.ext_getElem?
    intro k
    rw [List.getElem?_map, List.getElem?_map]
    by_cases hk : k < count
    · have hget := List.getElem?_eq_getElem (show k < l.toList.length by omega)
      rw [List.getElem?_take_of_lt hk, List.getElem?_range hk, hget, Option.map_some,
        Option.map_some, hget, Option.getD_some]
    · rw [List.getElem?_eq_none (by rw [List.length_range]; omega),
        List.getElem?_eq_none (by rw [List.length_take]; omega)]
      rfl
  have hlen : ((l.toList.take count).map fun c => protodecDecodeSixbitAscii c.toNat).length =
      count := by
    rw [List.length_map, List.length_take]
    omega
  -- no letter is shown as a terminator, so only the blanks at the end go
  have hclean : 0 ∉ (l.toList.take count).map fun c => protodecDecodeSixbitAscii c.toNat := by
    intro hzero
    obtain ⟨c, -, hc⟩ := List.mem_map.mp hzero
    have hrange := (decodeSixbitAscii_range c.toNat).1
    rw [hc] at hrange
    exact absurd hrange (by decide)
  have htrim := removeTrailingSpaces_eq hclean
  rw [hlen] at htrim
  rw [sixbitText, hread, hletters]
  exact congrArg some htrim

/-! ## Padded text

Which of the two characters a sender pads with, or in which order, cannot be seen in what
is shown. -/

/-- The code of a character. -/
def sixbitCode (c : UInt8) : BitVec 6 := BitVec.ofNat 6 c.toNat

/-- A text in a field of `len` letters: characters of the alphabet but `@`, with
no blank at the end, and padding of `@` and blanks in any order. -/
structure Padded (len : ℕ) where
  /-- what is meant -/
  text : List UInt8
  /-- what fills the field -/
  padding : List UInt8
  /-- together they are as long as the field -/
  fills : text.length + padding.length = len
  /-- `@` cannot be told from a blank -/
  alphabet : ∀ c ∈ text, 32 ≤ c ∧ c ≤ 95 ∧ c ≠ 64
  /-- a blank at the end could not be told from padding -/
  last : text.getLast? ≠ some 32
  /-- senders use both -/
  blank : ∀ c ∈ padding, c = 64 ∨ c = 32

/-- The codes of the text and its padding. -/
def Padded.letters {len : ℕ} (t : Padded len) : Letters len :=
  ⟨((t.text ++ t.padding).map sixbitCode).toArray, by
    rw [List.size_toArray, List.length_map, List.length_append, t.fills]⟩

/-- Every character but `@` comes out as itself. -/
theorem decode_sixbitCode {c : UInt8} (h : 32 ≤ c ∧ c ≤ 95 ∧ c ≠ 64) :
    protodecDecodeSixbitAscii (sixbitCode c).toNat = c := by
  obtain ⟨hlow, hhigh, hat⟩ := h
  have hall : ∀ k < 96, 32 ≤ k → k ≠ 64 →
      protodecDecodeSixbitAscii (BitVec.ofNat 6 k).toNat = UInt8.ofNat k := by
    decide
  rw [sixbitCode, hall c.toNat (Nat.lt_succ_of_le hhigh) hlow fun h => hat (UInt8.toNat_inj.mp h),
    UInt8.ofNat_toNat]

/-- Padding comes out as a blank. -/
theorem decode_padding {c : UInt8} (h : c = 64 ∨ c = 32) :
    protodecDecodeSixbitAscii (sixbitCode c).toNat = 32 := by
  rcases h with rfl | rfl <;> rfl

/-- The first letters of a padded text show the first characters of the text,
less the blanks at their end. -/
theorem Padded.shown_take {len : ℕ} (t : Padded len) (count : ℕ) :
    shown (t.letters.toList.take count) = (t.text.take count).rdropWhile (· = 32) := by
  have htext : (t.text.map fun c => protodecDecodeSixbitAscii (sixbitCode c).toNat) = t.text := by
    rw [List.map_congr_left fun c hc => decode_sixbitCode (t.alphabet c hc), List.map_id']
  have hpadding : (t.padding.map fun c => protodecDecodeSixbitAscii (sixbitCode c).toNat) =
      List.replicate t.padding.length 32 := by
    rw [List.map_congr_left fun c hc => decode_padding (t.blank c hc), List.map_const']
  have hblank : ∀ k, (t.text.take count ++ List.replicate k 32).rdropWhile (· = 32) =
      (t.text.take count).rdropWhile (· = 32) := by
    intro k
    induction k with
    | zero => rw [List.replicate_zero, List.append_nil]
    | succ k ih =>
      rw [List.replicate_succ', ← List.append_assoc, List.rdropWhile_concat_pos _ _ _ (by decide),
        ih]
  have hcodes : t.letters.toList = (t.text ++ t.padding).map sixbitCode := rfl
  have hshown : (t.letters.toList.map fun c => protodecDecodeSixbitAscii c.toNat) =
      t.text ++ List.replicate t.padding.length 32 := by
    rw [hcodes, List.map_map, List.map_append]
    exact congrArg₂ (· ++ ·) htext hpadding
  rw [shown, List.map_take, hshown, List.take_append, List.take_replicate, hblank]

/-- A text that fits has no blank to lose. -/
theorem Padded.rdropWhile_text {len : ℕ} (t : Padded len) :
    t.text.rdropWhile (· = 32) = t.text := by
  rw [List.rdropWhile_eq_self_iff]
  intro hne hblank
  refine t.last ?_
  rw [List.getLast?_eq_some_getLast hne, of_decide_eq_true hblank]

/-- A loop over some of the letters gives the text when the text has no more
letters than that. -/
theorem Padded.shown_take_iff {len : ℕ} (t : Padded len) (count : ℕ) :
    shown (t.letters.toList.take count) = t.text ↔ t.text.length ≤ count := by
  rw [t.shown_take]
  constructor
  · intro h
    have hle := (List.rdropWhile_prefix (· = 32) (t.text.take count)).length_le
    rw [h, List.length_take] at hle
    omega
  · intro h
    rw [List.take_of_length_le h, t.rdropWhile_text]

/-- A loop over all letters gives the text. -/
theorem Padded.shown_letters {len : ℕ} (t : Padded len) :
    shown (t.letters.toList.take len) = t.text := by
  have hfills := t.fills
  exact (t.shown_take_iff len).mpr (by omega)

end Gnuais

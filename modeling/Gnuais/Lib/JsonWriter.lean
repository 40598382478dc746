import Gnuais.Lib.Json

/-!
# Writing JSON without escapes

A writer that puts a text together from pieces, with a blank behind each comma and
colon, and strings between quotation marks as they are.

* `Verbatim` — a string that may stand as it is.
* `Block` — pieces that may stand behind any others.
* `objectPieces`, `arrayPieces` — objects of strings and numbers, and arrays.

`parse_text_strings_iff` is `parse_text_iff` on the list of all strings in a text.
-/

namespace Json

/-! ## Strings that stand as they are

Both conditions on a string together: it needs no escape, and it is UTF-8. -/

/-- A string that means itself between quotation marks. -/
def Verbatim (s : List UInt8) : Prop := isUtf8 s = true ∧ Unescaped s

instance (s : List UInt8) : Decidable (Verbatim s) := by
  unfold Verbatim
  infer_instance

/-- One-byte characters, neither control characters nor a quotation mark or a
backslash. -/
theorem verbatim_of_ascii {s : List UInt8} (h : ∀ c ∈ s, 32 ≤ c ∧ c < 128 ∧ c ≠ 34 ∧ c ≠ 92) :
    Verbatim s := by
  refine ⟨?_, fun c hc => ⟨(h c hc).1, (h c hc).2.2⟩⟩
  have hutf := isUtf8_ascii_append (fun c hc => (h c hc).2.1) []
  rw [List.append_nil] at hutf
  exact hutf.mpr rfl

/-- One-byte characters are verbatim if they need no escape. -/
theorem verbatim_iff_of_ascii {s : List UInt8} (h : ∀ c ∈ s, 32 ≤ c ∧ c < 128) :
    Verbatim s ↔ 34 ∉ s ∧ 92 ∉ s := by
  constructor
  · exact fun hs => ⟨fun hmem => (hs.2 34 hmem).2.1 rfl, fun hmem => (hs.2 92 hmem).2.2 rfl⟩
  · rintro ⟨hquote, hback⟩
    refine verbatim_of_ascii fun c hc => ⟨(h c hc).1, (h c hc).2, ?_, ?_⟩
    · rintro rfl
      exact hquote hc
    · rintro rfl
      exact hback hc

/-- The strings in some pieces. -/
def strings (pieces : List Piece) : List (List UInt8) :=
  pieces.filterMap fun
    | .string s => some s
    | _ => none

/-- A string is one of the pieces. -/
theorem mem_strings {pieces : List Piece} {s : List UInt8} :
    s ∈ strings pieces ↔ .string s ∈ pieces := by
  rw [strings, List.mem_filterMap]
  constructor
  · rintro ⟨p, hp, hs⟩
    cases p with
    | string s' =>
      obtain rfl := Option.some.inj hs
      exact hp
    | _ => cases hs
  · exact fun hmem => ⟨_, hmem, rfl⟩

/-- The strings in two stretches. -/
@[simp] theorem strings_append (xs ys : List Piece) :
    strings (xs ++ ys) = strings xs ++ strings ys := List.filterMap_append

theorem strings_flatMap {α : Type} (f : α → List Piece) (xs : List α) :
    strings (xs.flatMap f) = xs.flatMap fun x => strings (f x) := List.filterMap_flatMap

/-- The text of two stretches. -/
@[simp] theorem textOf_append (xs ys : List Piece) : textOf (xs ++ ys) = textOf xs ++ textOf ys :=
  List.flatMap_append

@[simp] theorem textOf_cons (p : Piece) (xs : List Piece) : textOf (p :: xs) = p.text ++ textOf xs :=
  List.flatMap_cons

@[simp] theorem textOf_nil : textOf [] = [] := rfl

theorem textOf_flatMap {α : Type} (f : α → List Piece) (xs : List α) :
    textOf (xs.flatMap f) = xs.flatMap fun x => textOf (f x) := List.flatMap_assoc

/-- The tokens of two stretches. -/
@[simp] theorem tokensOf_append (xs ys : List Piece) :
    tokensOf (xs ++ ys) = tokensOf xs ++ tokensOf ys := List.filterMap_append

/-- White space. -/
abbrev Piece.newline : Piece := .blank 10 rfl

abbrev Piece.tab : Piece := .blank 9 rfl

abbrev Piece.space : Piece := .blank 32 rfl

/-! ## Blocks

A writer puts objects and arrays together from parts. Parts that begin with no number may
follow each other in any order. -/

/-- Pieces of which the first is no number, so that they may stand behind any others. -/
structure Block (pieces : List Piece) : Prop where
  /-- within the pieces no number stands behind another -/
  separate : Separate pieces
  /-- and none is in front -/
  front : ∀ p ∈ pieces.head?, p.isNumber = false

theorem Block.nil : Block [] where
  separate := .nil
  front := fun _ hp => nomatch hp

theorem Block.cons {p : Piece} {pieces : List Piece} (hp : p.isNumber = false)
    (h : Separate pieces) : Block (p :: pieces) where
  separate := List.isChain_cons.mpr ⟨fun _ _ hnumber => by simp [hp] at hnumber, h⟩
  front := fun q hq => by
    rw [← Option.some.inj hq]
    exact hp

/-- Pieces without numbers. -/
theorem block_of_forall {pieces : List Piece} (h : ∀ p ∈ pieces, p.isNumber = false) :
    Block pieces := by
  induction pieces with
  | nil => exact .nil
  | cons p pieces ih =>
    exact .cons (h p (List.mem_cons_self ..)) (ih fun q hq => h q (List.mem_cons_of_mem _ hq)).separate

/-- Two blocks are one. -/
theorem Block.append {xs ys : List Piece} (hx : Block xs) (hy : Block ys) : Block (xs ++ ys) where
  separate := List.isChain_append.mpr ⟨hx.separate, hy.separate, fun _ _ q hq _ => hy.front q hq⟩
  front := by
    cases xs with
    | nil => exact hy.front
    | cons p xs => exact hx.front

/-- So are many. -/
theorem Block.flatMap {α : Type} {f : α → List Piece} {xs : List α} (h : ∀ x ∈ xs, Block (f x)) :
    Block (xs.flatMap f) := by
  induction xs with
  | nil => exact .nil
  | cons x xs ih =>
    rw [List.flatMap_cons]
    exact (h x (List.mem_cons_self ..)).append (ih fun y hy => h y (List.mem_cons_of_mem _ hy))

/-! ## No terminator, and no more than so many bytes

For writers in C: the text is a string, and it fits in a buffer. -/

/-- A text has a byte 0 only from its strings. -/
theorem zero_not_mem_textOf {pieces : List Piece} (h : ∀ s ∈ strings pieces, 0 ∉ s) :
    0 ∉ textOf pieces := by
  intro hmem
  obtain ⟨p, hp, hzero⟩ := List.mem_flatMap.mp hmem
  cases p with
  | blank c hc =>
    obtain rfl := List.mem_singleton.mp hzero
    exact absurd hc (by decide)
  | punct p =>
    have hne : 0 ≠ p.char := by cases p <;> decide
    exact hne (List.mem_singleton.mp hzero)
  | string s =>
    rw [Piece.text, List.mem_cons, List.mem_append, List.mem_singleton] at hzero
    rcases hzero with hzero | hzero | hzero
    · exact absurd hzero (by decide)
    · exact h s (mem_strings.mpr hp) hzero
    · exact absurd hzero (by decide)
  | number n =>
    obtain ⟨c, cs, htext, hall⟩ := text_isNumberChar n
    rw [Piece.text, htext] at hzero
    exact absurd (hall 0 hzero) (by decide)

theorem length_flatMap_le {α β : Type} {f : α → List β} {k : ℕ} {xs : List α}
    (h : ∀ x ∈ xs, (f x).length ≤ k) : (xs.flatMap f).length ≤ xs.length * k := by
  induction xs with
  | nil => exact Nat.zero_le _
  | cons x xs ih =>
    have hx := h x (List.mem_cons_self ..)
    have hxs := ih fun y hy => h y (List.mem_cons_of_mem _ hy)
    rw [List.flatMap_cons, List.length_append, List.length_cons, Nat.succ_mul]
    omega

/-! ## Objects of strings and numbers

The objects of an export are flat. Their members are written in a row with a comma in
front of all but the first. -/

/-- A string or a number. -/
inductive Scalar where
  /-- between quotation marks -/
  | string (s : List UInt8)
  /-- as it is printed -/
  | number (n : Numeral)

/-- Its piece. -/
def Scalar.piece : Scalar → Piece
  | .string s => .string s
  | .number n => .number n

/-- Its value. -/
def Scalar.value : Scalar → Value
  | .string s => .string s
  | .number n => .number n.text

/-- Its string, if it is one. -/
def Scalar.strings : Scalar → List (List UInt8)
  | .string s => [s]
  | .number _ => []

/-- The members of an object. -/
abbrev Members : Type := List (List UInt8 × Scalar)

/-- `"key": value` -/
def memberPieces (m : List UInt8 × Scalar) : List Piece :=
  [.string m.1, .punct .nameSeparator, .space, m.2.piece]

/-- `, "key": value` -/
def nextPieces (m : List UInt8 × Scalar) : List Piece :=
  .punct .valueSeparator :: .space :: memberPieces m

/-- `{"key": value, ...}` -/
def objectPieces (m : List UInt8 × Scalar) (ms : Members) : List Piece :=
  .punct .beginObject :: (memberPieces m ++ (ms.flatMap nextPieces ++ [.punct .endObject]))

/-- The object that is meant. -/
def objectValue (ms : Members) : Value := .object (ms.map fun m => (m.1, m.2.value))

theorem block_member (m : List UInt8 × Scalar) : Block (memberPieces m) :=
  .cons rfl (Block.cons rfl (Block.cons rfl (.singleton _)).separate).separate

theorem block_next (m : List UInt8 × Scalar) : Block (nextPieces m) :=
  .cons rfl (Block.cons rfl (block_member m).separate).separate

/-- An object may stand behind anything. -/
theorem block_object (m : List UInt8 × Scalar) (ms : Members) : Block (objectPieces m ms) :=
  .cons rfl ((block_member m).append
    ((Block.flatMap fun m _ => block_next m).append (.cons rfl .nil))).separate

theorem tokensOf_member (m : List UInt8 × Scalar) :
    tokensOf (memberPieces m) = .string m.1 :: .punct .nameSeparator :: m.2.value.tokens := by
  obtain ⟨k, v⟩ := m
  cases v <;> rfl

theorem tokensOf_next (ms : Members) :
    tokensOf (ms.flatMap nextPieces) = memberTokens (ms.map fun m => (m.1, m.2.value)) := by
  induction ms with
  | nil => rfl
  | cons m ms ih =>
    have hnext : tokensOf (nextPieces m) = .punct .valueSeparator :: tokensOf (memberPieces m) := rfl
    rw [List.flatMap_cons, tokensOf_append, ih, hnext, tokensOf_member, List.map_cons, memberTokens]
    rfl

/-- Its pieces have the tokens of the object that is meant. -/
theorem tokensOf_object (m : List UInt8 × Scalar) (ms : Members) :
    tokensOf (objectPieces m ms) = (objectValue (m :: ms)).tokens := by
  have hopen : ∀ pieces, tokensOf (.punct .beginObject :: pieces) =
      .punct .beginObject :: tokensOf pieces := fun _ => rfl
  rw [objectPieces, hopen, tokensOf_append, tokensOf_append, tokensOf_member, tokensOf_next,
    objectValue, List.map_cons, Value.tokens]
  rfl

/-- Its strings are the names, and the values that are strings. -/
theorem strings_object (m : List UInt8 × Scalar) (ms : Members) :
    strings (objectPieces m ms) = (m :: ms).flatMap fun m => m.1 :: m.2.strings := by
  have hmember : ∀ m : List UInt8 × Scalar, strings (memberPieces m) = m.1 :: m.2.strings := by
    rintro ⟨k, v⟩
    cases v <;> rfl
  have hnext : ∀ m : List UInt8 × Scalar, strings (nextPieces m) = m.1 :: m.2.strings := hmember
  have hopen : ∀ pieces, strings (.punct .beginObject :: pieces) = strings pieces := fun _ => rfl
  have hclose : strings [.punct .endObject] = [] := rfl
  rw [objectPieces, hopen, strings_append, strings_append, hmember, strings_flatMap, hclose,
    List.append_nil, List.flatMap_cons]
  simp only [hnext]

/-- An object is no longer than its members. -/
theorem length_object_le {k : ℕ} {m : List UInt8 × Scalar} {ms : Members}
    (h : ∀ m' ∈ m :: ms, m'.1.length + m'.2.piece.text.length ≤ k) :
    (textOf (objectPieces m ms)).length ≤ (ms.length + 1) * (k + 6) + 2 := by
  have hmember : ∀ m' ∈ m :: ms, (textOf (memberPieces m')).length ≤ k + 4 := by
    intro m' hm
    have hlen := h m' hm
    have hkey : (Piece.string m'.1).text.length = m'.1.length + 2 := by simp [Piece.text]
    have hcolon : (Piece.punct .nameSeparator).text.length = 1 := rfl
    have hblank : Piece.space.text.length = 1 := rfl
    simp only [memberPieces, textOf_cons, textOf_nil, List.length_append, List.length_nil, hkey,
      hcolon, hblank]
    omega
  have hnext : (ms.flatMap fun m' => textOf (nextPieces m')).length ≤ ms.length * (k + 6) := by
    refine length_flatMap_le fun m' hm => ?_
    have hlen := hmember m' (List.mem_cons_of_mem _ hm)
    simp only [nextPieces, textOf_cons, Piece.text, List.length_append, List.length_singleton]
    omega
  have hfirst := hmember m (List.mem_cons_self ..)
  rw [objectPieces, textOf_cons, textOf_append, textOf_append, textOf_flatMap, textOf_cons,
    textOf_nil, Nat.succ_mul]
  simp only [List.length_append, Piece.text, List.length_singleton, List.length_nil]
  omega

/-! ## Arrays

The elements are written by any function that gives blocks. -/

section Arrays

variable {α : Type} (f : α → List Piece) (g : α → Value)

/-- A comma and a line feed, and an element. -/
def nextElement (x : α) : List Piece := .punct .valueSeparator :: .newline :: f x

/-- The elements of an array, each on a line of its own. -/
def elementPieces : List α → List Piece
  | [] => []
  | x :: xs => f x ++ xs.flatMap (nextElement f)

variable {f g}

/-- The elements are a block. -/
theorem block_elements {xs : List α} (h : ∀ x ∈ xs, Block (f x)) : Block (elementPieces f xs) := by
  cases xs with
  | nil => exact .nil
  | cons x xs =>
    refine (h x (List.mem_cons_self ..)).append (Block.flatMap fun y hy => ?_)
    exact .cons rfl (Block.cons rfl (h y (List.mem_cons_of_mem _ hy)).separate).separate

/-- The elements between brackets are the array of their values. -/
theorem tokensOf_elements (h : ∀ x, tokensOf (f x) = (g x).tokens) (xs : List α) :
    .punct .beginArray :: (tokensOf (elementPieces f xs) ++ [.punct .endArray]) =
      (Value.array (xs.map g)).tokens := by
  have hnext : ∀ x, tokensOf (nextElement f x) = .punct .valueSeparator :: (g x).tokens := fun x => by
    rw [← h x]
    rfl
  have hrest : ∀ xs : List α, tokensOf (xs.flatMap (nextElement f)) = elementTokens (xs.map g) := by
    intro xs
    induction xs with
    | nil => rfl
    | cons x xs ih =>
      rw [List.flatMap_cons, tokensOf_append, ih, hnext, List.map_cons, elementTokens]
      rfl
  cases xs with
  | nil => rfl
  | cons x xs =>
    rw [elementPieces, tokensOf_append, h, hrest, List.map_cons, Value.tokens, List.append_assoc]

/-- Their strings, element by element. -/
theorem strings_elements (xs : List α) :
    strings (elementPieces f xs) = xs.flatMap fun x => strings (f x) := by
  have hnext : ∀ x, strings (nextElement f x) = strings (f x) := fun _ => rfl
  cases xs with
  | nil => rfl
  | cons x xs =>
    rw [elementPieces, strings_append, strings_flatMap, List.flatMap_cons]
    simp only [hnext]

end Arrays

/-! ## Reading what was written

Everything is now in one condition on the strings. -/

/-- A text put together from the tokens of a value is read as this value exactly if
all strings in it are verbatim. -/
theorem parse_text_strings_iff {pieces : List Piece} {v : Value} (hblock : Block pieces)
    (htokens : tokensOf pieces = v.tokens) :
    parse (textOf pieces) = some v ↔ ∀ s ∈ strings pieces, Verbatim s := by
  rw [parse_text_iff hblock.separate htokens]
  simp only [mem_strings, Verbatim]

end Json

import Gnuais.Lib.JsonLex

/-!
# JSON values

The grammar of RFC 8259 over the tokens of a text. `parse` reads a text; it is
exact on tokens (`parseTokens_eq_some_iff`): a value is read from its own tokens and
from no others. `parse_text_iff` is the rule for a writer that escapes nothing: its
text is read as the value that was meant exactly if every string in it could be
written as it is.
-/

namespace Json

/-- A value; a number stays as it is written, a string is its bytes in UTF-8. -/
inductive Value where
  /-- `true`, `false` or `null` -/
  | literal (l : Literal)
  /-- the bytes between the quotation marks, with escapes undone -/
  | string (bytes : List UInt8)
  /-- as it is written -/
  | number (text : List UInt8)
  /-- in order -/
  | array (elements : List Value)
  /-- in order as well; a name may come twice -/
  | object (members : List (List UInt8 × Value))

/-! ## The tokens of a value

A writer's half of the grammar: every value has one list of tokens. -/

mutual

def Value.tokens : Value → List Token
  | .literal l => [.literal l]
  | .string s => [.string s]
  | .number t => [.number t]
  | .array [] => [.punct .beginArray, .punct .endArray]
  | .array (v :: vs) =>
    .punct .beginArray :: (v.tokens ++ (elementTokens vs ++ [.punct .endArray]))
  | .object [] => [.punct .beginObject, .punct .endObject]
  | .object ((k, v) :: ms) =>
    .punct .beginObject :: .string k :: .punct .nameSeparator ::
      (v.tokens ++ (memberTokens ms ++ [.punct .endObject]))

/-- The further elements of an array, each behind a comma. -/
def elementTokens : List Value → List Token
  | [] => []
  | v :: vs => .punct .valueSeparator :: (v.tokens ++ elementTokens vs)

/-- The further members of an object, each behind a comma. -/
def memberTokens : List (List UInt8 × Value) → List Token
  | [] => []
  | (k, v) :: ms =>
    .punct .valueSeparator :: .string k :: .punct .nameSeparator :: (v.tokens ++ memberTokens ms)

end

/-! ## Reading tokens

The reader's half. The functions call each other on shorter lists, but on lists that come
out of other calls; so they take the number of steps they may still make. -/

mutual

/-- A value at the start of some tokens, and the tokens behind it. -/
def parseValue : ℕ → List Token → Option (Value × List Token)
  | _ + 1, .literal l :: ts => some (.literal l, ts)
  | _ + 1, .string s :: ts => some (.string s, ts)
  | _ + 1, .number t :: ts => some (.number t, ts)
  | _ + 1, .punct .beginArray :: .punct .endArray :: ts => some (.array [], ts)
  | n + 1, .punct .beginArray :: ts => do
    let (v, ts) ← parseValue n ts
    let (vs, ts) ← parseElements n ts
    return (.array (v :: vs), ts)
  | _ + 1, .punct .beginObject :: .punct .endObject :: ts => some (.object [], ts)
  | n + 1, .punct .beginObject :: ts => do
    let (m, ts) ← parseMember n ts
    let (ms, ts) ← parseMembers n ts
    return (.object (m :: ms), ts)
  | _, _ => none

/-- The further elements of an array, and the tokens behind its end. -/
def parseElements : ℕ → List Token → Option (List Value × List Token)
  | _ + 1, .punct .endArray :: ts => some ([], ts)
  | n + 1, .punct .valueSeparator :: ts => do
    let (v, ts) ← parseValue n ts
    let (vs, ts) ← parseElements n ts
    return (v :: vs, ts)
  | _, _ => none

def parseMember : ℕ → List Token → Option ((List UInt8 × Value) × List Token)
  | n + 1, .string k :: .punct .nameSeparator :: ts => do
    let (v, ts) ← parseValue n ts
    return ((k, v), ts)
  | _, _ => none

/-- The further members of an object, and the tokens behind its end. -/
def parseMembers : ℕ → List Token → Option (List (List UInt8 × Value) × List Token)
  | _ + 1, .punct .endObject :: ts => some ([], ts)
  | n + 1, .punct .valueSeparator :: ts => do
    let (m, ts) ← parseMember n ts
    let (ms, ts) ← parseMembers n ts
    return (m :: ms, ts)
  | _, _ => none

end

/-- All tokens as one value. -/
def parseTokens (tokens : List Token) : Option Value :=
  match parseValue tokens.length tokens with
  | some (v, []) => some v
  | _ => none

/-- A JSON text. -/
def parse (text : List UInt8) : Option Value :=
  if isUtf8 text then (lex text.length text).bind parseTokens else none

/-! ## Only its own tokens are read as a value -/

/-- What the four readers read when they may take `n` steps: the tokens of what they
return, with the end of the array or of the object behind them. -/
structure Sound (n : ℕ) : Prop where
  /-- each reader, in the order in which they are defined -/
  value : ∀ ts v rest, parseValue n ts = some (v, rest) → ts = v.tokens ++ rest
  elements : ∀ ts vs rest, parseElements n ts = some (vs, rest) →
    ts = elementTokens vs ++ .punct .endArray :: rest
  member : ∀ ts m rest, parseMember n ts = some (m, rest) →
    ts = .string m.1 :: .punct .nameSeparator :: (m.2.tokens ++ rest)
  members : ∀ ts ms rest, parseMembers n ts = some (ms, rest) →
    ts = memberTokens ms ++ .punct .endObject :: rest

section Sound

variable {n : ℕ} (ih : Sound n) {ts rest : List Token}

include ih

/-- One step more for a value. -/
theorem Sound.value_succ {v : Value} (h : parseValue (n + 1) ts = some (v, rest)) :
    ts = v.tokens ++ rest := by
  unfold parseValue at h
  split at h
  · obtain ⟨rfl, rfl⟩ := Prod.mk.inj (Option.some.inj h)
    rfl
  · obtain ⟨rfl, rfl⟩ := Prod.mk.inj (Option.some.inj h)
    rfl
  · obtain ⟨rfl, rfl⟩ := Prod.mk.inj (Option.some.inj h)
    rfl
  · obtain ⟨rfl, rfl⟩ := Prod.mk.inj (Option.some.inj h)
    rfl
  · -- an array with a first element
    rename_i hn
    obtain rfl := Nat.succ.inj hn
    obtain ⟨⟨v', ts'⟩, hv, h⟩ := Option.bind_eq_some_iff.mp h
    obtain ⟨⟨vs, ts''⟩, hvs, h⟩ := Option.bind_eq_some_iff.mp h
    obtain ⟨rfl, rfl⟩ := Prod.mk.inj (Option.some.inj h)
    rw [ih.value _ _ _ hv, ih.elements _ _ _ hvs]
    simp only [Value.tokens, List.cons_append, List.append_assoc, List.nil_append]
  · obtain ⟨rfl, rfl⟩ := Prod.mk.inj (Option.some.inj h)
    rfl
  · -- an object with a first member
    rename_i hn
    obtain rfl := Nat.succ.inj hn
    obtain ⟨⟨⟨k, v'⟩, ts'⟩, hm, h⟩ := Option.bind_eq_some_iff.mp h
    obtain ⟨⟨ms, ts''⟩, hms, h⟩ := Option.bind_eq_some_iff.mp h
    obtain ⟨rfl, rfl⟩ := Prod.mk.inj (Option.some.inj h)
    rw [ih.member _ _ _ hm, ih.members _ _ _ hms]
    simp only [Value.tokens, List.cons_append, List.append_assoc, List.nil_append]
  · cases h

/-- For the elements of an array. -/
theorem Sound.elements_succ {vs : List Value} (h : parseElements (n + 1) ts = some (vs, rest)) :
    ts = elementTokens vs ++ .punct .endArray :: rest := by
  unfold parseElements at h
  split at h
  · obtain ⟨rfl, rfl⟩ := Prod.mk.inj (Option.some.inj h)
    rfl
  · rename_i hn
    obtain rfl := Nat.succ.inj hn
    obtain ⟨⟨v, ts'⟩, hv, h⟩ := Option.bind_eq_some_iff.mp h
    obtain ⟨⟨vs', ts''⟩, hvs, h⟩ := Option.bind_eq_some_iff.mp h
    obtain ⟨rfl, rfl⟩ := Prod.mk.inj (Option.some.inj h)
    rw [ih.value _ _ _ hv, ih.elements _ _ _ hvs]
    simp only [elementTokens, List.cons_append, List.append_assoc]
  · cases h

/-- For one member. -/
theorem Sound.member_succ {m : List UInt8 × Value} (h : parseMember (n + 1) ts = some (m, rest)) :
    ts = .string m.1 :: .punct .nameSeparator :: (m.2.tokens ++ rest) := by
  unfold parseMember at h
  split at h
  · rename_i hn
    obtain rfl := Nat.succ.inj hn
    obtain ⟨⟨v, ts'⟩, hv, h⟩ := Option.bind_eq_some_iff.mp h
    obtain ⟨rfl, rfl⟩ := Prod.mk.inj (Option.some.inj h)
    rw [ih.value _ _ _ hv]
  · cases h

/-- For the members of an object. -/
theorem Sound.members_succ {ms : List (List UInt8 × Value)}
    (h : parseMembers (n + 1) ts = some (ms, rest)) :
    ts = memberTokens ms ++ .punct .endObject :: rest := by
  unfold parseMembers at h
  split at h
  · obtain ⟨rfl, rfl⟩ := Prod.mk.inj (Option.some.inj h)
    rfl
  · rename_i hn
    obtain rfl := Nat.succ.inj hn
    obtain ⟨⟨⟨k, v⟩, ts'⟩, hm, h⟩ := Option.bind_eq_some_iff.mp h
    obtain ⟨⟨ms', ts''⟩, hms, h⟩ := Option.bind_eq_some_iff.mp h
    obtain ⟨rfl, rfl⟩ := Prod.mk.inj (Option.some.inj h)
    rw [ih.member _ _ _ hm, ih.members _ _ _ hms]
    simp only [memberTokens, List.cons_append, List.append_assoc]
  · cases h

end Sound

/-- The readers read only what they return. The induction is on the steps they may take;
each reader leaves one step less to those it calls. -/
theorem parse_sound (n : ℕ) : Sound n := by
  induction n with
  | zero => exact ⟨(fun _ _ _ h => nomatch h), (fun _ _ _ h => nomatch h),
      (fun _ _ _ h => nomatch h), (fun _ _ _ h => nomatch h)⟩
  | succ n ih =>
    exact ⟨fun _ _ _ h => ih.value_succ h, fun _ _ _ h => ih.elements_succ h,
      fun _ _ _ h => ih.member_succ h, fun _ _ _ h => ih.members_succ h⟩

/-! ## A value is read from its tokens

A value with `k` tokens takes no more than `k` steps, so there are always enough. -/

/-- No value starts with the end of an array or of an object. -/
theorem Value.tokens_eq_cons (v : Value) :
    ∃ t ts, v.tokens = t :: ts ∧ t ≠ .punct .endArray ∧ t ≠ .punct .endObject := by
  cases v with
  | literal l => exact ⟨_, _, rfl, Token.noConfusion, Token.noConfusion⟩
  | string s => exact ⟨_, _, rfl, Token.noConfusion, Token.noConfusion⟩
  | number t => exact ⟨_, _, rfl, Token.noConfusion, Token.noConfusion⟩
  | array vs => cases vs <;> exact ⟨_, _, by rw [Value.tokens], by decide, by decide⟩
  | object ms => cases ms <;> exact ⟨_, _, by rw [Value.tokens], by decide, by decide⟩

/-- The reader of an array that does not end at once. -/
theorem parseValue_array {n : ℕ} {v v' : Value} {vs : List Value} {ts ts' rest : List Token}
    (hv : parseValue n (v.tokens ++ ts) = some (v', ts'))
    (hvs : parseElements n ts' = some (vs, rest)) :
    parseValue (n + 1) (.punct .beginArray :: (v.tokens ++ ts)) =
      some (.array (v' :: vs), rest) := by
  obtain ⟨t, front, htokens, hend, -⟩ := v.tokens_eq_cons
  rw [htokens, List.cons_append] at hv ⊢
  rw [parseValue, hv, Option.bind_eq_bind, Option.bind_some]
  · dsimp only
    rw [hvs]
    rfl
  · rintro ts₀ h
    exact hend (List.cons.inj h).1

/-- What the four readers return when they may take `n` steps: whatever has no more tokens
than that, and the tokens behind it. -/
structure Complete (n : ℕ) : Prop where
  /-- each reader, in the order in which they are defined -/
  value : ∀ v rest, v.tokens.length ≤ n → parseValue n (v.tokens ++ rest) = some (v, rest)
  elements : ∀ vs rest, (elementTokens vs).length < n →
    parseElements n (elementTokens vs ++ .punct .endArray :: rest) = some (vs, rest)
  member : ∀ k v rest, v.tokens.length + 2 ≤ n →
    parseMember n (.string k :: .punct .nameSeparator :: (v.tokens ++ rest)) = some ((k, v), rest)
  members : ∀ ms rest, (memberTokens ms).length < n →
    parseMembers n (memberTokens ms ++ .punct .endObject :: rest) = some (ms, rest)

section Complete

variable {n : ℕ} (ih : Complete n)

include ih

/-- One step more for a value. -/
theorem Complete.value_succ (v : Value) (rest : List Token) (h : v.tokens.length ≤ n + 1) :
    parseValue (n + 1) (v.tokens ++ rest) = some (v, rest) := by
  cases v with
  | literal l => rfl
  | string s => rfl
  | number t => rfl
  | array vs =>
    cases vs with
    | nil => rfl
    | cons v vs =>
      rw [Value.tokens] at h ⊢
      simp only [List.length_cons, List.length_append] at h
      rw [List.cons_append, List.append_assoc, List.append_assoc]
      exact parseValue_array (ih.value v _ (by omega)) (ih.elements vs rest (by omega))
  | object ms =>
    cases ms with
    | nil => rfl
    | cons m ms =>
      obtain ⟨k, v⟩ := m
      rw [Value.tokens] at h ⊢
      simp only [List.length_cons, List.length_append] at h
      simp only [List.cons_append, List.append_assoc, List.nil_append]
      rw [parseValue, ih.member k v _ (by omega), Option.bind_eq_bind, Option.bind_some]
      · dsimp only
        rw [ih.members ms rest (by omega)]
        rfl
      · rintro _ h
        exact Token.noConfusion (List.cons.inj h).1

/-- For the elements of an array. -/
theorem Complete.elements_succ (vs : List Value) (rest : List Token)
    (h : (elementTokens vs).length < n + 1) :
    parseElements (n + 1) (elementTokens vs ++ .punct .endArray :: rest) = some (vs, rest) := by
  cases vs with
  | nil => rfl
  | cons v vs =>
    rw [elementTokens] at h ⊢
    simp only [List.length_cons, List.length_append] at h
    rw [List.cons_append, List.append_assoc, parseElements, ih.value v _ (by omega),
      Option.bind_eq_bind, Option.bind_some]
    dsimp only
    rw [ih.elements vs rest (by omega)]
    rfl

/-- For one member. -/
theorem Complete.member_succ (k : List UInt8) (v : Value) (rest : List Token)
    (h : v.tokens.length + 2 ≤ n + 1) :
    parseMember (n + 1) (.string k :: .punct .nameSeparator :: (v.tokens ++ rest)) =
      some ((k, v), rest) := by
  rw [parseMember, ih.value v rest (by omega)]
  rfl

/-- For the members of an object. -/
theorem Complete.members_succ (ms : List (List UInt8 × Value)) (rest : List Token)
    (h : (memberTokens ms).length < n + 1) :
    parseMembers (n + 1) (memberTokens ms ++ .punct .endObject :: rest) = some (ms, rest) := by
  cases ms with
  | nil => rfl
  | cons m ms =>
    obtain ⟨k, v⟩ := m
    rw [memberTokens] at h ⊢
    simp only [List.length_cons, List.length_append] at h
    simp only [List.cons_append, List.append_assoc]
    rw [parseMembers, ih.member k v _ (by omega), Option.bind_eq_bind, Option.bind_some]
    dsimp only
    rw [ih.members ms rest (by omega)]
    rfl

end Complete

/-- The readers return whatever they have the steps for, by the same induction. -/
theorem parse_complete (n : ℕ) : Complete n := by
  induction n with
  | zero =>
    refine ⟨fun v rest h => ?_, fun _ _ h => absurd h (Nat.not_lt_zero _),
      fun _ _ _ h => absurd h (by omega), fun _ _ h => absurd h (Nat.not_lt_zero _)⟩
    obtain ⟨t, ts, htokens, -⟩ := v.tokens_eq_cons
    rw [htokens] at h
    exact absurd h (Nat.not_succ_le_zero _)
  | succ n ih => exact ⟨ih.value_succ, ih.elements_succ, ih.member_succ, ih.members_succ⟩

/-- A value is read from its own tokens, and from no others. -/
theorem parseTokens_eq_some_iff {ts : List Token} {v : Value} :
    parseTokens ts = some v ↔ ts = v.tokens := by
  constructor
  · intro h
    unfold parseTokens at h
    split at h
    · rename_i v' hv
      obtain rfl := Option.some.inj h
      rw [(parse_sound _).value _ _ _ hv, List.append_nil]
    · cases h
  · rintro rfl
    have hv := (parse_complete _).value v [] (Nat.le_refl _)
    rw [List.append_nil] at hv
    rw [parseTokens, hv]

/-! ## Texts written without escapes

What a writer that escapes nothing gets wrong is the strings and nothing else. -/

/-- A text put together from the tokens of a value is read as this value exactly if
every string in it may stand as it is. -/
theorem parse_text_iff {pieces : List Piece} {v : Value} (hseparate : Separate pieces)
    (htokens : tokensOf pieces = v.tokens) :
    parse (textOf pieces) = some v ↔
      ∀ s, .string s ∈ pieces → isUtf8 s = true ∧ Unescaped s := by
  have hlex := lex_text_iff hseparate _ (Nat.le_refl _)
  have hread : parse (textOf pieces) = some v ↔ isUtf8 (textOf pieces) = true ∧
      lex (textOf pieces).length (textOf pieces) = some (tokensOf pieces) := by
    rw [parse, htokens]
    by_cases hutf : isUtf8 (textOf pieces) = true
    · rw [if_pos hutf, Option.bind_eq_some_iff, and_iff_right hutf]
      constructor
      · rintro ⟨ts, hts, hv⟩
        rw [hts, parseTokens_eq_some_iff.mp hv]
      · exact fun hts => ⟨_, hts, parseTokens_eq_some_iff.mpr rfl⟩
    · rw [if_neg hutf]
      exact ⟨(fun h => nomatch h), fun h => absurd h.1 hutf⟩
  rw [hread, hlex, isUtf8_text_iff]
  exact ⟨fun h s hs => ⟨h.1 s hs, h.2 s hs⟩, fun h => ⟨fun s hs => (h s hs).1, fun s hs => (h s hs).2⟩⟩

end Json

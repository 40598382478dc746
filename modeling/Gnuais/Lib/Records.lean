import Mathlib.Logic.Function.Basic
import Mathlib.Data.List.Induction

/-!
# Records under keys, written field by field

A store keeps one record under each key. An update names a key and changes the
record there; where there is none yet it starts from a fixed first record.

* `replay` — the store after some updates. What it has under a key depends on
  the updates for that key alone (`replay_eq`).
* `lastWrite` — for updates that write some fields of the record and keep the
  others, a field has the value of the last update that wrote it
  (`foldl_lastWrite`).
-/

namespace Records

variable {κ ω ε α : Type*}

/-! ## Stores

A store is a function from keys to records. Updates for other keys do not touch a record,
so they may be left out. -/

section Store

variable [DecidableEq κ] (key : ω → κ) (write : ω → ε → ε) (first : ε)

/-- One update. -/
def update (s : κ → Option ε) (w : ω) : κ → Option ε :=
  Function.update s (key w) (some (write w ((s (key w)).getD first)))

/-- The store after updates to an empty one. -/
def replay (ws : List ω) : κ → Option ε :=
  ws.foldl (update key write first) fun _ => none

/-- One update more. -/
theorem replay_concat (ws : List ω) (w : ω) :
    replay key write first (ws ++ [w]) = update key write first (replay key write first ws) w := by
  rw [replay, List.foldl_append]
  rfl

/-- The records under other keys stay. -/
theorem update_of_ne (s : κ → Option ε) {w : ω} {k : κ} (hk : k ≠ key w) :
    update key write first s w k = s k :=
  Function.update_of_ne hk ..

/-- The record under the key of the update. -/
theorem update_key (s : κ → Option ε) (w : ω) :
    update key write first s w (key w) = some (write w ((s (key w)).getD first)) :=
  Function.update_self ..

/-- The record under a key, from the updates for that key. -/
theorem replay_eq (ws : List ω) (k : κ) :
    replay key write first ws k =
      if ∃ w ∈ ws, key w = k then
        some ((ws.filter fun w => key w = k).foldl (fun e w => write w e) first)
      else none := by
  induction ws using List.reverseRecOn with
  | nil => simp [replay]
  | append_singleton ws w ih =>
    rw [replay_concat, List.filter_append, List.foldl_append]
    by_cases hk : key w = k
    · subst hk
      have hmem : ∃ v ∈ ws ++ [w], key v = key w :=
        ⟨w, List.mem_append_right _ (List.mem_singleton_self w), rfl⟩
      rw [update_key, ih, if_pos hmem]
      by_cases hex : ∃ v ∈ ws, key v = key w
      · simp [hex]
      · have hnil : ws.filter (fun v => key v = key w) = [] := by
          rw [List.filter_eq_nil_iff]
          exact fun v hv heq => hex ⟨v, hv, of_decide_eq_true heq⟩
        rw [if_neg hex, hnil]
        simp
    · rw [update_of_ne key write first _ (Ne.symm hk), ih]
      simp [hk]

end Store

/-! ## Fields

Where updates write whole fields, the order of updates to different fields does not
matter. -/

/-- The value the last of the updates that give one gives, or else `first`. -/
def lastWrite (gives : ω → Option α) (first : α) (ws : List ω) : α :=
  (ws.filterMap gives).getLast?.getD first

/-- One update more. -/
theorem lastWrite_concat (gives : ω → Option α) (first : α) (ws : List ω) (w : ω) :
    lastWrite gives first (ws ++ [w]) = (gives w).getD (lastWrite gives first ws) := by
  cases hw : gives w <;> simp [lastWrite, List.filterMap_append, hw]

/-- Either no update gives the field a value, or one gave the value it has. -/
theorem lastWrite_cases (gives : ω → Option α) (first : α) (ws : List ω) :
    (∀ w ∈ ws, gives w = none) ∧ lastWrite gives first ws = first ∨
      ∃ w ∈ ws, gives w = some (lastWrite gives first ws) := by
  rw [lastWrite]
  cases hlast : (ws.filterMap gives).getLast? with
  | none =>
    rw [List.getLast?_eq_none_iff, List.filterMap_eq_nil_iff] at hlast
    exact .inl ⟨hlast, rfl⟩
  | some v =>
    obtain ⟨w, hw, hv⟩ := List.mem_filterMap.mp (List.mem_of_getLast? hlast)
    exact .inr ⟨w, hw, hv⟩

/-- A field that each update either writes or keeps. -/
theorem foldl_lastWrite {write : ω → ε → ε} {get : ε → α} {gives : ω → Option α}
    (hwrite : ∀ w e, get (write w e) = (gives w).getD (get e)) (first : ε) (ws : List ω) :
    get (ws.foldl (fun e w => write w e) first) = lastWrite gives (get first) ws := by
  induction ws using List.reverseRecOn with
  | nil => rfl
  | append_singleton ws w ih =>
    rw [List.foldl_append, List.foldl_cons, List.foldl_nil, hwrite, lastWrite_concat, ih]

end Records

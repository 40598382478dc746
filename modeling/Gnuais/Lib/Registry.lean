import Mathlib.Data.List.Induction
import Mathlib.Data.List.Nodup

/-!
# A table with room for a fixed number of entries

Entries have keys. One with the key of an entry that is there takes its place, another goes
to the end as long as there is room. What the table holds after any entries have come is
said by them alone: the keys in the order they came first, as many as there is room for,
each with the last entry that had it (`puts_eq`).

* `put`, `puts` — the table.
* `firsts`, `last` — the keys, and the last entry of a key.
-/

namespace Registry

variable {α κ : Type} [DecidableEq κ] (key : α → κ) (cap : ℕ)

/-- An entry comes to the table. -/
def put (a : α) (xs : List α) : List α :=
  if key a ∈ xs.map key then xs.map fun x => if key x = key a then a else x
  else if xs.length < cap then xs ++ [a]
  else xs

/-- The table after some entries. -/
def puts (as : List α) : List α := as.foldl (fun xs a => put key cap a xs) []

/-- The keys, in the order they come first. -/
def firsts (as : List α) : List κ := (as.map key).eraseDups

/-- The last entry with a key. -/
def last (as : List α) (k : κ) : Option α := (as.filter fun a => key a = k).getLast?

/-- One entry more. -/
theorem puts_concat (as : List α) (a : α) : puts key cap (as ++ [a]) = put key cap a (puts key cap as) := by
  rw [puts, List.foldl_append]
  rfl

/-- An entry that comes twice in a row comes once. -/
theorem put_put (a : α) (xs : List α) : put key cap a (put key cap a xs) = put key cap a xs := by
  have hreplace : (xs.map fun x => if key x = key a then a else x).map key = xs.map key := by
    rw [List.map_map]
    refine List.map_congr_left fun x _ => ?_
    rw [Function.comp_apply]
    split
    · exact Eq.symm ‹_›
    · rfl
  by_cases hin : key a ∈ xs.map key
  · rw [put, put, if_pos hin, hreplace, if_pos hin, List.map_map]
    refine List.map_congr_left fun x _ => ?_
    rw [Function.comp_apply]
    by_cases hx : key x = key a
    · rw [if_pos hx, if_pos rfl]
    · rw [if_neg hx, if_neg hx]
  · by_cases hroom : xs.length < cap
    · have hlast : key a ∈ (xs ++ [a]).map key := by simp
      have hkeep : xs.map (fun x => if key x = key a then a else x) = xs := by
        refine (List.map_congr_left fun x hx => if_neg fun heq => hin ?_).trans (List.map_id xs)
        exact heq ▸ List.mem_map_of_mem hx
      rw [put, put, if_neg hin, if_pos hroom, if_pos hlast, List.map_append, hkeep, List.map_singleton,
        if_pos rfl]
    · rw [put, put, if_neg hin, if_neg hroom, if_neg hin, if_neg hroom]

/-- The keys are those of the entries. -/
theorem mem_firsts {as : List α} {k : κ} : k ∈ firsts key as ↔ ∃ a ∈ as, key a = k := by
  rw [firsts, List.mem_eraseDups, List.mem_map]

/-- A key that was there adds none. -/
theorem firsts_concat_of_mem {as : List α} {a : α} (h : key a ∈ firsts key as) :
    firsts key (as ++ [a]) = firsts key as := by
  rw [firsts, List.mem_eraseDups] at h
  rw [firsts, firsts, List.map_append, List.eraseDups_append, List.map_singleton, List.removeAll,
    List.filter_cons_of_neg (by simpa using h)]
  exact List.append_nil _

/-- A new key comes at the end. -/
theorem firsts_concat_of_not_mem {as : List α} {a : α} (h : key a ∉ firsts key as) :
    firsts key (as ++ [a]) = firsts key as ++ [key a] := by
  rw [firsts, List.mem_eraseDups] at h
  rw [firsts, firsts, List.map_append, List.eraseDups_append, List.map_singleton, List.removeAll,
    List.filter_cons_of_pos (by simpa using h)]
  rfl

/-- One entry more. -/
theorem last_concat (as : List α) (a : α) (k : κ) :
    last key (as ++ [a]) k = if key a = k then some a else last key as k := by
  rw [last, List.filter_append]
  split
  · rw [List.filter_cons_of_pos (by simpa), List.filter_nil, List.getLast?_concat]
  · rw [List.filter_cons_of_neg (by simpa), List.filter_nil, List.append_nil, last]

/-- It has the key. -/
theorem key_of_last {as : List α} {k : κ} {a : α} (h : last key as k = some a) : a ∈ as ∧ key a = k := by
  have hmem := List.mem_filter.mp (List.mem_of_getLast? h)
  exact ⟨hmem.1, of_decide_eq_true hmem.2⟩

/-- A key that has come has a last entry. -/
theorem exists_last {as : List α} {k : κ} (h : k ∈ firsts key as) : ∃ a, last key as k = some a := by
  obtain ⟨a, ha, hkey⟩ := (mem_firsts key).mp h
  refine ⟨_, List.getLast?_eq_some_getLast fun hnil => ?_⟩
  exact List.filter_eq_nil_iff.mp hnil a ha (decide_eq_true hkey)

/-- Keys that have come, each with its last entry. -/
def latest (as : List α) (ks : List κ) : List α := ks.filterMap (last key as)

/-- Their keys. -/
theorem map_latest {as : List α} {ks : List κ} (h : ∀ k ∈ ks, k ∈ firsts key as) :
    (latest key as ks).map key = ks := by
  induction ks with
  | nil => rfl
  | cons k ks ih =>
    obtain ⟨hk, hks⟩ := List.forall_mem_cons.mp h
    obtain ⟨a, ha⟩ := exists_last key hk
    rw [latest, List.filterMap_cons_some ha, List.map_cons, (key_of_last key ha).2]
    exact congrArg (k :: ·) (ih hks)

/-- An entry with another key does not matter. -/
theorem latest_concat_of_not_mem {as : List α} {a : α} {ks : List κ} (h : key a ∉ ks) :
    latest key (as ++ [a]) ks = latest key as ks := by
  refine List.filterMap_congr fun k hk => ?_
  rw [last_concat, if_neg]
  rintro rfl
  exact h hk

/-- An entry takes the place of the one with its key. -/
theorem latest_concat_of_mem {as : List α} {a : α} {ks : List κ} (h : ∀ k ∈ ks, k ∈ firsts key as) :
    latest key (as ++ [a]) ks = (latest key as ks).map fun x => if key x = key a then a else x := by
  rw [latest, latest, List.map_filterMap]
  refine List.filterMap_congr fun k hk => ?_
  obtain ⟨x, hx⟩ := exists_last key (h k hk)
  rw [last_concat, hx, Option.map_some, (key_of_last key hx).2]
  by_cases hkey : key a = k
  · rw [if_pos hkey, if_pos hkey.symm]
  · rw [if_neg hkey, if_neg (Ne.symm hkey)]

/-- What the table holds. -/
theorem puts_eq (as : List α) : puts key cap as = latest key as ((firsts key as).take cap) := by
  induction as using List.reverseRecOn with
  | nil => rw [firsts, List.map_nil, List.eraseDups_nil, List.take_nil]; rfl
  | append_singleton as a ih =>
    have hsub : ∀ k ∈ (firsts key as).take cap, k ∈ firsts key as := fun k => List.mem_of_mem_take
    have hkeys := map_latest key hsub
    have hlen : (latest key as ((firsts key as).take cap)).length =
        min cap (firsts key as).length := by
      rw [← List.length_map key, hkeys, List.length_take]
    rw [puts_concat, ih, put, hkeys, hlen]
    by_cases hin : key a ∈ (firsts key as).take cap
    · rw [if_pos hin, firsts_concat_of_mem key (hsub _ hin), latest_concat_of_mem key hsub]
    rw [if_neg hin]
    by_cases hknown : key a ∈ firsts key as
    · -- a key that came when the table was full
      have hfull : cap < (firsts key as).length := by
        by_contra hroom
        rw [List.take_of_length_le (Nat.not_lt.mp hroom)] at hin
        exact hin hknown
      rw [if_neg (by omega), firsts_concat_of_mem key hknown, latest_concat_of_not_mem key hin]
    · rw [firsts_concat_of_not_mem key hknown]
      by_cases hroom : (firsts key as).length < cap
      · have htake : (firsts key as ++ [key a]).take cap = firsts key as ++ [key a] :=
          List.take_of_length_le (by rw [List.length_append, List.length_singleton]; omega)
        have hlast : last key (as ++ [a]) (key a) = some a := by rw [last_concat, if_pos rfl]
        have hsplit : latest key (as ++ [a]) (firsts key as ++ [key a]) =
            latest key (as ++ [a]) (firsts key as) ++ [a] := by
          rw [latest, List.filterMap_append, List.filterMap_cons_some hlast, List.filterMap_nil, latest]
        rw [if_pos (by omega), htake, hsplit, List.take_of_length_le (Nat.le_of_lt hroom),
          latest_concat_of_not_mem key hknown]
      · rw [if_neg (by omega), List.take_append_of_le_length (Nat.not_lt.mp hroom),
          latest_concat_of_not_mem key hin]

/-- The keys of the table. -/
theorem map_puts (as : List α) : (puts key cap as).map key = (firsts key as).take cap := by
  rw [puts_eq, map_latest key fun k => List.mem_of_mem_take]

/-- The entries of the table. -/
theorem mem_puts {as : List α} {a : α} : a ∈ puts key cap as ↔
    key a ∈ (firsts key as).take cap ∧ last key as (key a) = some a := by
  rw [puts_eq, latest, List.mem_filterMap]
  constructor
  · rintro ⟨k, hk, hlast⟩
    rw [(key_of_last key hlast).2]
    exact ⟨hk, hlast⟩
  · exact fun h => ⟨_, h.1, h.2⟩

/-- No key comes twice. -/
theorem nodup_firsts (as : List α) : (firsts key as).Nodup := by
  induction as using List.reverseRecOn with
  | nil => exact List.nodup_nil
  | append_singleton as a ih =>
    by_cases h : key a ∈ firsts key as
    · rwa [firsts_concat_of_mem key h]
    · rw [firsts_concat_of_not_mem key h]
      exact List.nodup_append'.mpr ⟨ih, List.nodup_singleton _, List.disjoint_singleton.mpr h⟩

/-- So none stands twice in the table. -/
theorem nodup_puts (as : List α) : ((puts key cap as).map key).Nodup := by
  rw [map_puts]
  exact (nodup_firsts key as).sublist (List.take_sublist ..)

/-- Entries with other keys do not change the last one of a key. -/
theorem last_append {as bs : List α} {k : κ} (h : ∀ b ∈ bs, key b ≠ k) :
    last key (as ++ bs) k = last key as k := by
  have hnone : bs.filter (fun b => key b = k) = [] :=
    List.filter_eq_nil_iff.mpr fun b hb heq => h b hb (of_decide_eq_true heq)
  rw [last, List.filter_append, hnone, List.append_nil, last]

/-- There are no more keys than entries. -/
theorem length_firsts_le (as : List α) : (firsts key as).length ≤ as.length := by
  induction as using List.reverseRecOn with
  | nil => exact Nat.zero_le _
  | append_singleton as a ih =>
    rw [List.length_append, List.length_singleton]
    by_cases h : key a ∈ firsts key as
    · rw [firsts_concat_of_mem key h]
      omega
    · rw [firsts_concat_of_not_mem key h, List.length_append, List.length_singleton]
      omega

/-- Entries that come later add keys at the end only. -/
theorem firsts_prefix (as bs : List α) : firsts key as <+: firsts key (as ++ bs) := by
  rw [firsts, firsts, List.map_append, List.eraseDups_append]
  exact List.prefix_append ..

/-- There is room for a key that comes with fewer entries before it. -/
theorem mem_take_firsts {as : List α} (hroom : as.length < cap) (a : α) (bs : List α) :
    key a ∈ (firsts key (as ++ a :: bs)).take cap := by
  have hlen := length_firsts_le key (as ++ [a])
  rw [List.length_append, List.length_singleton] at hlen
  have hmem : key a ∈ firsts key (as ++ [a]) :=
    (mem_firsts key).mpr ⟨a, List.mem_append_right _ (List.mem_singleton_self a), rfl⟩
  obtain ⟨rest, hrest⟩ := firsts_prefix key (as ++ [a]) bs
  rw [← List.append_cons] at hrest
  rw [← hrest, List.take_append, List.take_of_length_le (by omega)]
  exact List.mem_append_left _ hmem

end Registry

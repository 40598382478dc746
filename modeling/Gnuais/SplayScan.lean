import Gnuais.SplayUp

/-!
# Searching and walking a tree

The operations that change nothing: the search loop of `sp_lookup`, which finds
the node with a key in a tree that is sorted by key (`lookupLoop_spec`), and the
walk with `sp_fhead` and `sp_fnext`, which visits the nodes in order
(`spScan_spec`).
-/

namespace Gnuais

open LinkTree Context

/-! ## The search

The loop goes left or right by one comparison. A tree sorted by key has the node on the
side where the comparison sends the search, if it has it at all. -/

/-- The nodes in strictly ascending order of their keys. -/
def KeySorted (m : Memory) (xs : List Ptr) : Prop := xs.Pairwise fun p q => m.key p < m.key q

/-- The search gives the node with the key, or none if there is none. -/
theorem lookupLoop_spec {m : Memory} (key : SpKey) {t : NodeTree Ptr} :
    ∀ {ptr : Option Ptr} {turns : ℕ}, Shape m.links ptr t → KeySorted m t.inorder →
      t.inorder.length ≤ turns →
      lookupLoop m key turns ptr = some (t.inorder.find? fun p => key = m.key p) := by
  induction t with
  | leaf =>
    rintro ptr turns rfl - -
    cases turns <;> rfl
  | node l p r ihl ihr =>
    rintro ptr turns ⟨rfl, hl, hr⟩ hsorted hlen
    rw [NodeTree.inorder_node, List.length_append, List.length_cons] at hlen
    obtain ⟨turns, rfl⟩ : ∃ k, turns = k + 1 := ⟨turns - 1, by omega⟩
    rw [KeySorted, NodeTree.inorder_node, List.pairwise_append, List.pairwise_cons] at hsorted
    obtain ⟨hsl, ⟨hpr, hsr⟩, hcross⟩ := hsorted
    have hlp : ∀ q ∈ l.inorder, m.key q < m.key p := fun q hq =>
      hcross q hq p (List.mem_cons_self ..)
    rw [lookupLoop, NodeTree.inorder_node, List.find?_append, List.find?_cons]
    -- the keys to the left are smaller, so the node itself is the first one that fits
    by_cases hkey : key = m.key p
    · have hnone : l.inorder.find? (fun q => key = m.key q) = none := by
        rw [List.find?_eq_none]
        intro q hq
        have := hlp q hq
        grind
      rw [if_pos hkey, hnone, hkey]
      simp
    · rw [if_neg hkey]
      -- the side that is not searched has no key that fits, by the order
      by_cases hlt : key < m.key p
      · have hnone : r.inorder.find? (fun q => key = m.key q) = none := by
          rw [List.find?_eq_none]
          intro q hq
          have := hpr q hq
          grind
        rw [if_pos hlt, ihl hl.1 hsl (by omega), hnone]
        simp [hkey]
      · have hnone : l.inorder.find? (fun q => key = m.key q) = none := by
          rw [List.find?_eq_none]
          intro q hq
          have := hlp q hq
          grind
        rw [if_neg hlt, ihr hr.1 hsr (by omega), hnone]
        simp [hkey]

/-! ## The walk

Both functions are stated over a context: a node has its own subtrees below it and the
rest of the tree around it, and its successor is in one or the other. -/

/-- The leftmost node is the first in order. -/
theorem leftmost_spec {h : Links Ptr} {t : NodeTree Ptr} :
    ∀ {x : Ptr} {turns : ℕ}, Shape h (some x) t → t.inorder.length ≤ turns →
      leftmost h turns x = t.inorder.head? := by
  induction t with
  | leaf => exact fun hs _ => by cases hs
  | node l p r ihl ihr =>
    rintro x turns ⟨hx, hl, hr⟩ hlen
    obtain rfl := Option.some.inj hx
    rw [NodeTree.inorder_node, List.length_append, List.length_cons] at hlen
    obtain ⟨turns, rfl⟩ : ∃ k, turns = k + 1 := ⟨turns - 1, by omega⟩
    rw [leftmost, NodeTree.inorder_node]
    cases hlink : h.link .left x with
    | none =>
      obtain rfl := (hlink ▸ hl.1).eq_leaf
      rfl
    | some y =>
      have hy : Shape h (some y) l := hlink ▸ hl.1
      simp only
      rw [ihl hy (by omega), List.head?_append, Option.or_of_isSome]
      rw [List.isSome_head?, ne_eq]
      exact List.ne_nil_of_mem (hy.mem rfl)

/-- Climbing gives the first node right of the hole. -/
theorem climb_spec {h : Links Ptr} {ctx : Context Ptr} :
    ∀ {n : Ptr} {turns : ℕ}, PointsTo h n ctx → Above h ctx → (n :: nodes ctx).Nodup →
      ctx.length ≤ turns → climb h turns n (parent ctx) = some (after ctx).head? := by
  induction ctx with
  | nil =>
    intro n turns _ _ _ _
    cases turns <;> rfl
  | cons s ctx ih =>
    intro n turns hpoints habove hnodup hlen
    obtain ⟨d, p, o⟩ := s
    obtain ⟨hother, hparent, hpoints', habove'⟩ := habove
    have hlink : h.link d p = some n := hpoints
    rw [List.length_cons] at hlen
    obtain ⟨turns, rfl⟩ : ∃ k, turns = k + 1 := ⟨turns - 1, by omega⟩
    rw [nodes, List.cons_append, List.nodup_cons, List.nodup_cons, List.nodup_append'] at hnodup
    obtain ⟨hn, hp, -, hctx, -⟩ := hnodup
    cases d with
    | left => rw [parent, climb, if_pos hlink, after, List.head?_append, List.head?_cons]; rfl
    | right =>
      have hne : h.link .left p ≠ some n := fun heq =>
        hn (List.mem_cons_of_mem _ (List.mem_append_left _ (hother.mem heq)))
      rw [parent, climb, if_neg hne, hparent, after]
      exact ih hpoints' habove' (List.nodup_cons.mpr
        ⟨fun hmem => hp (List.mem_append_right _ hmem), hctx⟩) (by omega)

/-- `sp_fnext` gives the next node in order. -/
theorem spFnext_spec {m : Memory} {root : Option Ptr} {t : NodeTree Ptr}
    (ht : IsTree m.links root t) (hlen : t.inorder.length ≤ m.brk) {xs ys : List Ptr} {p : Ptr}
    (hsplit : t.inorder = xs ++ p :: ys) : spFnext p m = some ys.head? := by
  have hp : p ∈ t.inorder := by
    rw [hsplit]
    exact List.mem_append_right _ (List.mem_cons_self ..)
  obtain ⟨l, r, ctx, rfl⟩ := exists_plug hp
  obtain ⟨-, hr, hup, hpoints, habove⟩ := shape_plug ht.top ctx .left l p r ht.shape
  have horder := inorder_plug ctx (.node l p r)
  have hlen' := length_le_plug ctx (.node l p r)
  have hnodup : (around ctx (l.inorder ++ p :: r.inorder)).Nodup := horder ▸ ht.nodup
  obtain ⟨hmid, hctx, hdisj⟩ := (nodup_around _ _).mp hnodup
  rw [NodeTree.inorder_node, List.length_append, List.length_cons] at hlen'
  -- what comes after `p` is its right subtree and what is right of the path
  have hys : ys = r.inorder ++ after ctx := by
    have heq : xs ++ p :: ys = (before ctx ++ l.inorder) ++ p :: (r.inorder ++ after ctx) := by
      rw [← hsplit, horder, around, NodeTree.inorder_node]
      simp
    have hxs : p ∉ xs ∧ p ∉ ys := by
      have hall := ht.nodup
      rw [hsplit, List.nodup_middle, List.nodup_cons, List.mem_append, not_or] at hall
      exact hall.1
    exact ((List.append_cons_inj_of_notMem hxs.1 hxs.2).mp heq).2.2
  rw [spFnext, hys]
  cases hlink : m.links.link .right p with
  | none =>
    obtain rfl := (hlink ▸ hr.1 : Shape m.links none r).eq_leaf
    simp only
    rw [hup, climb_spec hpoints habove (List.nodup_cons.mpr ⟨?_, hctx⟩) (by omega)]
    · rfl
    · exact hdisj (List.mem_append_right _ (List.mem_cons_self ..))
  | some x =>
    have hx : Shape m.links (some x) r := hlink ▸ hr.1
    simp only
    rw [leftmost_spec hx (by omega), List.head?_append, Option.or_of_isSome]
    · cases hhead : r.inorder.head? with
      | none => exact absurd (List.head?_eq_none_iff.mp hhead) (List.ne_nil_of_mem (hx.mem rfl))
      | some y => rfl
    · rw [List.isSome_head?, ne_eq]
      exact List.ne_nil_of_mem (hx.mem rfl)

/-- `sp_fhead` gives the first node in order. -/
theorem spFhead_spec {q : Sptree} {m : Memory} {t : NodeTree Ptr} (ht : IsTree m.links q.root t)
    (hlen : t.inorder.length ≤ m.brk) : spFhead q m = some t.inorder.head? := by
  rw [spFhead]
  cases hroot : q.root with
  | none =>
    obtain rfl := (hroot ▸ ht.shape : Shape m.links none t).eq_leaf
    rfl
  | some x =>
    have hx : Shape m.links (some x) t := hroot ▸ ht.shape
    simp only
    rw [leftmost_spec hx hlen]
    cases hfirst : t.inorder.head? with
    | none => exact absurd (List.head?_eq_none_iff.mp hfirst) (List.ne_nil_of_mem (hx.mem rfl))
    | some y => rfl

/-- A scan visits the nodes in order. -/
theorem spScan_spec {q : Sptree} {m : Memory} {t : NodeTree Ptr} (ht : IsTree m.links q.root t)
    (hlen : t.inorder.length ≤ m.brk) : spScan q m = some t.inorder := by
  have hloop : ∀ (ys xs : List Ptr) (turns : ℕ), t.inorder = xs ++ ys → ys.length ≤ turns →
      scanLoop m turns ys.head? = some ys := by
    intro ys
    induction ys with
    | nil =>
      intro xs turns _ _
      cases turns <;> rfl
    | cons y ys ih =>
      intro xs turns hsplit hturns
      rw [List.length_cons] at hturns
      obtain ⟨turns, rfl⟩ : ∃ k, turns = k + 1 := ⟨turns - 1, by omega⟩
      rw [List.head?_cons, scanLoop, spFnext_spec ht hlen hsplit]
      simp only [Option.bind_eq_bind, Option.bind_some]
      rw [ih (xs ++ [y]) turns (by rw [hsplit]; simp) (by omega)]
      rfl
  rw [spScan, spFhead_spec ht hlen]
  exact hloop t.inorder [] m.brk rfl hlen

end Gnuais

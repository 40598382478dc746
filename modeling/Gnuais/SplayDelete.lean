import Gnuais.SplayForest

/-!
# Deleting a node

`sp_delete` splays the node to the root, takes the first node out of the tree
right of it with `_sp_deq` and makes that the root. On its way down the left
branch `_sp_deq` rotates, so the branch gets shorter; the loop keeps the nodes in
order (`deqLoop_spec`). A deletion keeps the order of all other nodes and puts
the block on the free list (`spDelete_forest`).
-/

namespace Gnuais

open LinkTree

/-! ## `_sp_deq` and `sp_delete`

The block that is deleted goes to the head of the free list, which uses the field of its
uplink. -/

/-- `sp_free_blk` -/
def spFreeBlk (n : Ptr) (m : Memory) : Memory :=
  { m with links := m.links.setUp n m.freeList, freeList := some n }

/-- The loop of `_sp_deq`: the node it takes out, and the links. -/
def deqLoop : ℕ → Ptr → Ptr → Links Ptr → Option (Ptr × Links Ptr)
  | 0, _, _, _ => none
  | turns + 1, next, left, h =>
    -- `next` is not it, `left` might be it
    match h.link .left left with
    | none => some (left, h.attach .left next (h.link .right left))
    | some farleft =>
      match h.link .left farleft with
      | none => some (farleft, h.attach .left left (h.link .right farleft))
      | some farfarleft =>
        -- `next`, `left`, `farleft` are not it, rotate
        let h := h.attach .left next (some farleft)
        let h := h.attach .left left (h.link .right farleft)
        let h := h.attach .right farleft (some left)
        deqLoop turns farleft farfarleft h

/-- `_sp_deq`, called with the address of the link of `p` on side `d`. -/
def spDeq (d : Dir) (p : Ptr) (turns : ℕ) (h : Links Ptr) : Option (Option Ptr × Links Ptr) :=
  match h.link d p with
  | none => some (none, h)
  | some next =>
    match h.link .left next with
    | none =>
      let h := h.setLink d p (h.link .right next)
      match h.link d p with
      | none => some (some next, h)
      | some x => some (some next, h.setUp x none)
    | some left => (deqLoop turns next left h).map fun (deq, h) => (some deq, h)

/-- `sp_delete` -/
def spDelete (n : Ptr) (q : Sptree) (m : Memory) : Option (Sptree × Memory) := do
  let (q, m) ← splay n q m
  let root ← q.root
  let (x, h) ← spDeq .right root m.brk m.links
  let (root', h) := match x with
    | none =>
      -- empty right subtree
      match h.link .left root with
      | none => (none, h)
      | some left => (some left, h.setUp left none)
    | some x =>
      -- non-empty right subtree
      let h := h.setUp x none
      let h := h.setLink .left x (h.link .left root)
      let h := h.setLink .right x (h.link .right root)
      let h := match h.link .left x with
        | none => h
        | some left => h.setUp left (some x)
      let h := match h.link .right x with
        | none => h
        | some right => h.setUp right (some x)
      (some x, h)
  return ({ q with root := root', eltscnt := q.eltscnt - 1 }, spFreeBlk n { m with links := h })

/-! ## Taking the first node out

A turn of the loop shortens the left branch by a rotation, and not by walking down it
only. Its three stores are dealt with one after the other, since between them the four
subtrees do not form a tree. -/

/-- The first node is the left child of `p`: its right subtree takes its place. -/
theorem shape_pull {h : Links Ptr} {p x : Ptr} {C D : NodeTree Ptr}
    (hs : Shape h (some p) (.node (.node .leaf x C) p D))
    (hnodup : (NodeTree.node (.node .leaf x C) p D).inorder.Nodup) :
    Shape (h.attach .left p (h.link .right x)) (some p) (.node C p D) ∧
      (h.attach .left p (h.link .right x)).uplink p = h.uplink p ∧
      ∀ q ∉ (NodeTree.node (.node .leaf x C) p D).inorder,
        h.Same (h.attach .left p (h.link .right x)) q := by
  obtain ⟨-, ⟨⟨-, -, hC⟩, -⟩, hD⟩ := hs
  simp only [NodeTree.inorder_node, NodeTree.inorder_leaf, List.nil_append, List.cons_append,
    List.nodup_cons, List.nodup_append', List.mem_append, List.mem_cons, not_or,
    List.disjoint_cons_right] at hnodup
  obtain ⟨-, hCn, ⟨hpD, hDn⟩, hpC, hCD⟩ := hnodup
  have hC' : Child h .right x C := hC
  refine ⟨⟨rfl, hC'.1.attach hCn hpC .left, ?_⟩, ?_, fun q hq => ?_⟩
  · exact Child.attach hD hDn (.inl (by decide)) hpD fun y hy hyD => hCD (hC'.mem hy) hyD
  · rw [Links.attach_uplink, if_neg fun hx => hpC (hC'.mem hx)]
  · simp only [NodeTree.inorder_node, List.mem_append, List.mem_cons, not_or] at hq
    exact Links.same_attach h .left hq.2.1 fun hx => hq.1.2.2 (hC'.mem hx)

/-- The four subtrees of the rotation. `B` is below `b` on the side `e`, which the
second store changes; the others stay where they are. -/
structure Hung (h : Links Ptr) (next left farleft : Ptr) (e : Dir) (b : Ptr)
    (A B C D : NodeTree Ptr) : Prop where
  /-- the nodes in front of `farleft` -/
  outer : Child h .left farleft A
  /-- the nodes between `farleft` and `left` -/
  inner : Child h e b B
  /-- the nodes between `left` and `next` -/
  upper : Child h .right left C
  /-- the nodes behind `next` -/
  rest : Child h .right next D

section

variable {h : Links Ptr} {next left farleft : Ptr} {A B C D : NodeTree Ptr}

/-- First store: `farleft` goes below `next`. -/
theorem Hung.below (hh : Hung h next left farleft .right farleft A B C D)
    (hnodup : (NodeTree.node (.node (.node A farleft B) left C) next D).inorder.Nodup) :
    Hung (h.attach .left next (some farleft)) next left farleft .right farleft A B C D := by
  simp only [NodeTree.inorder_node, List.nodup_cons, List.nodup_append', List.mem_append,
    List.mem_cons, List.disjoint_left] at hnodup
  refine ⟨hh.outer.attach ?_ (.inr ?_) ?_ ?_, hh.inner.attach ?_ (.inl (by decide)) ?_ ?_,
    hh.upper.attach ?_ (.inl (by decide)) ?_ ?_, hh.rest.attach ?_ (.inl (by decide)) ?_ ?_⟩
  all_goals grind

/-- Second store: `left` takes the inner subtree of `farleft`. -/
theorem Hung.move (hh : Hung h next left farleft .right farleft A B C D)
    (hnodup : (NodeTree.node (.node (.node A farleft B) left C) next D).inorder.Nodup) :
    Hung (h.attach .left left (h.link .right farleft)) next left farleft .left left A B C D := by
  simp only [NodeTree.inorder_node, List.nodup_cons, List.nodup_append', List.mem_append,
    List.mem_cons, List.disjoint_left] at hnodup
  have hroot : ∀ x, h.link .right farleft = some x → x ∈ B.inorder := fun x => hh.inner.mem
  refine ⟨hh.outer.attach ?_ (.inr ?_) ?_ ?_, hh.inner.1.attach ?_ ?_ .left,
    hh.upper.attach ?_ (.inl (by decide)) ?_ ?_, hh.rest.attach ?_ (.inl (by decide)) ?_ ?_⟩
  all_goals grind

/-- Third store: `left` goes below `farleft`, and the four subtrees are a tree
again. -/
theorem Hung.shape (hh : Hung h next left farleft .left left A B C D)
    (hlink : h.link .left next = some farleft) (hup : h.uplink farleft = some next)
    (hnodup : (NodeTree.node (.node (.node A farleft B) left C) next D).inorder.Nodup) :
    Shape (h.attach .right farleft (some left)) (some next)
      (.node (.node A farleft (.node B left C)) next D) := by
  simp only [NodeTree.inorder_node, List.nodup_cons, List.nodup_append', List.mem_append,
    List.mem_cons, List.disjoint_left] at hnodup
  have hinner : (NodeTree.node B left C).inorder.Nodup := by
    simp only [NodeTree.inorder_node, List.nodup_cons, List.nodup_append', List.mem_cons,
      List.disjoint_left]
    grind
  have hmem : ∀ q, q ∈ (NodeTree.node B left C).inorder ↔ q = left ∨ q ∈ B.inorder ∨ q ∈ C.inorder :=
    NodeTree.mem_inorder_join .left B left C
  have hnext : (h.attach .right farleft (some left)).link .left next = some farleft := by
    rw [Links.attach_link, if_neg (by simp), hlink]
  have hlower : Shape h (some left) (.node B left C) := ⟨rfl, hh.inner, hh.upper⟩
  refine ⟨rfl, ⟨?_, fun c hc => ?_⟩, ?_⟩
  · rw [hnext]
    refine ⟨rfl, ?_, hlower.attach hinner (by rw [hmem]; grind) .right⟩
    exact hh.outer.attach (by grind) (.inl (by decide)) (by grind) (by grind)
  · rw [hnext] at hc
    rw [← Option.some.inj hc, Links.attach_uplink, if_neg (by grind), hup]
  · exact hh.rest.attach (by grind) (.inr (by grind)) (by grind) (by grind)

/-- The rotation in one turn: its three stores, one after the other. -/
theorem shape_rotate (hs : Shape h (some next) (.node (.node (.node A farleft B) left C) next D))
    (hnodup : (NodeTree.node (.node (.node A farleft B) left C) next D).inorder.Nodup) :
    ∃ h', h' = ((h.attach .left next (some farleft)).attach .left left
        ((h.attach .left next (some farleft)).link .right farleft)).attach .right farleft
        (some left) ∧
      Shape h' (some next) (.node (.node A farleft (.node B left C)) next D) ∧
      h'.link .left farleft = h.link .left farleft ∧ h'.uplink next = h.uplink next ∧
      ∀ q ∉ (NodeTree.node (.node (.node A farleft B) left C) next D).inorder, h.Same h' q := by
  obtain ⟨-, ⟨⟨-, ⟨⟨-, hA, hB⟩, -⟩, hC⟩, -⟩, hD⟩ := hs
  have hung₁ := Hung.below ⟨hA, hB, hC, hD⟩ hnodup
  have hung₂ := hung₁.move hnodup
  have hroot : ∀ x, (h.attach .left next (some farleft)).link .right farleft = some x →
      x ∈ B.inorder := fun x => hung₁.inner.mem
  have hshape := fun hlink hup => hung₂.shape hlink hup hnodup
  simp only [NodeTree.inorder_node, List.nodup_cons, List.nodup_append', List.mem_append,
    List.mem_cons, List.disjoint_left] at hnodup
  -- what each store leaves alone
  have hup₁ : (h.attach .left next (some farleft)).uplink farleft = some next := by simp
  have hlink₁ : (h.attach .left next (some farleft)).link .left next = some farleft := by simp
  have hfar₁ : (h.attach .left next (some farleft)).link .left farleft = h.link .left farleft := by
    rw [Links.attach_link, if_neg (by grind)]
  have hnext₁ : (h.attach .left next (some farleft)).uplink next = h.uplink next := by
    rw [Links.attach_uplink, if_neg (by grind)]
  have hsame₁ : ∀ q, q ≠ next → q ≠ farleft → h.Same (h.attach .left next (some farleft)) q :=
    fun q hq hqf => Links.same_attach h .left hq fun hx => hqf (Option.some.inj hx).symm
  generalize h.attach .left next (some farleft) = h₁ at *
  have hsame₂ : ∀ q, q ≠ left → q ∉ B.inorder →
      h₁.Same (h₁.attach .left left (h₁.link .right farleft)) q := fun q hq hqB =>
    Links.same_attach h₁ .left hq fun hx => hqB (hroot q hx)
  generalize h₁.attach .left left (h₁.link .right farleft) = h₂ at *
  have hsame₃ : ∀ q, q ≠ farleft → q ≠ left → h₂.Same (h₂.attach .right farleft (some left)) q :=
    fun q hq hql => Links.same_attach h₂ .right hq fun hx => hql (Option.some.inj hx).symm
  have hfar₂ := hsame₂ farleft (by grind) (by grind)
  have hnext₂ := hsame₂ next (by grind) (by grind)
  refine ⟨_, rfl, hshape ((hnext₂.1 .left).trans hlink₁) (hfar₂.2.trans hup₁), ?_, ?_,
    fun q hq => ?_⟩
  · rw [Links.attach_link, if_neg (by simp)]
    exact (hfar₂.1 .left).trans hfar₁
  · exact (hsame₃ next (by grind) (by grind)).2.trans (hnext₂.2.trans hnext₁)
  · simp only [NodeTree.inorder_node, List.mem_append, List.mem_cons, not_or] at hq
    exact ((hsame₁ q (by grind) (by grind)).trans (hsame₂ q (by grind) (by grind))).trans
      (hsame₃ q (by grind) (by grind))

end

/-- Another left subtree under the same root of it. -/
theorem shape_replace {h h' : Links Ptr} {p x : Ptr} {L L' D : NodeTree Ptr}
    (hs : Shape h (some p) (.node L p D)) (hx : h.link .left p = some x)
    (hL' : Shape h' (some x) L') (hup : h'.uplink x = h.uplink x)
    (hnodup : (NodeTree.node L p D).inorder.Nodup) (hp : h.Same h' p)
    (hsame : ∀ q ∈ D.inorder, h.Same h' q) : Shape h' (some p) (.node L' p D) := by
  obtain ⟨-, ⟨-, hupx⟩, hD⟩ := hs
  obtain ⟨-, -, -, hDn, -⟩ := (NodeTree.nodup_join .left L p D).mp hnodup
  have hlink : h'.link .left p = some x := (hp.1 .left).trans hx
  refine ⟨rfl, ⟨hlink ▸ hL', fun c hc => ?_⟩, Child.frame hD hDn (hp.1 .right) hsame⟩
  obtain rfl := Option.some.inj (hlink.symm.trans hc)
  exact hup.trans (hupx x hx)

/-- The loop takes the first node out and keeps the others in order. The induction
is on the turns; every turn goes down to a smaller subtree. -/
theorem deqLoop_spec (turns : ℕ) : ∀ {next left : Ptr} {T : NodeTree Ptr} {h : Links Ptr},
    Shape h (some next) T → T.inorder.Nodup → h.link .left next = some left →
    T.inorder.length ≤ turns →
    ∃ deq h' T', deqLoop turns next left h = some (deq, h') ∧ Shape h' (some next) T' ∧
      T.inorder = deq :: T'.inorder ∧ h'.uplink next = h.uplink next ∧
      ∀ q ∉ T.inorder, h.Same h' q := by
  induction turns with
  | zero =>
    intro next left T h hs _ _ hlen
    have hmem := hs.mem rfl
    rw [List.length_eq_zero_iff.mp (Nat.le_zero.mp hlen)] at hmem
    cases hmem
  | succ turns ih =>
    intro next left T h hs hnodup hleft hlen
    obtain ⟨L, D, rfl, hL, -⟩ := hs.exists_join .left
    obtain ⟨L₂, C, rfl, hL₂, -⟩ := (hleft ▸ hL.1).exists_join .left
    simp only [NodeTree.join_left] at hs hnodup hlen ⊢
    obtain ⟨hpL, hpD, hLn, -, hLD⟩ := (NodeTree.nodup_join .left _ next D).mp hnodup
    rw [deqLoop]
    -- the left child has nothing to its left: it is the first, and is pulled up
    cases hfar : h.link .left left with
    | none =>
      obtain rfl := (hfar ▸ hL₂.1).eq_leaf
      obtain ⟨hs', hup, hsame⟩ := shape_pull hs hnodup
      exact ⟨left, _, _, rfl, hs', rfl, hup, hsame⟩
    | some farleft =>
      obtain ⟨A, B, rfl, hA, -⟩ := (hfar ▸ hL₂.1).exists_join .left
      simp only [NodeTree.join_left] at hs hnodup hlen hL hpL hLn hLD ⊢
      have hout : ∀ q ∉ (NodeTree.node (.node (.node A farleft B) left C) next D).inorder,
          q ∉ (NodeTree.node (.node A farleft B) left C).inorder := fun q hq hmem =>
        hq (List.mem_append_left _ hmem)
      -- its left child has nothing to its left: the first one is two steps down
      cases hfarfar : h.link .left farleft with
      | none =>
        obtain rfl := (hfarfar ▸ hA.1).eq_leaf
        obtain ⟨hs', hup, hsame⟩ := shape_pull (hleft ▸ hL.1) hLn
        have hupnext := (hsame next hpL).2
        exact ⟨farleft, _, _, rfl, shape_replace hs hleft hs' hup hnodup (hsame next hpL)
          fun q hq => hsame q fun hmem => hLD hmem hq, rfl, hupnext,
          fun q hq => hsame q (hout q hq)⟩
      | some farfarleft =>
        -- otherwise the loop rotates and goes on in the left child, where the order is
        -- the same
        obtain ⟨h₁, hh₁, hs₁, hlink, hup, hsame⟩ := shape_rotate hs hnodup
        have horder : (NodeTree.node A farleft (.node B left C)).inorder =
            (NodeTree.node (.node A farleft B) left C).inorder := by simp
        have hlink₁ : h₁.link .left next = some farleft := hs₁.2.1.1.1
        obtain ⟨deq, h', T', hloop, hs', hT', hup', hsame'⟩ := ih (hlink₁ ▸ hs₁.2.1.1)
          (horder ▸ hLn) (hlink.trans hfarfar) (by simp at hlen ⊢; omega)
        rw [horder] at hT' hsame'
        have hnodup₁ : (NodeTree.node (.node A farleft (.node B left C)) next D).inorder.Nodup := by
          rw [NodeTree.inorder_node, horder]
          exact hnodup
        refine ⟨deq, h', .node T' next D, ?_, shape_replace hs₁ hlink₁ hs' hup' hnodup₁
          (hsame' next hpL) fun q hq => hsame' q fun hmem => hLD hmem hq, ?_,
          (hsame' next hpL).2.trans hup,
          fun q hq => (hsame q hq).trans (hsame' q (hout q hq))⟩
        · simp only
          rw [← hh₁]
          exact hloop
        · rw [NodeTree.inorder_node, hT']
          rfl

/-- `_sp_deq` takes the first node of the tree right of `n` out of it. -/
theorem spDeq_spec {h : Links Ptr} {n next : Ptr} {R : NodeTree Ptr} {turns : ℕ}
    (hR : Child h .right n R) (hn : n ∉ R.inorder) (hnodup : R.inorder.Nodup)
    (hnext : h.link .right n = some next) (hlen : R.inorder.length ≤ turns) :
    ∃ x h' R', spDeq .right n turns h = some (some x, h') ∧ R.inorder = x :: R'.inorder ∧
      Shape h' (h'.link .right n) R' ∧ h'.link .left n = h.link .left n ∧
      ∀ q ∉ R.inorder, q ≠ n → h.Same h' q := by
  obtain ⟨L, D, rfl, hL, hD⟩ := (hnext ▸ hR.1).exists_join .left
  simp only [NodeTree.join_left] at hR hn hnodup hlen ⊢
  obtain ⟨hpL, hpD, hLn, hDn, hLD⟩ := (NodeTree.nodup_join .left L next D).mp hnodup
  simp only [NodeTree.inorder_node, List.mem_append, List.mem_cons, not_or] at hn
  cases hleft : h.link .left next with
  | none =>
    obtain rfl := (hleft ▸ hL.1).eq_leaf
    have hD : Child h .right next D := hD
    -- the first one hangs at `n` itself; its own right child takes the place
    have hlink : (h.setLink .right n (h.link .right next)).link .right n = h.link .right next :=
      if_pos ⟨rfl, rfl⟩
    have hD₁ : Shape (h.setLink .right n (h.link .right next)) (h.link .right next) D :=
      hD.1.same hDn fun q hq => Links.same_setLink h .right _ fun heq => hn.2.2 (heq ▸ hq)
    cases hright : h.link .right next with
    | none =>
      rw [hright] at hD₁ hlink
      refine ⟨next, h.setLink .right n none, D, ?_, rfl, ?_, by simp, fun q _ hq =>
        Links.same_setLink h .right _ hq⟩
      · simp only [spDeq, hnext, hleft, hright, hlink]
      · rw [hlink]
        exact hD₁
    | some y =>
      rw [hright] at hD₁ hlink
      refine ⟨next, (h.setLink .right n (some y)).setUp y none, D, ?_, rfl, ?_, by simp,
        fun q hq hqn => (Links.same_setLink h .right (some y) hqn).trans ?_⟩
      · simp only [spDeq, hnext, hleft, hright, hlink]
      · rw [Links.setUp_link, hlink]
        exact (isTree_setUp hD₁ hDn).shape
      · refine Links.same_setUp _ _ fun heq => hq ?_
        rw [heq]
        exact List.mem_append_right _ (List.mem_cons_of_mem _ (hD.mem hright))
  | some left =>
    obtain ⟨x, h', R', hloop, hs', horder, -, hsame⟩ :=
      deqLoop_spec turns (hnext ▸ hR.1) hnodup hleft hlen
    have hsn := hsame n (by simpa using hn)
    refine ⟨x, h', R', ?_, horder, ?_, hsn.1 .left, fun q hq _ => hsame q hq⟩
    · simp only [spDeq, hnext, hleft, hloop]
      rfl
    · rw [hsn.1 .right, hnext]
      exact hs'

/-! ## The whole operation

There are two cases after the splay. If nothing stands behind `n`, the tree in front of it
is what is left. Otherwise the first node behind it takes its place and gets both
subtrees. -/

/-- A node splits the order of a tree in one way. -/
theorem split_inj {xs ys xs' ys' : List Ptr} {n : Ptr} (h : xs ++ n :: ys = xs' ++ n :: ys')
    (hnodup : (xs ++ n :: ys).Nodup) : xs = xs' ∧ ys = ys' := by
  rw [List.nodup_middle, List.nodup_cons, List.mem_append, not_or] at hnodup
  obtain ⟨hxs, -, hys⟩ := (List.append_cons_inj_of_notMem hnodup.1.1 hnodup.1.2).mp h
  exact ⟨hxs, hys⟩

/-- The links once `n` heads the free list: a tree without `n` is not changed. -/
theorem isTree_freed {h : Links Ptr} {root : Option Ptr} {t : NodeTree Ptr} {n : Ptr}
    (ht : IsTree h root t) (hn : n ∉ t.inorder) (head : Option Ptr) :
    IsTree (h.setUp n head) root t :=
  ht.same fun _ hp => Links.same_setUp h _ fun heq => hn (heq ▸ hp)

/-- `x` takes the place of the root: it gets both subtrees, and no other node is
changed but their roots. -/
theorem isTree_graft {h : Links Ptr} {x : Ptr} {a b : Option Ptr} {L R : NodeTree Ptr}
    (hL : Shape h a L) (hR : Shape h b R) (hnodup : (L.inorder ++ x :: R.inorder).Nodup) :
    IsTree (((h.setUp x none).attach .left x a).attach .right x b) (some x) (.node L x R) ∧
      ∀ p ∉ L.inorder ++ x :: R.inorder,
        h.Same (((h.setUp x none).attach .left x a).attach .right x b) p := by
  obtain ⟨hxL, hxR, hLn, hRn, -⟩ := (NodeTree.nodup_join .left L x R).mp hnodup
  have htop : ∀ p, p ≠ x → h.Same (h.setUp x none) p := fun p hp => Links.same_setUp h _ hp
  have hL₁ := hL.same hLn fun p hp => htop p fun heq => hxL (heq ▸ hp)
  have hR₁ := hR.same hRn fun p hp => htop p fun heq => hxR (heq ▸ hp)
  refine ⟨⟨shape_root hL₁ hR₁ hnodup, ?_, hnodup⟩, fun p hp => ?_⟩
  · rintro c hc
    obtain rfl := Option.some.inj hc
    rw [Links.attach_uplink, if_neg fun hx => hxR (hR.mem hx), Links.attach_uplink,
      if_neg fun hx => hxL (hL.mem hx)]
    exact if_pos rfl
  · simp only [List.mem_append, List.mem_cons, not_or] at hp
    exact ((htop p hp.2.1).trans
      (Links.same_attach _ .left hp.2.1 fun hx => hp.1 (hL.mem hx))).trans
        (Links.same_attach _ .right hp.2.1 fun hx => hp.2.2 (hR.mem hx))

section

variable {q : Sptree} {m : Memory} {n : Ptr} {h : Links Ptr}

/-- Nothing stands behind `n`: what is in front of it is the tree. -/
theorem spDelete_last {L : NodeTree Ptr}
    (hsplay : splay n q m = some ({ q with root := some n }, { m with links := h }))
    (hL : Child h .left n L) (hnodup : L.inorder.Nodup) (hn : n ∉ L.inorder)
    (hnone : h.link .right n = none) :
    ∃ root h', spDelete n q m = some ({ q with root := root, eltscnt := q.eltscnt - 1 },
        { m with links := h', freeList := some n }) ∧
      IsTree h' root L ∧ h'.uplink n = m.freeList ∧ ∀ p ∉ L.inorder, p ≠ n → h.Same h' p := by
  have hempty : spDeq .right n m.brk h = some (none, h) := by simp only [spDeq, hnone]
  cases hleft : h.link .left n with
  | none =>
    obtain rfl := (hleft ▸ hL.1).eq_leaf
    have ht : IsTree h none .leaf := ⟨rfl, fun _ hc => (nomatch hc), List.nodup_nil⟩
    refine ⟨none, _, ?_, isTree_freed ht hn _, if_pos rfl, fun p _ hpn =>
      Links.same_setUp h m.freeList hpn⟩
    simp only [spDelete, hsplay, hempty, hleft, Option.bind_eq_bind, Option.bind_some]
    rfl
  | some left =>
    have ht : IsTree (h.setUp left none) (some left) L := isTree_setUp (hleft ▸ hL.1) hnodup
    have hne : ∀ p ∉ L.inorder, p ≠ left := fun p hp heq => hp (heq ▸ hL.mem hleft)
    refine ⟨some left, _, ?_, isTree_freed ht hn _, if_pos rfl, fun p hp hpn =>
      (Links.same_setUp h none (hne p hp)).trans (Links.same_setUp _ m.freeList hpn)⟩
    simp only [spDelete, hsplay, hempty, hleft, Option.bind_eq_bind, Option.bind_some]
    rfl

/-- The node behind `n` takes its place. -/
theorem spDelete_next {L R : NodeTree Ptr} {next : Ptr}
    (hsplay : splay n q m = some ({ q with root := some n }, { m with links := h }))
    (hL : Child h .left n L) (hR : Child h .right n R)
    (hnodup : (L.inorder ++ n :: R.inorder).Nodup) (hnext : h.link .right n = some next)
    (hlen : R.inorder.length ≤ m.brk) :
    ∃ root h' t', spDelete n q m = some ({ q with root := root, eltscnt := q.eltscnt - 1 },
        { m with links := h', freeList := some n }) ∧
      IsTree h' root t' ∧ t'.inorder = L.inorder ++ R.inorder ∧ h'.uplink n = m.freeList ∧
      ∀ p ∉ L.inorder ++ R.inorder, p ≠ n → h.Same h' p := by
  obtain ⟨hnL, hnR, hLn, hRn, hLR⟩ := (NodeTree.nodup_join .left L n R).mp hnodup
  obtain ⟨x, h₁, R', hdeq, hRx, hR', hleft, hsame⟩ := spDeq_spec hR hnR hRn hnext hlen
  have hL' : Shape h₁ (h₁.link .left n) L := by
    rw [hleft]
    refine hL.1.same hLn fun p hp => hsame p (fun hpR => hLR hp hpR) ?_
    rintro rfl
    exact hnL hp
  rw [hRx] at hnR hRn hLR
  have hnodup' : (L.inorder ++ x :: R'.inorder).Nodup := List.nodup_append'.mpr ⟨hLn, hRn, hLR⟩
  obtain ⟨htree, hgraft⟩ := isTree_graft hL' hR' hnodup'
  have hnx : n ∉ (NodeTree.node L x R').inorder := by
    rw [NodeTree.inorder_node, List.mem_append, not_or]
    exact ⟨hnL, hnR⟩
  refine ⟨some x, _, _, ?_, isTree_freed htree hnx _, ?_, if_pos rfl, fun p hp hpn => ?_⟩
  · simp only [spDelete, hsplay, hdeq, Option.bind_eq_bind, Option.bind_some,
      Links.setLink_link, Links.setUp_link, reduceCtorEq, false_and, and_self, if_true, if_false]
    -- the four cases of what hangs below `x`
    cases h₁.link .left n <;> cases h₁.link .right n <;>
      simp only [Links.setUp_link, Links.setLink_link, reduceCtorEq, false_and, and_self, if_true,
        if_false] <;> rfl
  · rw [NodeTree.inorder_node, hRx]
  · have hpR : p ∉ R.inorder := fun hmem => hp (List.mem_append_right _ hmem)
    rw [hRx] at hp
    exact ((hsame p hpR hpn).trans (hgraft p hp)).trans (Links.same_setUp _ _ hpn)

/-- `sp_delete` takes `n` out of its tree, keeps the order of the other nodes and
touches no node of another tree. -/
theorem spDelete_spec {t : NodeTree Ptr} {xs ys : List Ptr}
    (ht : IsTree m.links q.root t) (hsplit : t.inorder = xs ++ n :: ys)
    (hlen : t.inorder.length ≤ m.brk) :
    ∃ root h t', spDelete n q m = some ({ q with root := root, eltscnt := q.eltscnt - 1 },
        { m with links := h, freeList := some n }) ∧
      IsTree h root t' ∧ t'.inorder = xs ++ ys ∧ h.uplink n = m.freeList ∧
      ∀ p ∉ t.inorder, m.links.Same h p := by
  have hn : n ∈ t.inorder := hsplit ▸ List.mem_append_right _ (List.mem_cons_self ..)
  obtain ⟨h, t₁, hsplay, ht₁, horder, hsame⟩ := splay_spec ht hn hlen
  obtain ⟨L, R, rfl, hL, hR⟩ := ht₁.shape.exists_join .left
  obtain ⟨rfl, rfl⟩ : L.inorder = xs ∧ R.inorder = ys :=
    split_inj (horder.trans hsplit) ht₁.nodup
  have hR : Child h .right n R := hR
  obtain ⟨hnL, -, hLn, -, -⟩ := (NodeTree.nodup_join .left L n R).mp ht₁.nodup
  have hout : ∀ p ∉ t.inorder, p ∉ L.inorder ++ R.inorder ∧ p ≠ n := by
    intro p hp
    rw [hsplit, List.perm_middle.mem_iff, List.mem_cons, not_or] at hp
    exact hp.symm
  cases hnext : h.link .right n with
  | none =>
    obtain rfl := (hnext ▸ hR.1).eq_leaf
    obtain ⟨root, h', hdelete, ht', hup, hsame'⟩ := spDelete_last hsplay hL hLn hnL hnext
    exact ⟨root, h', L, hdelete, ht', (List.append_nil _).symm, hup, fun p hp => (hsame p hp).trans
      (hsame' p (fun hmem => (hout p hp).1 (List.mem_append_left _ hmem)) (hout p hp).2)⟩
  | some next =>
    have hlenR : R.inorder.length ≤ m.brk := by
      rw [hsplit, List.length_append, List.length_cons] at hlen
      omega
    obtain ⟨root, h', t', hdelete, ht', horder', hup, hsame'⟩ :=
      spDelete_next hsplay hL hR ht₁.nodup hnext hlenR
    exact ⟨root, h', t', hdelete, ht', horder', hup, fun p hp =>
      (hsame p hp).trans (hsame' p (hout p hp).1 (hout p hp).2)⟩

end

/-- A deletion takes one block out of its tree and puts it on the free list. -/
theorem spDelete_forest {m : Memory} {q : Sptree} {t : NodeTree Ptr}
    {rest : List (Sptree × NodeTree Ptr)} {free : List Ptr} {n : Ptr} {xs ys : List Ptr}
    (hf : Forest m ((q, t) :: rest) free) (hsplit : t.inorder = xs ++ n :: ys) :
    ∃ root h t', spDelete n q m = some ({ q with root := root, eltscnt := q.eltscnt - 1 },
        { m with links := h, freeList := some n }) ∧
      Forest { m with links := h, freeList := some n }
        (({ q with root := root, eltscnt := q.eltscnt - 1 }, t') :: rest) (n :: free) ∧
      t'.inorder = xs ++ ys := by
  obtain ⟨ht, hs, hb, hd, hrest⟩ := forest_cons.mp hf
  obtain ⟨root, h, t', hdelete, ht', horder, hup, hsame⟩ :=
    spDelete_spec ht hsplit (hf.length_le (List.mem_cons_self ..))
  have hsub : ∀ p ∈ t'.inorder, p ∈ t.inorder := by
    intro p hp
    rw [horder] at hp
    rw [hsplit]
    exact List.perm_middle.mem_iff.mpr (List.mem_cons_of_mem _ hp)
  have hn : n ∈ t.inorder := hsplit ▸ List.mem_append_right _ (List.mem_cons_self ..)
  -- a block stands in a tree once, so the one that is taken out is gone
  have hnt : n ∉ t'.inorder := by
    have hnodup := ht.nodup
    rw [hsplit, List.nodup_middle, List.nodup_cons, ← horder] at hnodup
    exact hnodup.1
  have hout : ∀ p ∈ treeNodes rest ++ free, p ∉ t.inorder := fun p hp hpt => hd hpt hp
  refine ⟨root, h, t', hdelete, forest_cons.mpr ⟨ht', ?_, fun p hp => hb p (hsub p hp), ?_, ?_⟩,
    horder⟩
  · rw [horder]
    rw [hsplit] at hs
    exact hs.sublist ((List.sublist_cons_self n ys).append_left xs)
  · rw [List.disjoint_left]
    intro p hp hmem
    rcases List.mem_cons.mp (List.perm_middle.mem_iff.mp hmem) with rfl | hmem
    · exact hnt hp
    · exact hd (hsub p hp) hmem
  · refine ⟨fun x hx => (hrest.isTree x hx).same fun p hp => hsame p (hout p ?_), hrest.sorted,
      ⟨rfl, ?_⟩, ?_, fun p hp => ?_⟩
    · exact List.mem_append_left _ (mem_treeNodes hx hp)
    · rw [hup]
      exact hrest.chain.same fun p hp => hsame p (hout p (List.mem_append_right _ hp))
    · rw [List.nodup_middle]
      exact List.nodup_cons.mpr ⟨fun hmem => hd hn hmem, hrest.distinct⟩
    · rcases List.mem_cons.mp (List.perm_middle.mem_iff.mp hp) with rfl | hp
      · exact hb p hn
      · exact hrest.below p hp

end Gnuais

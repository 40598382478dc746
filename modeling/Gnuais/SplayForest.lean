import Gnuais.SplayEnq
import Gnuais.SplayScan
import Mathlib.Data.List.Perm.Subperm

/-!
# The trees of one memory

All trees take their blocks from one free list, so an operation on one tree must
not touch the blocks of another or of the free list. `Forest` says what the
memory holds: the trees, each sorted by key, and the free list, all of different
blocks. Looking a key up (`spLookup_forest`) and installing a new one
(`spInstall_forest`) keep it.
-/

namespace Gnuais

open LinkTree

/-- The free list, linked by the uplinks. -/
def FreeChain (h : Links Ptr) : Option Ptr → List Ptr → Prop
  | ptr, [] => ptr = none
  | ptr, p :: ps => ptr = some p ∧ FreeChain h (h.uplink p) ps

/-- All nodes of some trees. -/
def treeNodes (trees : List (Sptree × NodeTree Ptr)) : List Ptr :=
  trees.flatMap fun x => x.2.inorder

/-- The memory holds these trees and this free list. The trees come with their shapes, so
the nodes of each are known without following links. -/
structure Forest (m : Memory) (trees : List (Sptree × NodeTree Ptr)) (free : List Ptr) : Prop where
  /-- each handle has its tree in memory -/
  isTree : ∀ x ∈ trees, IsTree m.links x.1.root x.2
  /-- in the order of the keys -/
  sorted : ∀ x ∈ trees, KeySorted m x.2.inorder
  /-- the free list, through the uplinks -/
  chain : FreeChain m.links m.freeList free
  /-- no block is in two trees, or in a tree and on the free list -/
  distinct : (treeNodes trees ++ free).Nodup
  /-- no block lies where the allocator will still hand out memory -/
  below : ∀ p ∈ treeNodes trees ++ free, p < m.brk

/-- Stores to other blocks leave the free list alone. -/
theorem FreeChain.same {h h' : Links Ptr} {free : List Ptr} :
    ∀ {ptr : Option Ptr}, FreeChain h ptr free → (∀ p ∈ free, h.Same h' p) →
      FreeChain h' ptr free := by
  induction free with
  | nil => exact fun hc _ => hc
  | cons p ps ih =>
    rintro ptr ⟨rfl, hc⟩ hsame
    refine ⟨rfl, ?_⟩
    rw [(hsame p (List.mem_cons_self ..)).2]
    exact ih hc fun q hq => hsame q (List.mem_cons_of_mem _ hq)

/-- Blocks whose keys are not changed keep their order. -/
theorem KeySorted.same {m m' : Memory} {xs : List Ptr} (hs : KeySorted m xs)
    (hkey : ∀ p ∈ xs, m'.key p = m.key p) : KeySorted m' xs := by
  refine hs.imp_of_mem fun hp hq hlt => ?_
  rw [hkey _ hp, hkey _ hq]
  exact hlt

section Forest

variable {m m' : Memory} {q q' : Sptree} {t t' : NodeTree Ptr} {rest : List (Sptree × NodeTree Ptr)}
  {free free' : List Ptr}

/-- A block is in some tree. -/
theorem mem_treeNodes {x : Sptree × NodeTree Ptr} {trees : List (Sptree × NodeTree Ptr)} (hx : x ∈ trees)
    {p : Ptr} (hp : p ∈ x.2.inorder) : p ∈ treeNodes trees :=
  List.mem_flatMap.mpr ⟨x, hx, hp⟩

/-- A tree has no more nodes than there are addresses. -/
theorem Forest.length_le {trees : List (Sptree × NodeTree Ptr)} (hf : Forest m trees free)
    {x : Sptree × NodeTree Ptr} (hx : x ∈ trees) : x.2.inorder.length ≤ m.brk := by
  have hsub : x.2.inorder ⊆ List.range m.brk := fun p hp =>
    List.mem_range.mpr (hf.below p (List.mem_append_left _ (mem_treeNodes hx hp)))
  have hle := ((hf.isTree x hx).nodup.subperm hsub).length_le
  rwa [List.length_range] at hle

/-- Trees and a free list that nothing was stored to. -/
theorem Forest.same {trees : List (Sptree × NodeTree Ptr)} (hf : Forest m trees free)
    (hsame : ∀ p ∈ treeNodes trees ++ free, m.links.Same m'.links p)
    (hkey : ∀ p ∈ treeNodes trees, m'.key p = m.key p) (hlist : m'.freeList = m.freeList)
    (hbrk : m.brk ≤ m'.brk) : Forest m' trees free where
  isTree x hx := (hf.isTree x hx).same fun p hp =>
    hsame p (List.mem_append_left _ (mem_treeNodes hx hp))
  sorted x hx := (hf.sorted x hx).same fun p hp => hkey p (mem_treeNodes hx hp)
  chain := hlist ▸ hf.chain.same fun p hp => hsame p (List.mem_append_right _ hp)
  distinct := hf.distinct
  below p hp := Nat.lt_of_lt_of_le (hf.below p hp) hbrk

/-- One tree apart from the others. -/
theorem forest_cons : Forest m ((q, t) :: rest) free ↔
    IsTree m.links q.root t ∧ KeySorted m t.inorder ∧ (∀ p ∈ t.inorder, p < m.brk) ∧
      t.inorder.Disjoint (treeNodes rest ++ free) ∧ Forest m rest free := by
  constructor
  · intro hf
    have hd := hf.distinct
    rw [treeNodes, List.flatMap_cons, List.append_assoc, List.nodup_append'] at hd
    refine ⟨hf.isTree _ (List.mem_cons_self ..), hf.sorted _ (List.mem_cons_self ..),
      fun p hp => hf.below p (List.mem_append_left _ (mem_treeNodes (List.mem_cons_self ..) hp)),
      hd.2.2, ⟨fun x hx => hf.isTree x (List.mem_cons_of_mem _ hx),
        fun x hx => hf.sorted x (List.mem_cons_of_mem _ hx), hf.chain, hd.2.1, fun p hp => ?_⟩⟩
    refine hf.below p ?_
    rw [treeNodes, List.flatMap_cons, List.append_assoc]
    exact List.mem_append_right _ hp
  · rintro ⟨ht, hs, hb, hd, hf⟩
    refine ⟨?_, ?_, hf.chain, ?_, ?_⟩
    · rintro x hx
      rcases List.mem_cons.mp hx with rfl | hx
      · exact ht
      · exact hf.isTree x hx
    · rintro x hx
      rcases List.mem_cons.mp hx with rfl | hx
      · exact hs
      · exact hf.sorted x hx
    · rw [treeNodes, List.flatMap_cons, List.append_assoc, List.nodup_append']
      exact ⟨ht.nodup, hf.distinct, hd⟩
    · intro p hp
      rw [treeNodes, List.flatMap_cons, List.append_assoc, List.mem_append] at hp
      exact hp.elim (hb p) (hf.below p)

/-! ## Lookup

The splay of a lookup only touches blocks of its own tree, so every other tree and the
free list are as they were. -/

/-- A lookup finds the block with the key and keeps the order of the tree. -/
theorem spLookup_forest (hf : Forest m ((q, t) :: rest) free) (key : SpKey) :
    ∃ q' h t', spLookup key q m = some (t.inorder.find? fun p => key = m.key p, q',
        { m with links := h }) ∧
      Forest { m with links := h } ((q', t') :: rest) free ∧ t'.inorder = t.inorder := by
  obtain ⟨ht, hs, hb, hd, hrest⟩ := forest_cons.mp hf
  have hlen : t.inorder.length ≤ m.brk := hf.length_le (List.mem_cons_self ..)
  have hfind := lookupLoop_spec key ht.shape hs hlen
  cases hfound : t.inorder.find? fun p => key = m.key p with
  | none =>
    rw [hfound] at hfind
    refine ⟨q, m.links, t, ?_, hf, rfl⟩
    rw [spLookup, hfind]
    rfl
  | some n =>
    rw [hfound] at hfind
    obtain ⟨h, t', hsplay, ht', horder, hsame⟩ :=
      splay_spec ht (List.mem_of_find?_eq_some hfound) hlen
    refine ⟨{ q with root := some n }, h, t', ?_, forest_cons.mpr ⟨ht', ?_, ?_, ?_, ?_⟩, horder⟩
    · rw [spLookup, hfind]
      simp only [Option.bind_eq_bind, Option.bind_some, hsplay]
      rfl
    · exact horder ▸ hs
    · exact horder ▸ hb
    · exact horder ▸ hd
    · exact hrest.same (fun p hp => hsame p fun hpt => hd hpt hp) (fun _ _ => rfl) rfl
        (Nat.le_refl _)

/-! ## Allocation

An allocation changes the free list and the uplinks of its blocks. That it is in no tree
is all that the callers need of the block they get. -/

/-- What allocation leaves alone. -/
structure Grown (m m' : Memory) : Prop where
  /-- memory is only added -/
  brk : m.brk ≤ m'.brk
  /-- no key is written -/
  key : m'.key = m.key
  /-- and no data -/
  data : m'.data = m.data
  /-- the links of the blocks handed out before are the same, and so are all trees -/
  same : ∀ p, p < m.brk → m.links.Same m'.links p

/-- New blocks join the free list. -/
theorem refill_forest {trees : List (Sptree × NodeTree Ptr)} (n : ℕ) :
    ∀ {m : Memory} {free : List Ptr}, Forest m trees free →
      ∃ fresh, fresh.length = n ∧ Forest (refill n m) trees (fresh ++ free) ∧
        Grown m (refill n m) := by
  induction n with
  | zero =>
    exact fun {m free} hf => ⟨[], rfl, hf, ⟨Nat.le_refl _, rfl, rfl, fun _ _ => ⟨fun _ => rfl, rfl⟩⟩⟩
  | succ n ih =>
    intro m free hf
    have hsame : ∀ p, p < m.brk → m.links.Same (m.links.setUp m.brk m.freeList) p := fun p hp =>
      Links.same_setUp _ _ (Nat.ne_of_lt hp)
    have hbrk : m.brk ∉ treeNodes trees ++ free := fun hmem => Nat.lt_irrefl _ (hf.below _ hmem)
    have hstep : Forest { m with
        brk := m.brk + 1
        links := m.links.setUp m.brk m.freeList
        freeList := some m.brk } trees (m.brk :: free) := by
      refine ⟨fun x hx => (hf.isTree x hx).same fun p hp => hsame p
          (hf.below p (List.mem_append_left _ (mem_treeNodes hx hp))), hf.sorted, ⟨rfl, ?_⟩, ?_, ?_⟩
      · rw [Links.setUp_uplink, if_pos rfl]
        exact hf.chain.same fun p hp => hsame p (hf.below p (List.mem_append_right _ hp))
      · rw [List.nodup_middle]
        exact List.nodup_cons.mpr ⟨hbrk, hf.distinct⟩
      · intro p hp
        rcases List.mem_cons.mp (List.perm_middle.mem_iff.mp hp) with rfl | hp
        · exact Nat.lt_succ_self _
        · exact Nat.lt_succ_of_lt (hf.below p hp)
    obtain ⟨fresh, hlen, hfresh, hgrown⟩ := ih hstep
    refine ⟨fresh ++ [m.brk], by rw [List.length_append, hlen]; rfl, ?_, ?_⟩
    · rw [List.append_assoc]
      exact hfresh
    · exact ⟨Nat.le_trans (Nat.le_succ _) hgrown.brk, hgrown.key, hgrown.data, fun p hp =>
        (hsame p hp).trans (hgrown.same p (Nat.lt_succ_of_lt hp))⟩

/-- Taking the first block off the free list. -/
theorem pop_forest {trees : List (Sptree × NodeTree Ptr)} {p : Ptr} {ps : List Ptr}
    (hf : Forest m trees (p :: ps)) :
    m.freeList = some p ∧ Forest { m with freeList := m.links.uplink p } trees ps ∧
      p ∉ treeNodes trees ++ ps ∧ p < m.brk := by
  have hdistinct := hf.distinct
  rw [List.nodup_middle, List.nodup_cons] at hdistinct
  have hsub : ∀ x ∈ treeNodes trees ++ ps, x ∈ treeNodes trees ++ p :: ps := fun x hx =>
    List.perm_middle.mem_iff.mpr (List.mem_cons_of_mem _ hx)
  exact ⟨hf.chain.1, ⟨hf.isTree, hf.sorted, hf.chain.2, hdistinct.2, fun x hx =>
    hf.below x (hsub x hx)⟩, hdistinct.1,
    hf.below p (List.mem_append_right _ (List.mem_cons_self ..))⟩

/-- A block from the free list is in no tree. -/
theorem spAllocBlk_forest {trees : List (Sptree × NodeTree Ptr)} (hf : Forest m trees free) :
    ∃ n m' free', spAllocBlk m = some (n, m') ∧ Forest m' trees free' ∧
      n ∉ treeNodes trees ++ free' ∧ n < m'.brk ∧ Grown m m' := by
  by_cases hlist : m.freeList = none
  · obtain ⟨fresh, hlen, hfresh, hgrown⟩ := refill_forest spAllocN hf
    have halloc : spAllocBlk m = do
        let p ← (refill spAllocN m).freeList
        return (p, { refill spAllocN m with freeList := (refill spAllocN m).links.uplink p }) := by
      rw [spAllocBlk, if_pos hlist]
    generalize refill spAllocN m = m₁ at *
    cases fresh with
    | nil => cases hlen
    | cons n fresh =>
      obtain ⟨hhead, hforest, hn, hbrk⟩ := pop_forest hfresh
      refine ⟨n, _, _, ?_, hforest, hn, hbrk, hgrown.brk, hgrown.key, hgrown.data, hgrown.same⟩
      rw [halloc, hhead]
      rfl
  · cases free with
    | nil => exact absurd hf.chain hlist
    | cons n free =>
      obtain ⟨hhead, hforest, hn, hbrk⟩ := pop_forest hf
      refine ⟨n, _, _, ?_, hforest, hn, hbrk, Nat.le_refl _, rfl, rfl,
        fun _ _ => ⟨fun _ => rfl, rfl⟩⟩
      rw [spAllocBlk, if_neg hlist, hhead]
      rfl

/-! ## Install

An install is a lookup that finds nothing, an allocation and `_sp_enq`, in this order.
Each has its own lemma above; what is added is that the tree stays sorted. -/

/-- A node between the smaller and the larger keys keeps the order. -/
theorem keySorted_insert {n : Ptr} {xs ys : List Ptr} (hs : KeySorted m (xs ++ ys))
    (hlow : ∀ p ∈ xs.getLast?, m.key p < m.key n) (hhigh : ∀ p ∈ ys.head?, m.key n < m.key p) :
    KeySorted m (xs ++ n :: ys) := by
  rw [KeySorted, List.pairwise_append] at hs
  obtain ⟨hxs, hys, hcross⟩ := hs
  have hx : ∀ p ∈ xs, m.key p < m.key n := by
    rcases List.eq_nil_or_concat xs with rfl | ⟨xs, x, rfl⟩
    · exact fun p hp => absurd hp List.not_mem_nil
    · rw [List.concat_eq_append] at hxs hlow ⊢
      rw [List.pairwise_append] at hxs
      have hlast := hlow x (by simp)
      intro p hp
      rcases List.mem_append.mp hp with hp | hp
      · exact UInt32.lt_trans (hxs.2.2 p hp x (List.mem_singleton_self x)) hlast
      · rwa [List.mem_singleton.mp hp]
  have hy : ∀ p ∈ ys, m.key n < m.key p := by
    cases ys with
    | nil => exact fun p hp => absurd hp List.not_mem_nil
    | cons y ys =>
      have hfirst := hhigh y rfl
      intro p hp
      rcases List.mem_cons.mp hp with rfl | hp
      · exact hfirst
      · exact UInt32.lt_trans hfirst ((List.pairwise_cons.mp hys).1 p hp)
  refine List.pairwise_append.mpr ⟨hxs, List.pairwise_cons.mpr ⟨hy, hys⟩, fun p hp r hr => ?_⟩
  rcases List.mem_cons.mp hr with rfl | hr
  · exact hx p hp
  · exact hcross p hp r hr

/-- A lookup of a key that no block has changes nothing. -/
theorem spLookup_none (hf : Forest m ((q, t) :: rest) free) {key : SpKey}
    (hnew : ∀ p ∈ t.inorder, m.key p ≠ key) : spLookup key q m = some (none, q, m) := by
  have hnone : t.inorder.find? (fun p => key = m.key p) = none := by
    rw [List.find?_eq_none]
    intro p hp
    simpa using Ne.symm (hnew p hp)
  have hfind := lookupLoop_spec key (hf.isTree _ (List.mem_cons_self ..)).shape
    (hf.sorted _ (List.mem_cons_self ..)) (hf.length_le (List.mem_cons_self ..))
  rw [hnone] at hfind
  rw [spLookup, hfind]
  rfl

/-- The memory once `sp_install` has filled the block `n`. Its links are set later on, by
`_sp_enq`. -/
def Memory.fillBlk (m : Memory) (n : Ptr) (key : SpKey) : Memory :=
  { m with
    links := ((m.links.setLink .left n none).setLink .right n none).setUp n none
    key := fun p => if p = n then key else m.key p }

/-- A block that is neither in a tree nor on the free list is filled without a
change to the trees and to the list. -/
theorem fillBlk_forest {trees : List (Sptree × NodeTree Ptr)} (hf : Forest m trees free) {n : Ptr}
    (hn : n ∉ treeNodes trees ++ free) (key : SpKey) :
    Forest (m.fillBlk n key) trees free := by
  have hne : ∀ p ∈ treeNodes trees ++ free, p ≠ n := fun p hp heq => hn (heq ▸ hp)
  refine hf.same (fun p hp => ?_) (fun p hp => if_neg (hne p (List.mem_append_left _ hp))) rfl
    (Nat.le_refl _)
  exact ((Links.same_setLink _ .left _ (hne p hp)).trans
    (Links.same_setLink _ .right _ (hne p hp))).trans (Links.same_setUp _ _ (hne p hp))

/-- `_sp_enq` puts a filled block with a key of its own into the first tree, where
its key belongs. -/
theorem spEnq_forest (hf : Forest m ((q, t) :: rest) free) {n : Ptr}
    (hn : n ∉ treeNodes ((q, t) :: rest) ++ free) (hbrk : n < m.brk)
    (hnew : ∀ p ∈ t.inorder, m.key p ≠ m.key n) :
    ∃ h L R, spEnq n q m = some ({ q with root := some n }, { m with links := h }) ∧
      Forest { m with links := h } (({ q with root := some n }, .node L n R) :: rest) free ∧
      L.inorder ++ R.inorder = t.inorder := by
  obtain ⟨ht, hs, hb, hd, hrest⟩ := forest_cons.mp hf
  rw [treeNodes, List.flatMap_cons, List.append_assoc, List.mem_append, not_or] at hn
  obtain ⟨hnt, hnrest⟩ := hn
  obtain ⟨h, L, R, henq, ht', horder, hlow, hhigh, hsame⟩ :=
    spEnq_spec q ht hnt (hf.length_le (List.mem_cons_self ..))
  refine ⟨h, L, R, henq, forest_cons.mpr ⟨ht', ?_, ?_, ?_, ?_⟩, horder⟩
  · refine keySorted_insert (horder.symm ▸ hs) hlow fun p hp => ?_
    have hpt : p ∈ t.inorder := by
      rw [← horder]
      exact List.mem_append_right _ (List.mem_of_mem_head? hp)
    exact UInt32.lt_of_le_of_ne (UInt32.not_lt.mp (hhigh p hp)) (Ne.symm (hnew p hpt))
  · intro p hp
    rcases List.mem_cons.mp (List.perm_middle.mem_iff.mp hp) with rfl | hp
    · exact hbrk
    · exact hb p (horder ▸ hp)
  · rw [List.disjoint_left]
    intro p hp
    rcases List.mem_cons.mp (List.perm_middle.mem_iff.mp hp) with rfl | hp
    · exact hnrest
    · exact hd (horder ▸ hp)
  · refine hrest.same (fun p hp => hsame p fun hmem => ?_) (fun _ _ => rfl) rfl (Nat.le_refl _)
    rcases List.mem_cons.mp hmem with rfl | hmem
    · exact hnrest hp
    · exact hd hmem hp

/-- Installing a key that is not there puts a block of its own into the tree,
in the order of the keys, and changes nothing else. -/
theorem spInstall_forest (hf : Forest m ((q, t) :: rest) free) {key : SpKey}
    (hnew : ∀ p ∈ t.inorder, m.key p ≠ key) :
    ∃ n q' m' t' free' xs ys, spInstall key q m = some (n, q', m') ∧
      Forest m' ((q', t') :: rest) free' ∧ n ∉ treeNodes ((q, t) :: rest) ∧
      t.inorder = xs ++ ys ∧ t'.inorder = xs ++ n :: ys ∧ m.brk ≤ m'.brk ∧
      m'.key = (fun p => if p = n then key else m.key p) ∧ m'.data = m.data := by
  obtain ⟨n, m₁, free', halloc, hf₁, hn, hbrk, hgrown⟩ := spAllocBlk_forest hf
  have hnt : n ∉ treeNodes ((q, t) :: rest) := fun hmem => hn (List.mem_append_left _ hmem)
  have hf₂ := fillBlk_forest hf₁ hn key
  -- the other blocks have the keys they had, the new one has the key to install
  have hkeyn : (m₁.fillBlk n key).key n = key := if_pos rfl
  have hnew₂ : ∀ p ∈ t.inorder, (m₁.fillBlk n key).key p ≠ (m₁.fillBlk n key).key n := by
    intro p hp
    have hpn : p ≠ n := fun heq => hnt (mem_treeNodes (List.mem_cons_self ..) (heq ▸ hp))
    rw [hkeyn, show (m₁.fillBlk n key).key p = m₁.key p from if_neg hpn, hgrown.key]
    exact hnew p hp
  have hparts := forest_cons.mp hf₂
  have hf₃ : Forest (m₁.fillBlk n key) (({ q with eltscnt := q.eltscnt + 1 }, t) :: rest) free' :=
    forest_cons.mpr hparts
  obtain ⟨h, L, R, henq, hforest, horder⟩ := spEnq_forest hf₃ hn hbrk hnew₂
  refine ⟨n, ⟨some n, q.eltscnt + 1⟩, { m₁.fillBlk n key with links := h }, .node L n R, free',
    L.inorder, R.inorder, ?_, hforest, hnt, horder.symm, rfl, hgrown.brk, ?_, hgrown.data⟩
  · rw [spInstall, spLookup_none hf hnew]
    simp only [Option.bind_eq_bind, Option.bind_some]
    rw [halloc, Option.bind_some]
    change (spEnq n { q with eltscnt := q.eltscnt + 1 } (m₁.fillBlk n key)).bind _ = _
    rw [henq]
    rfl
  · change (m₁.fillBlk n key).key = _
    rw [Memory.fillBlk, hgrown.key]

end Forest

end Gnuais

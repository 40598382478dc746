import Gnuais.SplayDelete
import Gnuais.Lib.Footprint

/-!
# What the tree operations touch

A walk step and a deletion on a tree follow links from its nodes, and no link
leads out of a tree (`IsTree.closed`). So they neither read nor change a block of
another tree or of the free list: whatever is written there, the step finds the
same block (`spFnext_overwrite`), and the deletion does the same and leaves it
there (`spDelete_overwrite`).
-/

namespace Gnuais

open LinkTree Links

/-- No link leads out of a tree, since its root has nothing above it. -/
theorem IsTree.closed {h : Links Ptr} {root : Option Ptr} {t : NodeTree Ptr}
    (ht : IsTree h root t) : h.Closed t.inorder :=
  ht.shape.closed ht.top

section

variable {h h' junk : Links Ptr} {ps xs : List Ptr}

/-- A missing link leads nowhere else. -/
theorem mem_of_none_eq (x : Ptr) (hx : none = some x) : x ∈ xs :=
  absurd hx.symm (Option.some_ne_none x)

/-! ## The walk

The walk only reads, so it is enough that the blocks it reads are not among the
overwritten ones. -/

/-- The way down to the first node stays in the tree. -/
theorem leftmost_overwrite (hh : h.Closed xs) (hd : xs.Disjoint ps) (turns : ℕ) :
    ∀ {x : Ptr}, x ∈ xs → leftmost (h.overwrite ps junk) turns x = leftmost h turns x := by
  induction turns with
  | zero => exact fun _ => rfl
  | succ turns ih =>
    intro x hx
    rw [leftmost, leftmost, overwrite_link (hd hx)]
    cases hlink : h.link .left x with
    | none => rfl
    | some y => exact ih (hh.link x hx .left y hlink)

/-- So does the way up. -/
theorem climb_overwrite (hh : h.Closed xs) (hd : xs.Disjoint ps) (turns : ℕ) :
    ∀ {n : Ptr} {x : Option Ptr}, (∀ y, x = some y → y ∈ xs) →
      climb (h.overwrite ps junk) turns n x = climb h turns n x := by
  induction turns with
  | zero => exact fun {n x} _ => by cases x <;> rfl
  | succ turns ih =>
    intro n x hx
    cases x with
    | none => rfl
    | some x =>
      have hmem := hx x rfl
      rw [climb, climb, overwrite_link (hd hmem), overwrite_uplink (hd hmem),
        ih fun y hy => hh.uplink x hmem y hy]

/-! ## `_splay`

The splay reads the links of the path and writes to its nodes. Every lemma here is the
same argument: the function is run on the overwritten links, and each read and store is
moved past the overwriting. -/

/-- The rotation in one turn. -/
theorem rotateUp_overwrite (hh : h.Closed xs) (hd : xs.Disjoint ps) (d : Dir) {up : Ptr}
    (hup : up ∈ xs) (root : Option Ptr) :
    ∃ h' root' u, rotateUp d up h root = (h', root', u) ∧
      rotateUp d up (h.overwrite ps junk) root = (h'.overwrite ps junk, root', u) ∧
      h'.Closed xs ∧ ∀ x, u = some x → x ∈ xs := by
  rw [rotateUp, rotateUp, overwrite_uplink (hd hup)]
  cases hu : h.uplink up with
  | none => exact ⟨h, root, none, rfl, rfl, hh, mem_of_none_eq⟩
  | some upup =>
    have hupup : upup ∈ xs := hh.uplink up hup upup hu
    simp only [overwrite_link (hd hupup)]
    -- every block that is read or written is linked from the path, so it lies in `xs`;
    -- what lies in `ps` makes no difference to the tests
    by_cases hlink : h.link d upup = some up
    · simp only [if_pos hlink, overwrite_uplink (hd hupup), overwrite_link (hd hup)]
      have hchild : ∀ x, h.link d.flip up = some x → x ∈ xs := hh.link up hup d.flip
      have hpar : ∀ x, some upup = some x → x ∈ xs := fun x hx => Option.some.inj hx ▸ hupup
      rw [attach_overwrite (hd hupup) fun x hx => hd (hchild x hx),
        attach_overwrite (hd hup) fun x hx => hd (hpar x hx)]
      have hclosed := (hh.attach (d := d) hupup hchild).attach (d := d.flip) hup hpar
      generalize (h.attach d upup (h.link d.flip up)).attach d.flip up (some upup) = h₂ at *
      cases hg : h.uplink upup with
      | none =>
        simp only [setUp_overwrite (hd hup)]
        exact ⟨_, _, _, rfl, rfl, hclosed.setUp mem_of_none_eq, mem_of_none_eq⟩
      | some g =>
        have hgs : g ∈ xs := hh.uplink upup hupup g hg
        have hself : ∀ x, some up = some x → x ∈ xs := fun x hx => Option.some.inj hx ▸ hup
        have hgu : ∀ x, some g = some x → x ∈ xs := fun x hx => Option.some.inj hx ▸ hgs
        simp only [overwrite_link (hd hgs)]
        by_cases hside : h₂.link d g = some upup
        · simp only [if_pos hside, setLink_overwrite (hd hgs), setUp_overwrite (hd hup)]
          exact ⟨_, _, _, rfl, rfl, (hclosed.setLink hself).setUp hgu, hgu⟩
        · simp only [if_neg hside, setLink_overwrite (hd hgs), setUp_overwrite (hd hup)]
          exact ⟨_, _, _, rfl, rfl, (hclosed.setLink hself).setUp hgu, hgu⟩
    · simp only [if_neg hlink]
      exact ⟨h, root, some upup, rfl, rfl, hh, fun x hx => Option.some.inj hx ▸ hupup⟩

/-- The loop. The induction is on the turns. -/
theorem splayLoop_overwrite (junk : Links Ptr) (hd : xs.Disjoint ps) (turns : ℕ) : ∀ {h h' : Links Ptr}
    {root left right up root' left' right' : Option Ptr} {prev : Ptr}, h.Closed xs →
    (∀ x, left = some x → x ∈ xs) → (∀ x, right = some x → x ∈ xs) →
    (∀ x, up = some x → x ∈ xs) →
    splayLoop turns h root left right prev up = some (h', root', left', right') →
    splayLoop turns (h.overwrite ps junk) root left right prev up =
        some (h'.overwrite ps junk, root', left', right') ∧
      h'.Closed xs ∧ (∀ x, left' = some x → x ∈ xs) ∧ ∀ x, right' = some x → x ∈ xs := by
  induction turns with
  | zero =>
    intro h h' root left right up root' left' right' prev hh hl hr _ hloop
    cases up with
    | none =>
      obtain ⟨rfl, rfl, rfl, rfl⟩ : h = h' ∧ root = root' ∧ left = left' ∧ right = right' := by
        simpa [splayLoop] using hloop
      exact ⟨rfl, hh, hl, hr⟩
    | some up => cases hloop
  | succ turns ih =>
    intro h h' root left right up root' left' right' prev hh hl hr hu hloop
    cases up with
    | none =>
      obtain ⟨rfl, rfl, rfl, rfl⟩ : h = h' ∧ root = root' ∧ left = left' ∧ right = right' := by
        simpa [splayLoop] using hloop
      exact ⟨rfl, hh, hl, hr⟩
    | some up =>
      have hup := hu up rfl
      have hself : ∀ x, some up = some x → x ∈ xs := fun x hx => Option.some.inj hx ▸ hup
      rw [splayLoop] at hloop ⊢
      rw [overwrite_link (hd hup)]
      by_cases hside : h.link .left up = some prev
      · rw [if_pos hside] at hloop ⊢
        obtain ⟨h₁, root₁, u, hrot, hrot', hh₁, hu₁⟩ := rotateUp_overwrite hh hd .left hup root
        rw [hrot] at hloop
        rw [hrot']
        simp only at hloop ⊢
        rw [attach_overwrite (hd hup) fun x hx => hd (hr x hx)]
        exact ih (hh₁.attach hup hr) hl hself hu₁ hloop
      · rw [if_neg hside] at hloop ⊢
        obtain ⟨h₁, root₁, u, hrot, hrot', hh₁, hu₁⟩ := rotateUp_overwrite hh hd .right hup root
        rw [hrot] at hloop
        rw [hrot']
        simp only at hloop ⊢
        rw [attach_overwrite (hd hup) fun x hx => hd (hl x hx)]
        exact ih (hh₁.attach hup hl) hself hr hu₁ hloop

/-! ## `_sp_deq`

The same for the loop that goes down the left branch. -/

/-- The loop. The induction is on the turns. -/
theorem deqLoop_overwrite (junk : Links Ptr) (hd : xs.Disjoint ps) (turns : ℕ) : ∀ {h h' : Links Ptr}
    {next left deq : Ptr}, h.Closed xs → next ∈ xs → left ∈ xs →
    deqLoop turns next left h = some (deq, h') →
    deqLoop turns next left (h.overwrite ps junk) = some (deq, h'.overwrite ps junk) ∧
      h'.Closed xs ∧ deq ∈ xs := by
  induction turns with
  | zero => exact fun _ _ _ hloop => nomatch hloop
  | succ turns ih =>
    intro h h' next left deq hh hnext hleft hloop
    rw [deqLoop] at hloop ⊢
    rw [overwrite_link (hd hleft)]
    cases hfar : h.link .left left with
    | none =>
      rw [hfar] at hloop
      obtain ⟨rfl, rfl⟩ := Prod.mk.inj (Option.some.inj hloop)
      have hright := hh.link left hleft .right
      simp only [overwrite_link (hd hleft)]
      rw [attach_overwrite (hd hnext) fun x hx => hd (hright x hx)]
      exact ⟨rfl, hh.attach hnext hright, hleft⟩
    | some farleft =>
      have hfarleft := hh.link left hleft .left farleft hfar
      rw [hfar] at hloop
      simp only [overwrite_link (hd hfarleft)] at hloop ⊢
      cases hfarfar : h.link .left farleft with
      | none =>
        rw [hfarfar] at hloop
        obtain ⟨rfl, rfl⟩ := Prod.mk.inj (Option.some.inj hloop)
        have hright := hh.link farleft hfarleft .right
        simp only
        rw [attach_overwrite (hd hleft) fun x hx => hd (hright x hx)]
        exact ⟨rfl, hh.attach hleft hright, hfarleft⟩
      | some farfarleft =>
        have hfarfarleft := hh.link farleft hfarleft .left farfarleft hfarfar
        have hf : ∀ x, some farleft = some x → x ∈ xs := fun x hx => Option.some.inj hx ▸ hfarleft
        have hl : ∀ x, some left = some x → x ∈ xs := fun x hx => Option.some.inj hx ▸ hleft
        rw [hfarfar] at hloop
        simp only at hloop ⊢
        -- each link that is stored leads to a block in `xs` again
        have hh₁ := hh.attach (d := .left) hnext hf
        have hright := hh₁.link farleft hfarleft .right
        rw [attach_overwrite (hd hnext) fun x hx => hd (hf x hx), overwrite_link (hd hfarleft),
          attach_overwrite (hd hleft) fun x hx => hd (hright x hx),
          attach_overwrite (hd hfarleft) fun x hx => hd (hl x hx)]
        exact ih ((hh₁.attach hleft hright).attach hfarleft hl) hfarleft hfarfarleft hloop

/-- `_sp_deq`, from the link of a node of the tree. -/
theorem spDeq_overwrite (junk : Links Ptr) (hh : h.Closed xs) (hd : xs.Disjoint ps) {d : Dir} {p : Ptr} (hp : p ∈ xs)
    {turns : ℕ} {x : Option Ptr} (hdeq : spDeq d p turns h = some (x, h')) :
    spDeq d p turns (h.overwrite ps junk) = some (x, h'.overwrite ps junk) ∧ h'.Closed xs ∧
      ∀ y, x = some y → y ∈ xs := by
  rw [spDeq] at hdeq ⊢
  rw [overwrite_link (hd hp)]
  cases hnext : h.link d p with
  | none =>
    rw [hnext] at hdeq
    obtain ⟨rfl, rfl⟩ := Prod.mk.inj (Option.some.inj hdeq)
    exact ⟨rfl, hh, mem_of_none_eq⟩
  | some next =>
    have hmem := hh.link p hp d next hnext
    have hself : ∀ y, some next = some y → y ∈ xs := fun y hy => Option.some.inj hy ▸ hmem
    rw [hnext] at hdeq
    simp only [overwrite_link (hd hmem)] at hdeq ⊢
    cases hleft : h.link .left next with
    | none =>
      rw [hleft] at hdeq
      have hright := hh.link next hmem .right
      have hh₁ := hh.setLink (d := d) (p := p) hright
      simp only [setLink_overwrite (hd hp), overwrite_link (hd hp)] at hdeq ⊢
      generalize h.setLink d p (h.link .right next) = h₁ at *
      cases htop : h₁.link d p with
      | none =>
        rw [htop] at hdeq
        obtain ⟨rfl, rfl⟩ := Prod.mk.inj (Option.some.inj hdeq)
        exact ⟨rfl, hh₁, hself⟩
      | some y =>
        rw [htop] at hdeq
        obtain ⟨rfl, rfl⟩ := Prod.mk.inj (Option.some.inj hdeq)
        simp only [setUp_overwrite (hd (hh₁.link p hp d y htop))]
        exact ⟨trivial, hh₁.setUp mem_of_none_eq, hself⟩
    | some left =>
      rw [hleft] at hdeq
      obtain ⟨⟨deq, h₁⟩, hloop, heq⟩ := Option.map_eq_some_iff.mp hdeq
      obtain ⟨rfl, rfl⟩ := Prod.mk.inj heq
      obtain ⟨hloop', hh₁, hdeqs⟩ :=
        deqLoop_overwrite junk hd turns hh hmem (hh.link next hmem .left left hleft) hloop
      simp only [hloop']
      exact ⟨rfl, hh₁, fun y hy => Option.some.inj hy ▸ hdeqs⟩

end

/-! ## The operations

`Memory.overwrite` replaces all fields of a block, not only its links, as a freed block
that is used again gets a new key and new data as well. -/

/-- The memory with the fields of the blocks in `ps` taken from `junk`. -/
def Memory.overwrite (m : Memory) (ps : List Ptr) (junk : Memory) : Memory :=
  { m with
    links := m.links.overwrite ps junk.links
    key := fun p => if p ∈ ps then junk.key p else m.key p
    data := fun p => if p ∈ ps then junk.data p else m.data p }

section

variable {m m' : Memory} {q q' : Sptree} {ps xs : List Ptr} {n : Ptr}

/-- One step of the walk. -/
theorem spFnext_overwrite (junk : Memory) (hh : m.links.Closed xs) (hd : xs.Disjoint ps) (hn : n ∈ xs) :
    spFnext n (m.overwrite ps junk) = spFnext n m := by
  have hlink : (m.overwrite ps junk).links.link .right n = m.links.link .right n :=
    overwrite_link (hd hn)
  have hup : (m.overwrite ps junk).links.uplink n = m.links.uplink n := overwrite_uplink (hd hn)
  rw [spFnext, spFnext, hlink, hup]
  cases hright : m.links.link .right n with
  | none => exact climb_overwrite hh hd _ fun y hy => hh.uplink n hn y hy
  | some x =>
    simp only
    rw [show (m.overwrite ps junk).links = m.links.overwrite ps junk.links from rfl,
      leftmost_overwrite hh hd _ (hh.link n hn .right x hright)]
    rfl

/-- The whole splay, from a node of the tree. -/
theorem splay_overwrite (junk : Memory) (hh : m.links.Closed xs) (hd : xs.Disjoint ps) (hn : n ∈ xs)
    (hsplay : splay n q m = some (q', m')) :
    splay n q (m.overwrite ps junk) = some (q', m'.overwrite ps junk) ∧ m'.links.Closed xs ∧
      q'.root = some n := by
  rw [splay] at hsplay ⊢
  simp only [Option.bind_eq_bind] at hsplay ⊢
  obtain ⟨⟨h, root, left, right⟩, hloop, heq⟩ := Option.bind_eq_some_iff.mp hsplay
  obtain ⟨hloop', hclosed, hleft, hright⟩ := splayLoop_overwrite junk.links hd m.brk hh
    (hh.link n hn .left) (hh.link n hn .right) (hh.uplink n hn) hloop
  have hloop'' : splayLoop (m.overwrite ps junk).brk (m.overwrite ps junk).links q.root
      ((m.overwrite ps junk).links.link .left n) ((m.overwrite ps junk).links.link .right n) n
      ((m.overwrite ps junk).links.uplink n) = some (h.overwrite ps junk.links, root, left, right) := by
    rw [← hloop', Memory.overwrite]
    simp only [overwrite_link (hd hn), overwrite_uplink (hd hn)]
  rw [hloop'']
  obtain ⟨rfl, rfl⟩ := Prod.mk.inj (Option.some.inj heq)
  have hself : ∀ x, some n = some x → x ∈ xs := fun x hx => Option.some.inj hx ▸ hn
  have hclosed' := (hclosed.setLink (d := .left) (p := n) hleft).setLink (d := .right) (p := n) hright
  simp only [Option.bind_some, setLink_overwrite (hd hn)]
  generalize (h.setLink .left n left).setLink .right n right = h₁ at *
  cases left with
  | none =>
    cases right with
    | none =>
      simp only [setUp_overwrite (hd hn)]
      exact ⟨rfl, hclosed'.setUp mem_of_none_eq, trivial⟩
    | some y =>
      simp only [setUp_overwrite (hd (hright y rfl)), setUp_overwrite (hd hn)]
      exact ⟨rfl, (hclosed'.setUp hself).setUp mem_of_none_eq, trivial⟩
  | some x =>
    cases right with
    | none =>
      simp only [setUp_overwrite (hd (hleft x rfl)), setUp_overwrite (hd hn)]
      exact ⟨rfl, (hclosed'.setUp hself).setUp mem_of_none_eq, trivial⟩
    | some y =>
      simp only [setUp_overwrite (hd (hleft x rfl)), setUp_overwrite (hd (hright y rfl)),
        setUp_overwrite (hd hn)]
      exact ⟨rfl, ((hclosed'.setUp hself).setUp hself).setUp mem_of_none_eq, trivial⟩

/-- Deleting a node commutes with overwriting blocks outside its tree. -/
theorem spDelete_overwrite (junk : Memory) (hh : m.links.Closed xs) (hd : xs.Disjoint ps) (hn : n ∈ xs)
    (hdelete : spDelete n q m = some (q', m')) :
    spDelete n q (m.overwrite ps junk) = some (q', m'.overwrite ps junk) := by
  rw [spDelete] at hdelete ⊢
  simp only [Option.bind_eq_bind] at hdelete ⊢
  obtain ⟨⟨q₁, m₁⟩, hsplay, hrest⟩ := Option.bind_eq_some_iff.mp hdelete
  obtain ⟨hsplay', hh₁, hroot⟩ := splay_overwrite junk hh hd hn hsplay
  simp only [hroot, Option.bind_some] at hrest
  obtain ⟨⟨x, h⟩, hdeq, heq⟩ := Option.bind_eq_some_iff.mp hrest
  obtain ⟨hdeq', hh₂, hx⟩ := spDeq_overwrite junk.links hh₁ hd hn hdeq
  have hdeq'' : spDeq .right n (m₁.overwrite ps junk).brk (m₁.overwrite ps junk).links =
      some (x, h.overwrite ps junk.links) := hdeq'
  obtain ⟨rfl, rfl⟩ := Prod.mk.inj (Option.some.inj heq)
  simp only [hsplay', hroot, Option.bind_some, hdeq'']
  -- giving the block back is a store to `n`
  have hfree : ∀ h : Links Ptr,
      spFreeBlk n { m₁.overwrite ps junk with links := h.overwrite ps junk.links } =
        (spFreeBlk n { m₁ with links := h }).overwrite ps junk := fun h => by
    simp only [spFreeBlk, setUp_overwrite (hd hn)]
    rfl
  cases x with
  -- nothing stands behind `n`
  | none =>
    simp only [overwrite_link (hd hn)]
    cases hleft : h.link .left n with
    | none =>
      simp only [hfree]
      rfl
    | some left =>
      simp only [setUp_overwrite (hd (hh₂.link n hn .left left hleft)), hfree]
      rfl
  | some x =>
    have hxs := hx x rfl
    simp only [setUp_overwrite (hd hxs), overwrite_link (hd hn), setLink_overwrite (hd hxs),
      overwrite_link (hd hxs)]
    have hh₃ := hh₂.setUp (p := x) (c := none) mem_of_none_eq
    have hh₄ := hh₃.setLink (d := .left) (p := x) (hh₃.link n hn .left)
    have hh₅ := hh₄.setLink (d := .right) (p := x) (hh₄.link n hn .right)
    generalize ((h.setUp x none).setLink .left x _).setLink .right x _ = h₅ at *
    have hl := hh₅.link x hxs .left
    have hr := hh₅.link x hxs .right
    cases hleft : h₅.link .left x with
    | none =>
      simp only [overwrite_link (hd hxs)]
      cases hright : h₅.link .right x with
      | none => simp only [hfree]; rfl
      | some right => simp only [setUp_overwrite (hd (hr right hright)), hfree]; rfl
    | some left =>
      simp only [setUp_overwrite (hd (hl left hleft)), overwrite_link (hd hxs), setUp_link]
      cases hright : h₅.link .right x with
      | none => simp only [hfree]; rfl
      | some right => simp only [setUp_overwrite (hd (hr right hright)), hfree]; rfl

end

end Gnuais

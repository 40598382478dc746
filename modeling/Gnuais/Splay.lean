import Gnuais.Lib.LinkTree
import Mathlib.Data.Nat.Basic

/-!
# The splay trees of `splay.c`

Search trees with parent links. A lookup splays the node it finds to the root,
bottom up; a new node is put in by splitting the tree around its key, top down,
and becomes the root.

* `Memory` — the blocks of all trees, field by field, the free list that blocks
  come from, and the allocator.
* `Sptree` — the handle of one tree.
* `spLookup`, `spInstall` with `splay` (`_splay`) and `spEnq` (`_sp_enq`) below
  them, and the walk `spFhead`, `spFnext`.

A dereference of `NULL` is `none`, and so is a loop that takes more turns than
there are blocks. The counters only `sp_stats` prints are left out.
-/

namespace Gnuais

open LinkTree

/-- The address of a block. -/
abbrev Ptr : Type := ℕ

/-- `spkey_t` -/
abbrev SpKey : Type := UInt32

/-- `SP_ALLOC_N` -/
abbrev spAllocN : ℕ := 200

/-- The fields of all `spblk`s, `sp_free_list`, and the next address `hmalloc` returns. A
block is an address and no record: that the fields of one block belong together is said by
the address they are read at. -/
structure Memory where
  /-- `leftlink`, `rightlink` and `uplink` of every block -/
  links : Links Ptr
  /-- `key` -/
  key : Ptr → SpKey
  /-- `data`; the cache keeps the address of an entry there -/
  data : Ptr → Option Ptr
  /-- `sp_free_list`, linked through the uplinks -/
  freeList : Option Ptr
  /-- every address handed out so far is below -/
  brk : Ptr

/-- `sptree` -/
structure Sptree where
  /-- `NULL` for an empty tree -/
  root : Option Ptr
  /-- the number of blocks in the tree -/
  eltscnt : ℤ
  deriving DecidableEq, Repr

/-- `sp_init` -/
def spInit : Sptree where
  root := none
  eltscnt := 0

/-! ## Blocks

Blocks come from a free list that is shared by all trees. When it is empty `SP_ALLOC_N`
more are allocated at once. `sp_delete` gives blocks back. -/

/-- `hmalloc`: an address not returned before. -/
def hmalloc (m : Memory) : Ptr × Memory := (m.brk, { m with brk := m.brk + 1 })

/-- The loop that puts `n` more blocks on the free list. -/
def refill : ℕ → Memory → Memory
  | 0, m => m
  | n + 1, m =>
    let (p, m) := hmalloc m
    refill n { m with links := m.links.setUp p m.freeList, freeList := some p }

/-- `sp_alloc_blk` -/
def spAllocBlk (m : Memory) : Option (Ptr × Memory) := do
  let m := if m.freeList = none then refill spAllocN m else m
  let p ← m.freeList
  return (p, { m with freeList := m.links.uplink p })

/-! ## `_splay`

The function walks up from the node it is given and hangs what it passes on the node's own
left and right subtrees. The source writes the two sides out one after the other, with the
links exchanged; here the side is a parameter. -/

/-- The rotation in one turn of the loop of `_splay`, for `up` on side `d` of
its parent: `up` takes the parent's place and the parent becomes its child.
Gives the links, the root of the tree and the new parent of `up`. -/
def rotateUp (d : Dir) (up : Ptr) (h : Links Ptr) (root : Option Ptr) :
    Links Ptr × Option Ptr × Option Ptr :=
  match h.uplink up with
  | none => (h, root, none)
  | some upup =>
    if h.link d upup = some up then
      let upupup := h.uplink upup
      let h := h.attach d upup (h.link d.flip up)
      let h := h.attach d.flip up (some upup)
      match upupup with
      | none => (h.setUp up none, some up, none)
      | some g =>
        let h :=
          if h.link d g = some upup then h.setLink d g (some up)
          else h.setLink d.flip g (some up)
        (h.setUp up (some g), root, some g)
    else (h, root, some upup)

/-- The loop of `_splay`: `left` and `right` are the tops of the two trees being
built, `prev` the node dealt with last and `up` its parent. -/
def splayLoop : ℕ → Links Ptr → Option Ptr → Option Ptr → Option Ptr → Ptr → Option Ptr →
    Option (Links Ptr × Option Ptr × Option Ptr × Option Ptr)
  | _, h, root, left, right, _, none => some (h, root, left, right)
  | 0, _, _, _, _, _, some _ => none
  | turns + 1, h, root, left, right, prev, some up =>
    if h.link .left up = some prev then
      -- `up` is to the right of `n`
      let (h, root, upup) := rotateUp .left up h root
      splayLoop turns (h.attach .left up right) root left (some up) up upup
    else
      -- `up` is to the left of `n`
      let (h, root, upup) := rotateUp .right up h root
      splayLoop turns (h.attach .right up left) root (some up) right up upup

/-- `_splay`: the links after it; `n` is the root. The two trees are hung below the node
at the end only. -/
def splay (n : Ptr) (q : Sptree) (m : Memory) : Option (Sptree × Memory) := do
  let (h, _, left, right) ← splayLoop m.brk m.links q.root (m.links.link .left n)
    (m.links.link .right n) n (m.links.uplink n)
  let h := (h.setLink .left n left).setLink .right n right
  let h := match left with
    | none => h
    | some x => h.setUp x (some n)
  let h := match right with
    | none => h
    | some x => h.setUp x (some n)
  return ({ q with root := some n }, { m with links := h.setUp n none })

/-! ## `_sp_enq`

The source jumps between two copies of the loop, label `one` and label `two`, whenever the
search changes sides. The side is a parameter again, so a jump is a call with the other
side. -/

/-- Whether a key belongs on the side of `n` that grows in direction `d`: the
smaller keys, walking right, or the others, walking left. -/
def belongs (d : Dir) (key key' : SpKey) : Bool :=
  match d with
  | .right => key' < key
  | .left => !(key' < key)

/-- The two loops of `_sp_enq`, label `one` for the direction right and label
`two` for left: `near` is the end of the tree that grows in this direction,
`far` the end of the other one and `next` the root of the unsplit part. -/
def enqLoop (keys : Ptr → SpKey) (key : SpKey) :
    ℕ → Dir → Ptr → Ptr → Ptr → Links Ptr → Option (Links Ptr)
  | 0, _, _, _, _, _ => none
  | turns + 1, d, near, far, next, h =>
    match h.link d next with
    | none =>
      let h := h.attach d near (some next)
      some (h.setLink d.flip far none)
    | some temp =>
      if belongs d key (keys temp) then
        let h := h.attach d next (h.link d.flip temp)
        let h := h.attach d near (some temp)
        let h := h.attach d.flip temp (some next)
        match h.link d temp with
        | none => some (h.setLink d.flip far none)
        | some next =>
          if belongs d key (keys next) then enqLoop keys key turns d temp far next h
          else enqLoop keys key turns d.flip far temp next h
      else
        -- change sides
        enqLoop keys key turns d.flip far next temp (h.attach d near (some next))

/-- `_sp_enq`: `n` becomes the root. -/
def spEnq (n : Ptr) (q : Sptree) (m : Memory) : Option (Sptree × Memory) := do
  let h := m.links.setUp n none
  match q.root with
  | none =>
    let h := (h.setLink .left n none).setLink .right n none
    return ({ q with root := some n }, { m with links := h })
  | some next =>
    let key := m.key n
    let d : Dir := if m.key next < key then .right else .left
    let h ← enqLoop m.key key m.brk d n n next h
    -- the branches of `n` need reversal
    let temp := h.link .left n
    let h := (h.setLink .left n (h.link .right n)).setLink .right n temp
    return ({ q with root := some n }, { m with links := h })

/-! ## Lookup and install

A lookup that finds nothing leaves the tree as it is. `sp_install` looks the key up a
second time, although its only caller in the cache has just done so, and returns the block
unchanged if there is one. -/

/-- The search loop of `sp_lookup`. -/
def lookupLoop (m : Memory) (key : SpKey) : ℕ → Option Ptr → Option (Option Ptr)
  | _, none => some none
  | 0, some _ => none
  | turns + 1, some n =>
    if key = m.key n then some (some n)
    else
      lookupLoop m key turns
        (if key < m.key n then m.links.link .left n else m.links.link .right n)

/-- `sp_lookup` Only a key that is found is splayed. -/
def spLookup (key : SpKey) (q : Sptree) (m : Memory) :
    Option (Option Ptr × Sptree × Memory) := do
  match ← lookupLoop m key m.brk q.root with
  | none => return (none, q, m)
  | some n =>
    let (q, m) ← splay n q m
    return (some n, q, m)

/-- `sp_install` -/
def spInstall (key : SpKey) (q : Sptree) (m : Memory) : Option (Ptr × Sptree × Memory) := do
  let (found, q, m) ← spLookup key q m
  match found with
  | some n => return (n, q, m)
  | none =>
    let (n, m) ← spAllocBlk m
    let h := ((m.links.setLink .left n none).setLink .right n none).setUp n none
    let m := { m with
      links := h
      key := fun p => if p = n then key else m.key p }
    let (q, m) ← spEnq n { q with eltscnt := q.eltscnt + 1 } m
    return (n, q, m)

/-! ## The walk

The successor of a node is the leftmost node of its right subtree if it has one, and
otherwise the first node up the tree that it is left of. The walk needs no stack, because
of the uplinks. -/

/-- `while (x->leftlink != NULL) x = x->leftlink;` -/
def leftmost (h : Links Ptr) : ℕ → Ptr → Option Ptr
  | 0, _ => none
  | turns + 1, x =>
    match h.link .left x with
    | none => some x
    | some y => leftmost h turns y

/-- `sp_fhead` -/
def spFhead (q : Sptree) (m : Memory) : Option (Option Ptr) :=
  match q.root with
  | none => some none
  | some x => (leftmost m.links m.brk x).map some

/-- The loop of `sp_fnext` that climbs until it comes up from the left. -/
def climb (h : Links Ptr) : ℕ → Ptr → Option Ptr → Option (Option Ptr)
  | _, _, none => some none
  | 0, _, some _ => none
  | turns + 1, n, some x =>
    if h.link .left x = some n then some (some x)
    else climb h turns x (h.uplink x)

/-- `sp_fnext` -/
def spFnext (n : Ptr) (m : Memory) : Option (Option Ptr) :=
  match m.links.link .right n with
  | some x => (leftmost m.links m.brk x).map some
  | none => climb m.links m.brk n (m.links.uplink n)

/-- `for (x = sp_fhead(q); x != NULL; x = sp_fnext(x))`, the blocks it visits. -/
def scanLoop (m : Memory) : ℕ → Option Ptr → Option (List Ptr)
  | _, none => some []
  | 0, some _ => none
  | turns + 1, some x => do
    let next ← spFnext x m
    let rest ← scanLoop m turns next
    return x :: rest

/-- The blocks of a tree, in the order a scan visits them. -/
def spScan (q : Sptree) (m : Memory) : Option (List Ptr) := do
  scanLoop m m.brk (← spFhead q m)

end Gnuais

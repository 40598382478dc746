import Mathlib.Data.List.Basic
import Mathlib.Data.List.Nodup
import Mathlib.Tactic.Tauto

/-!
# Binary trees of linked nodes

Nodes live at pointers of an arbitrary type and hold three links: to their left
and right child and up to their parent. `Links` is the link fields of all nodes
at once, one map a field; a program changes them one store at a time.

`Shape h ptr t` says that the nodes reached from `ptr` form the tree `t`, with
the uplinks of all nodes below the root right. A program that is in the middle
of taking a tree apart holds several trees at once, so nothing is said about the
uplink of the root, and a store to a node that is not in a tree leaves its shape
alone (`Shape.frame`).

A `Context` is a tree with a hole, as the path from the hole up to the root;
`ContextShape` is its shape in memory. `shape_plug` finds the context around any
node of a tree.
-/

namespace LinkTree

variable {P : Type}

/-! ## Directions and trees

Functions on linked trees come in mirrored pairs. With the side as a parameter there is
one function and one lemma: `join` builds a node from either side, `Dir.beside` puts lists
next to each other in the order the side gives. -/

/-- The two sides of a node. -/
inductive Dir where
  /-- the smaller keys in a search tree; nothing here compares keys -/
  | left
  | right
  deriving DecidableEq, Repr

/-- The other direction. -/
def Dir.flip : Dir → Dir
  | .left => .right
  | .right => .left

/-- The other side of the other side. -/
@[simp] theorem Dir.flip_flip (d : Dir) : d.flip.flip = d := by cases d <;> rfl

@[simp] theorem Dir.flip_ne (d : Dir) : d.flip ≠ d := by cases d <;> decide

@[simp] theorem Dir.ne_flip (d : Dir) : d ≠ d.flip := by cases d <;> decide

/-- Lists next to each other, the second one in direction away from `d`. -/
def Dir.beside : Dir → List P → List P → List P
  | .left, xs, ys => xs ++ ys
  | .right, xs, ys => ys ++ xs

/-- Three lists in a row, from either side. -/
theorem Dir.beside_assoc (d : Dir) (xs ys zs : List P) :
    d.beside (d.beside xs ys) zs = d.beside xs (d.beside ys zs) := by
  cases d <;> simp [beside]

/-- Walking the other way exchanges the lists. -/
theorem Dir.flip_beside (d : Dir) (xs ys : List P) : d.flip.beside xs ys = d.beside ys xs := by
  cases d <;> rfl

@[simp] theorem Dir.nil_beside (d : Dir) (xs : List P) : d.beside [] xs = xs := by
  cases d <;> simp [beside]

/-- The order does not matter for what is in them. -/
@[simp] theorem Dir.mem_beside (d : Dir) (xs ys : List P) (p : P) :
    p ∈ d.beside xs ys ↔ p ∈ xs ∨ p ∈ ys := by
  cases d
  · exact List.mem_append
  · exact List.mem_append.trans or_comm

/-- Nor for whether something is in both. -/
theorem Dir.nodup_beside (d : Dir) (xs ys : List P) :
    (d.beside xs ys).Nodup ↔ xs.Nodup ∧ ys.Nodup ∧ xs.Disjoint ys := by
  cases d
  · exact List.nodup_append'
  · exact List.nodup_append'.trans (by rw [List.disjoint_comm, and_left_comm])

/-- A tree of nodes. -/
inductive NodeTree (P : Type) where
  | leaf
  /-- a node with what is left and right of it -/
  | node (l : NodeTree P) (p : P) (r : NodeTree P)
  deriving DecidableEq, Repr

namespace NodeTree

/-- The nodes in order. -/
def inorder : NodeTree P → List P
  | leaf => []
  | node l p r => l.inorder ++ p :: r.inorder

/-- The node `p` with `a` on side `d` and `b` on the other. -/
def join : Dir → NodeTree P → P → NodeTree P → NodeTree P
  | .left, a, p, b => node a p b
  | .right, a, p, b => node b p a

@[simp] theorem inorder_leaf : (leaf : NodeTree P).inorder = [] := rfl

@[simp] theorem inorder_node (l : NodeTree P) (p : P) (r : NodeTree P) :
    (node l p r).inorder = l.inorder ++ p :: r.inorder := rfl

@[simp] theorem join_left (a : NodeTree P) (p : P) (b : NodeTree P) : join .left a p b = node a p b := rfl

@[simp] theorem join_right (a : NodeTree P) (p : P) (b : NodeTree P) : join .right a p b = node b p a := rfl

/-- The order of a node seen from one side. -/
theorem inorder_join (d : Dir) (a : NodeTree P) (p : P) (b : NodeTree P) :
    (join d a p b).inorder = d.beside a.inorder (d.beside [p] b.inorder) := by
  cases d <;> simp [Dir.beside]

/-- Its members. -/
theorem mem_inorder_join (d : Dir) (a : NodeTree P) (p : P) (b : NodeTree P) (q : P) :
    q ∈ (join d a p b).inorder ↔ q = p ∨ q ∈ a.inorder ∨ q ∈ b.inorder := by
  rw [inorder_join, Dir.mem_beside, Dir.mem_beside, List.mem_singleton]
  tauto

/-- Their number. -/
theorem length_join (d : Dir) (a : NodeTree P) (p : P) (b : NodeTree P) :
    (join d a p b).inorder.length = a.inorder.length + b.inorder.length + 1 := by
  cases d <;> simp <;> omega

theorem nodup_join (d : Dir) (a : NodeTree P) (p : P) (b : NodeTree P) :
    (join d a p b).inorder.Nodup ↔ p ∉ a.inorder ∧ p ∉ b.inorder ∧ a.inorder.Nodup ∧
      b.inorder.Nodup ∧ a.inorder.Disjoint b.inorder := by
  rw [inorder_join, Dir.nodup_beside, Dir.nodup_beside]
  simp only [List.disjoint_left, Dir.mem_beside, List.mem_singleton, List.nodup_singleton,
    forall_eq]
  grind

end NodeTree

/-! ## Links

A store changes one link of one node. The simp lemmas say what a read gives after it, so
that a proof runs through the stores of a loop body in order and is left with comparisons
of pointers. -/

/-- The link fields of all nodes. -/
structure Links (P : Type) where
  /-- the left and the right link -/
  link : Dir → P → Option P
  /-- the link to the parent -/
  uplink : P → Option P

namespace Links

/-- The links of `p` are the same in both. -/
def Same (h h' : Links P) (p : P) : Prop :=
  (∀ d, h'.link d p = h.link d p) ∧ h'.uplink p = h.uplink p

/-- Neither of two steps touches the node. -/
theorem Same.trans {h h' h'' : Links P} {p : P} (hs : Same h h' p) (hs' : Same h' h'' p) :
    Same h h'' p :=
  ⟨fun d => (hs'.1 d).trans (hs.1 d), hs'.2.trans hs.2⟩

variable [DecidableEq P]

/-- A store to the left or right link of `p`. -/
def setLink (h : Links P) (d : Dir) (p : P) (c : Option P) : Links P :=
  { h with link := fun d' q => if d' = d ∧ q = p then c else h.link d' q }

/-- A store to the uplink of `p`. -/
def setUp (h : Links P) (p : P) (u : Option P) : Links P :=
  { h with uplink := fun q => if q = p then u else h.uplink q }

/-- `p->link = c; if (c != NULL) c->uplink = p;` -/
def attach (h : Links P) (d : Dir) (p : P) (c : Option P) : Links P :=
  match c with
  | none => h.setLink d p none
  | some x => (h.setLink d p (some x)).setUp x (some p)

@[simp] theorem setLink_link (h : Links P) (d d' : Dir) (p q : P) (c : Option P) :
    (h.setLink d p c).link d' q = if d' = d ∧ q = p then c else h.link d' q := rfl

@[simp] theorem setLink_uplink (h : Links P) (d : Dir) (p q : P) (c : Option P) :
    (h.setLink d p c).uplink q = h.uplink q := rfl

@[simp] theorem setUp_link (h : Links P) (d : Dir) (p q : P) (u : Option P) :
    (h.setUp p u).link d q = h.link d q := rfl

@[simp] theorem setUp_uplink (h : Links P) (p q : P) (u : Option P) :
    (h.setUp p u).uplink q = if q = p then u else h.uplink q := rfl

@[simp] theorem attach_link (h : Links P) (d d' : Dir) (p q : P) (c : Option P) :
    (h.attach d p c).link d' q = if d' = d ∧ q = p then c else h.link d' q := by
  cases c <;> rfl

@[simp] theorem attach_uplink (h : Links P) (d : Dir) (p q : P) (c : Option P) :
    (h.attach d p c).uplink q = if c = some q then some p else h.uplink q := by
  cases c with
  | none => rfl
  | some x =>
    rw [attach, setUp_uplink, setLink_uplink]
    by_cases hq : q = x
    · rw [if_pos hq, if_pos (by rw [hq])]
    · rw [if_neg hq, if_neg fun h => hq (Option.some.inj h).symm]

/-- A store to another node does not touch this one. -/
theorem same_setLink (h : Links P) (d : Dir) {p q : P} (c : Option P) (hq : q ≠ p) :
    Same h (h.setLink d p c) q := ⟨fun e => by simp [hq], rfl⟩

theorem same_setUp (h : Links P) {p q : P} (u : Option P) (hq : q ≠ p) :
    Same h (h.setUp p u) q := ⟨fun _ => rfl, by simp [hq]⟩

theorem same_attach (h : Links P) (d : Dir) {p q : P} {c : Option P} (hq : q ≠ p)
    (hc : c ≠ some q) : Same h (h.attach d p c) q :=
  ⟨fun e => by simp [hq], by simp [hc]⟩

end Links

/-! ## Shapes

The uplink of a root is left open in `Shape` and is part of `Child`. A program that takes
a tree apart has roots with stale uplinks most of the time, and sets them right when it
hangs the tree somewhere. -/

/-- The nodes reached from `ptr` form the tree, whatever the uplink of its
root. -/
def Shape (h : Links P) : Option P → NodeTree P → Prop
  | ptr, .leaf => ptr = none
  | ptr, .node l p r => ptr = some p ∧
      (Shape h (h.link .left p) l ∧ ∀ c, h.link .left p = some c → h.uplink c = some p) ∧
      (Shape h (h.link .right p) r ∧ ∀ c, h.link .right p = some c → h.uplink c = some p)

/-- The tree on side `d` of the node `p`, its uplink included. -/
def Child (h : Links P) (d : Dir) (p : P) (t : NodeTree P) : Prop :=
  Shape h (h.link d p) t ∧ ∀ c, h.link d p = some c → h.uplink c = some p

/-- A tree with a root is two children. -/
theorem shape_join {h : Links P} {ptr : Option P} (d : Dir) {a : NodeTree P} {p : P} {b : NodeTree P} :
    Shape h ptr (.join d a p b) ↔ ptr = some p ∧ Child h d p a ∧ Child h d.flip p b := by
  cases d
  · rfl
  · exact and_congr_right fun _ => and_comm

/-- A tree with a root is a node, seen from either side. -/
theorem Shape.exists_join {h : Links P} {p : P} {t : NodeTree P} (hs : Shape h (some p) t) (d : Dir) :
    ∃ a b, t = .join d a p b ∧ Child h d p a ∧ Child h d.flip p b := by
  cases t with
  | leaf => cases hs
  | node l q r =>
    obtain ⟨hq, hl, hr⟩ := hs
    obtain rfl := Option.some.inj hq
    cases d
    · exact ⟨l, r, rfl, hl, hr⟩
    · exact ⟨r, l, rfl, hr, hl⟩

/-- Nothing is reached from `NULL`. -/
theorem Shape.eq_leaf {h : Links P} {t : NodeTree P} (hs : Shape h none t) : t = .leaf := by
  cases t with
  | leaf => rfl
  | node l p r => cases hs.1

/-- The root of a tree is one of its nodes. -/
theorem Shape.mem {h : Links P} {ptr : Option P} {t : NodeTree P} (hs : Shape h ptr t) {p : P}
    (hp : ptr = some p) : p ∈ t.inorder := by
  cases t with
  | leaf =>
    rw [hs] at hp
    cases hp
  | node l q r =>
    obtain rfl := Option.some.inj (hs.1.symm.trans hp)
    exact List.mem_append_right _ (List.mem_cons_self ..)

/-- The root of a child is one of its nodes. -/
theorem Child.mem {h : Links P} {d : Dir} {p : P} {t : NodeTree P} (hc : Child h d p t) {c : P}
    (hp : h.link d p = some c) : c ∈ t.inorder := hc.1.mem hp

/-- Stores elsewhere, or to the uplink of the root, leave a shape alone. -/
theorem Shape.frame {h h' : Links P} {t : NodeTree P} :
    ∀ {ptr : Option P}, Shape h ptr t → t.inorder.Nodup →
      (∀ p ∈ t.inorder, ∀ d, h'.link d p = h.link d p) →
      (∀ p ∈ t.inorder, ptr ≠ some p → h'.uplink p = h.uplink p) → Shape h' ptr t := by
  induction t with
  | leaf => exact fun hs _ _ _ => hs
  | node l p r ihl ihr =>
    rintro ptr ⟨rfl, hl, hr⟩ hnodup hlink hup
    obtain ⟨hpl, hpr, hnl, hnr, -⟩ := (NodeTree.nodup_join .left l p r).mp hnodup
    have hmem : ∀ q, q ∈ (NodeTree.node l p r).inorder ↔ q = p ∨ q ∈ l.inorder ∨ q ∈ r.inorder :=
      NodeTree.mem_inorder_join .left l p r
    have hp : ∀ d, h'.link d p = h.link d p := hlink p ((hmem p).mpr (.inl rfl))
    have hupl : ∀ q ∈ l.inorder, h'.uplink q = h.uplink q := fun q hq =>
      hup q ((hmem q).mpr (.inr (.inl hq))) fun heq => hpl (by rwa [Option.some.inj heq])
    have hupr : ∀ q ∈ r.inorder, h'.uplink q = h.uplink q := fun q hq =>
      hup q ((hmem q).mpr (.inr (.inr hq))) fun heq => hpr (by rwa [Option.some.inj heq])
    refine ⟨rfl, ?_, ?_⟩
    · rw [hp]
      refine ⟨ihl hl.1 hnl (fun q hq => hlink q ((hmem q).mpr (.inr (.inl hq))))
        fun q hq _ => hupl q hq, fun c hc => ?_⟩
      rw [hupl c (hl.1.mem hc)]
      exact hl.2 c hc
    · rw [hp]
      refine ⟨ihr hr.1 hnr (fun q hq => hlink q ((hmem q).mpr (.inr (.inr hq))))
        fun q hq _ => hupr q hq, fun c hc => ?_⟩
      rw [hupr c (hr.1.mem hc)]
      exact hr.2 c hc

/-- A shape depends on the links of its nodes only. -/
theorem Shape.same {h h' : Links P} {ptr : Option P} {t : NodeTree P} (hs : Shape h ptr t)
    (hnodup : t.inorder.Nodup) (hsame : ∀ q ∈ t.inorder, h.Same h' q) : Shape h' ptr t :=
  hs.frame hnodup (fun q hq => (hsame q hq).1) fun q hq _ => (hsame q hq).2

/-- Stores elsewhere leave the tree on one side of a node alone. -/
theorem Child.frame {h h' : Links P} {d : Dir} {p : P} {t : NodeTree P} (hc : Child h d p t)
    (hnodup : t.inorder.Nodup) (hp : h'.link d p = h.link d p)
    (hsame : ∀ q ∈ t.inorder, h.Same h' q) : Child h' d p t := by
  rw [Child, hp]
  refine ⟨hc.1.frame hnodup (fun q hq => (hsame q hq).1) fun q hq _ => (hsame q hq).2,
    fun c hpc => ?_⟩
  rw [(hsame c (hc.mem hpc)).2]
  exact hc.2 c hpc

/-- Attaching a tree makes it a child, and the rest of the tree stays. -/
theorem Shape.attach [DecidableEq P] {h : Links P} {p : P} {c : Option P} {t : NodeTree P}
    (hs : Shape h c t) (hnodup : t.inorder.Nodup) (hp : p ∉ t.inorder) (d : Dir) :
    Child (h.attach d p c) d p t := by
  have hlink : (h.attach d p c).link d p = c := by simp
  rw [Child, hlink]
  refine ⟨hs.frame hnodup (fun q hq e => ?_) fun q hq hne => ?_, fun q hq => ?_⟩
  · have hqp : q ≠ p := fun heq => hp (heq ▸ hq)
    simp [hqp]
  · simp [hne]
  · simp [hq]

/-- Attaching a tree somewhere else leaves a child alone. -/
theorem Child.attach [DecidableEq P] {h : Links P} {d e : Dir} {p q : P} {c : Option P}
    {t : NodeTree P} (hc : Child h d p t) (hnodup : t.inorder.Nodup) (hne : d ≠ e ∨ p ≠ q)
    (hq : q ∉ t.inorder) (hroot : ∀ x, c = some x → x ∉ t.inorder) :
    Child (h.attach e q c) d p t := by
  refine hc.frame hnodup ?_ fun x hx => Links.same_attach h e ?_ ?_
  · rw [Links.attach_link, if_neg]
    rintro ⟨rfl, rfl⟩
    exact hne.elim (fun h => h rfl) fun h => h rfl
  · rintro rfl
    exact hq hx
  · exact fun heq => hroot x heq hx

/-! ## Contexts

A node in the middle of a tree is reached from below as well as from above. A context is
the tree seen from the node: its steps are the way up, and the other subtrees hang beside
it. -/

/-- A step of a path from a node up to the root: the hole is on side `dir` of
`node`, and `other` is on its other side. -/
structure Step (P : Type) where
  /-- the side on which the way goes down again -/
  dir : Dir
  /-- the node the step leads to -/
  node : P
  /-- its subtree on the other side -/
  other : NodeTree P

/-- A tree with a hole: the path from the hole up. -/
abbrev Context (P : Type) : Type := List (Step P)

namespace Context

/-- The tree with `t` in the hole. -/
def plug : NodeTree P → Context P → NodeTree P
  | t, [] => t
  | t, s :: ctx => plug (.join s.dir t s.node s.other) ctx

/-- The nodes left of the hole. -/
def before : Context P → List P
  | [] => []
  | ⟨.left, _, _⟩ :: ctx => before ctx
  | ⟨.right, p, o⟩ :: ctx => before ctx ++ (o.inorder ++ [p])

/-- The nodes right of the hole. -/
def after : Context P → List P
  | [] => []
  | ⟨.left, p, o⟩ :: ctx => p :: o.inorder ++ after ctx
  | ⟨.right, _, _⟩ :: ctx => after ctx

/-- The nodes of a tree, with `xs` in the hole. -/
def around (ctx : Context P) (xs : List P) : List P := ctx.before ++ xs ++ ctx.after

/-- All nodes of the context. -/
def nodes : Context P → List P
  | [] => []
  | s :: ctx => s.node :: s.other.inorder ++ nodes ctx

/-- The parent of the hole. -/
def parent : Context P → Option P
  | [] => none
  | s :: _ => some s.node

/-- The parent's link to the hole holds `child`. -/
def PointsTo (h : Links P) (child : P) : Context P → Prop
  | [] => True
  | s :: _ => h.link s.dir s.node = some child

/-- The context in memory, but for the link to the hole. -/
def Above (h : Links P) : Context P → Prop
  | [] => True
  | s :: ctx => Child h s.dir.flip s.node s.other ∧ h.uplink s.node = parent ctx ∧
      PointsTo h s.node ctx ∧ Above h ctx

/-- One step more, with the node and its other subtree beside what is in the hole. -/
theorem around_cons (s : Step P) (ctx : Context P) (xs : List P) :
    around (s :: ctx) xs = around ctx (s.dir.beside xs (s.dir.beside [s.node] s.other.inorder)) := by
  obtain ⟨d, p, o⟩ := s
  cases d <;> simp [around, before, after, Dir.beside]

/-- The order of a tree, from a hole in it. -/
theorem inorder_plug (ctx : Context P) :
    ∀ t : NodeTree P, (plug t ctx).inorder = around ctx t.inorder := by
  induction ctx with
  | nil => exact fun t => (List.append_nil _).symm
  | cons s ctx ih =>
    intro t
    rw [plug, ih, around_cons, NodeTree.inorder_join]

theorem mem_around (ctx : Context P) (q : P) :
    ∀ xs : List P, q ∈ around ctx xs ↔ q ∈ xs ∨ q ∈ ctx.nodes := by
  induction ctx with
  | nil => exact fun xs => by simp [around, before, after, nodes]
  | cons s ctx ih =>
    intro xs
    rw [around_cons, ih]
    simp only [nodes, List.mem_append, List.mem_cons, List.cons_append, Dir.mem_beside,
      List.not_mem_nil, or_false]
    tauto

theorem nodup_around (ctx : Context P) : ∀ xs : List P,
    (around ctx xs).Nodup ↔ xs.Nodup ∧ ctx.nodes.Nodup ∧ xs.Disjoint ctx.nodes := by
  induction ctx with
  | nil =>
    intro xs
    simp [around, before, after, nodes]
  | cons s ctx ih =>
    intro xs
    rw [around_cons, ih, Dir.nodup_beside, Dir.nodup_beside]
    simp only [nodes, List.nodup_append', List.nodup_cons, List.disjoint_left, List.mem_append,
      List.mem_cons, List.cons_append, Dir.mem_beside, List.not_mem_nil, or_false]
    grind

/-- Plugging is done from the inside out. -/
theorem plug_append (ctx ctx' : Context P) :
    ∀ t : NodeTree P, plug t (ctx ++ ctx') = plug (plug t ctx) ctx' := by
  induction ctx with
  | nil => exact fun _ => rfl
  | cons s ctx ih => exact fun t => ih _

/-- Every node has a context. -/
theorem exists_plug {t : NodeTree P} {p : P} (hp : p ∈ t.inorder) :
    ∃ l r ctx, t = plug (.node l p r) ctx := by
  induction t with
  | leaf => cases hp
  | node l q r ihl ihr =>
    rcases (NodeTree.mem_inorder_join .left l q r p).mp hp with rfl | hl | hr
    · exact ⟨l, r, [], rfl⟩
    · obtain ⟨l', r', ctx, rfl⟩ := ihl hl
      exact ⟨l', r', ctx ++ [⟨.left, q, r⟩], by rw [plug_append]; rfl⟩
    · obtain ⟨l', r', ctx, rfl⟩ := ihr hr
      exact ⟨l', r', ctx ++ [⟨.right, q, l⟩], by rw [plug_append]; rfl⟩

/-- A path is not longer than the tree is large. -/
theorem length_le_plug (ctx : Context P) :
    ∀ t : NodeTree P, ctx.length + t.inorder.length ≤ (plug t ctx).inorder.length := by
  induction ctx with
  | nil => exact fun t => Nat.le_of_eq (Nat.zero_add _)
  | cons s ctx ih =>
    intro t
    obtain ⟨d, p, o⟩ := s
    have hjoin := ih (.join d t p o)
    have hlen : t.inorder.length + 1 ≤ (NodeTree.join d t p o).inorder.length := by
      cases d <;> simp
    change ctx.length + 1 + t.inorder.length ≤ (plug (.join d t p o) ctx).inorder.length
    omega

/-- Stores to other nodes than the parent leave the link to the hole alone. -/
theorem PointsTo.frame {h h' : Links P} {child : P} {ctx : Context P}
    (hp : PointsTo h child ctx) (hsame : ∀ q ∈ ctx.nodes, h.Same h' q) :
    PointsTo h' child ctx := by
  cases ctx with
  | nil => trivial
  | cons s ctx => exact ((hsame s.node (List.mem_cons_self ..)).1 s.dir).trans hp

/-- Stores elsewhere leave a context alone. -/
theorem Above.frame {h h' : Links P} {ctx : Context P} (ha : Above h ctx)
    (hnodup : ctx.nodes.Nodup) (hsame : ∀ q ∈ ctx.nodes, h.Same h' q) : Above h' ctx := by
  induction ctx with
  | nil => trivial
  | cons s ctx ih =>
    obtain ⟨hother, hparent, hpoints, habove⟩ := ha
    rw [nodes, List.cons_append, List.nodup_cons, List.nodup_append] at hnodup
    have hself : s.node ∈ nodes (s :: ctx) := List.mem_cons_self ..
    have ho : ∀ q ∈ s.other.inorder, q ∈ nodes (s :: ctx) := fun q hq =>
      List.mem_cons_of_mem _ (List.mem_append_left _ hq)
    have hrest : ∀ q ∈ nodes ctx, q ∈ nodes (s :: ctx) := fun q hq =>
      List.mem_cons_of_mem _ (List.mem_append_right _ hq)
    exact ⟨hother.frame hnodup.2.1 ((hsame _ hself).1 _) fun q hq => hsame q (ho q hq),
      (hsame _ hself).2.trans hparent, hpoints.frame fun q hq => hsame q (hrest q hq),
      ih habove hnodup.2.2.1 fun q hq => hsame q (hrest q hq)⟩

/-- A store to the parent's link to the hole. -/
def redirect [DecidableEq P] (h : Links P) (child : P) : Context P → Links P
  | [] => h
  | s :: _ => h.setLink s.dir s.node (some child)

/-- Only the parent is touched. -/
theorem same_redirect [DecidableEq P] (h : Links P) (child : P) {ctx : Context P} {q : P}
    (hq : q ∉ ctx.nodes) : h.Same (redirect h child ctx) q := by
  cases ctx with
  | nil => exact ⟨fun _ => rfl, rfl⟩
  | cons s ctx => exact Links.same_setLink h s.dir _ fun heq => hq (heq ▸ List.mem_cons_self ..)

/-- The context stays when its hole gets another child. -/
theorem Above.redirect [DecidableEq P] {h : Links P} {ctx : Context P} (ha : Above h ctx)
    (hnodup : ctx.nodes.Nodup) (child : P) :
    PointsTo (redirect h child ctx) child ctx ∧ Above (redirect h child ctx) ctx := by
  cases ctx with
  | nil => exact ⟨trivial, trivial⟩
  | cons s ctx =>
    obtain ⟨hother, hparent, hpoints, habove⟩ := ha
    rw [nodes, List.cons_append, List.nodup_cons, List.nodup_append'] at hnodup
    obtain ⟨hself, hno, hnc, -⟩ := hnodup
    have hsame : ∀ q, q ≠ s.node → h.Same (h.setLink s.dir s.node (some child)) q :=
      fun q hq => Links.same_setLink h s.dir _ hq
    have hne : ∀ q ∈ nodes ctx, q ≠ s.node := fun q hq heq =>
      hself (List.mem_append_right _ (heq ▸ hq))
    refine ⟨if_pos ⟨rfl, rfl⟩, hother.frame hno (by simp [Context.redirect]) fun q hq =>
      hsame q fun heq => hself (List.mem_append_left _ (heq ▸ hq)), hparent,
      hpoints.frame fun q hq => hsame q (hne q hq), habove.frame hnc fun q hq => hsame q (hne q hq)⟩

/-- The memory around a node of a tree. -/
theorem shape_plug {h : Links P} {root : Option P} (hroot : ∀ c, root = some c → h.uplink c = none)
    (ctx : Context P) : ∀ (d : Dir) (a : NodeTree P) (p : P) (b : NodeTree P),
      Shape h root (plug (.join d a p b) ctx) →
      Child h d p a ∧ Child h d.flip p b ∧ h.uplink p = parent ctx ∧ PointsTo h p ctx ∧
        Above h ctx := by
  induction ctx with
  | nil =>
    intro d a p b hs
    obtain ⟨rfl, ha, hb⟩ := (shape_join d).mp hs
    exact ⟨ha, hb, hroot p rfl, trivial, trivial⟩
  | cons s ctx ih =>
    intro d a p b hs
    obtain ⟨hhole, hother, hparent, hpoints, habove⟩ :=
      ih s.dir (.join d a p b) s.node s.other hs
    obtain ⟨hlink, ha, hb⟩ := (shape_join d).mp hhole.1
    exact ⟨ha, hb, hhole.2 p hlink, hlink, hother, hparent, hpoints, habove⟩

end Context

/-! ## Spines

Splitting a tree from the top down builds two chains. Each grows at its lowest node, so
the chain is a list with that node in front, and its last link is left open until the loop
ends. -/

/-- A tree that is grown below the node `n` on its side `d`: a chain of nodes in
this direction, lowest first, each with the tree on its other side. The next
node goes on side `d` of the lowest. -/
abbrev Spine (P : Type) : Type := List (P × NodeTree P)

namespace Spine

/-- The node the spine grows at. -/
def tip (n : P) : Spine P → P
  | [] => n
  | (p, _) :: _ => p

/-- The nodes in order, away from direction `d`. -/
def list (d : Dir) : Spine P → List P
  | [] => []
  | (p, t) :: sp => d.beside (d.beside [p] t.inorder) (list d sp)

/-- The tree with `t` at the tip. -/
def fill (d : Dir) : Spine P → NodeTree P → NodeTree P
  | [], t => t
  | (p, o) :: sp, t => fill d sp (.join d t p o)

/-- The spine in memory, but for the link at its tip. -/
def Holds (h : Links P) (d : Dir) (n : P) : Spine P → Prop
  | [] => True
  | (p, t) :: sp => Child h d.flip p t ∧ h.link d (tip n sp) = some p ∧
      h.uplink p = some (tip n sp) ∧ Holds h d n sp

/-- The tip is the node it started at or one of the chain. -/
theorem tip_mem (d : Dir) (n : P) (sp : Spine P) : tip n sp = n ∧ sp = [] ∨
    tip n sp ∈ list d sp := by
  cases sp with
  | nil => exact .inl ⟨rfl, rfl⟩
  | cons s sp =>
    right
    simp [tip, list]

/-- The order of a chain that is closed with a tree. -/
theorem inorder_fill (d : Dir) (sp : Spine P) :
    ∀ t : NodeTree P, (fill d sp t).inorder = d.beside t.inorder (list d sp) := by
  induction sp with
  | nil =>
    intro t
    cases d <;> simp [fill, list, Dir.beside]
  | cons s sp ih =>
    intro t
    obtain ⟨p, o⟩ := s
    rw [fill, ih, list, NodeTree.inorder_join, Dir.beside_assoc]

/-- A tree at the tip completes the tree below `n`. -/
theorem Holds.fill {h : Links P} {d : Dir} {n : P} {sp : Spine P} (hs : Holds h d n sp) :
    ∀ {t : NodeTree P}, Child h d (tip n sp) t → Child h d n (fill d sp t) := by
  induction sp with
  | nil => exact fun ht => ht
  | cons s sp ih =>
    obtain ⟨p, o⟩ := s
    obtain ⟨hother, hlink, hup, hrest⟩ := hs
    intro t ht
    refine ih hrest ?_
    rw [Child, hlink]
    refine ⟨(shape_join d).mpr ⟨rfl, ht, hother⟩, fun c hc => ?_⟩
    rw [← Option.some.inj hc]
    exact hup

/-- A store at the tip, elsewhere, or to the other side of `n` leaves the spine
alone. -/
theorem Holds.attach [DecidableEq P] {h : Links P} {d e : Dir} {n q : P} {c : Option P}
    {sp : Spine P} (hs : Holds h d n sp) (hnodup : (n :: list d sp).Nodup)
    (hq : q ∉ list d sp ∨ e = d ∧ q = tip n sp) (hn : q = n → e ≠ d ∨ sp = [])
    (hc : ∀ x ∈ list d sp, c ≠ some x) : Holds (h.attach e q c) d n sp := by
  induction sp with
  | nil => trivial
  | cons s sp ih =>
    obtain ⟨p, o⟩ := s
    obtain ⟨hother, hlink, hup, hrest⟩ := hs
    rw [list, List.nodup_cons, Dir.nodup_beside, Dir.nodup_beside] at hnodup
    simp only [list, Dir.mem_beside, List.mem_singleton, not_or, List.disjoint_left, tip]
      at hnodup hq hc
    obtain ⟨⟨⟨hnp, hno⟩, hnsp⟩, ⟨-, hon, hpo⟩, hspn, hdisj⟩ := hnodup
    have hqo : q ∉ o.inorder := by
      rcases hq with hq | ⟨-, rfl⟩
      · exact hq.1.2
      · exact hpo rfl
    have hqsp : q ∉ list d sp := by
      rcases hq with hq | ⟨-, rfl⟩
      · exact hq.2
      · exact hdisj (.inl rfl)
    have htip : e ≠ d ∨ q ≠ tip n sp := by
      rcases tip_mem d n sp with ⟨htip, -⟩ | htip
      · by_cases hqn : q = n
        · exact .inl ((hn hqn).resolve_right (List.cons_ne_nil _ _))
        · exact .inr fun heq => hqn (heq.trans htip)
      · exact .inr fun heq => hqsp (heq ▸ htip)
    have hnext : Holds (h.attach e q c) d n sp :=
      ih hrest (List.nodup_cons.mpr ⟨hnsp, hspn⟩) (.inl hqsp)
        (fun hqn => .inl ((hn hqn).resolve_right (List.cons_ne_nil _ _)))
        fun x hx => hc x (.inr hx)
    refine ⟨?_, ?_, ?_, hnext⟩
    · refine hother.attach hon ?_ hqo fun x hx hxo => hc x (.inl (.inr hxo)) hx
      rcases hq with hq | ⟨rfl, -⟩
      · exact .inr (Ne.symm hq.1.1)
      · exact .inl e.flip_ne
    · rw [Links.attach_link, if_neg, hlink]
      rintro ⟨rfl, rfl⟩
      exact htip.elim (fun h => h rfl) fun h => h rfl
    · rw [Links.attach_uplink, if_neg (hc p (.inl (.inl rfl))), hup]

end Spine

end LinkTree

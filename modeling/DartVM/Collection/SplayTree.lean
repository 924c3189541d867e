import DartVM.Lib.SortedMap

namespace dart.collection
variable {K V : Type}

/-- The nodes of a splay tree. A set has no values. -/
inductive Tree (K V : Type) where
  | leaf
  | node (left : Tree K V) (key : K) (value : V) (right : Tree K V)
deriving Repr

namespace Tree

/-- The entries in the order of an iteration. -/
def entries : Tree K V → List (K × V)
  | leaf => []
  | node left key value right => left.entries ++ (key, value) :: right.entries

/-- The nodes that were linked to the left, the last one first, each with the right child open. -/
abbrev LeftSpine (K V : Type) := List (Tree K V × K × V)

/-- The nodes that were linked to the right, each with the left child open. -/
abbrev RightSpine (K V : Type) := List (K × V × Tree K V)

/-- The end of `_splay`, where the children of the current node go into the open places. -/
def assemble (lefts : LeftSpine K V) (rights : RightSpine K V) (left : Tree K V) (key : K) (value : V)
    (right : Tree K V) : Tree K V :=
  node (lefts.foldl (fun t n => node n.1 n.2.1 n.2.2 t) left) key value
    (rights.foldl (fun t n => node t n.1 n.2.1 n.2.2) right)

/-- The loop of `_splay`, which returns the new root, the result of the last comparison and whether the root
is another node. -/
def splay (compare : K → K → Int) (target : K) :
    Tree K V → Bool → LeftSpine K V → RightSpine K V → Tree K V × Int × Bool
  | leaf, moved, _, _ => (leaf, -1, moved)
  | node left key value right, moved, lefts, rights =>
    if 0 < compare key target then
      match left with
      | leaf => (assemble lefts rights leaf key value right, compare key target, moved)
      | node leftLeft leftKey leftValue leftRight =>
        if 0 < compare leftKey target then
          -- Rotate right.
          match leftLeft with
          | leaf =>
            (assemble lefts rights leaf leftKey leftValue (node leftRight key value right), compare leftKey target, true)
          | node l k v r =>
            splay compare target (node l k v r) true lefts
              ((leftKey, leftValue, node leftRight key value right) :: rights)
        else
          splay compare target (node leftLeft leftKey leftValue leftRight) true lefts ((key, value, right) :: rights)
    else if compare key target < 0 then
      match right with
      | leaf => (assemble lefts rights left key value leaf, compare key target, moved)
      | node rightLeft rightKey rightValue rightRight =>
        if compare rightKey target < 0 then
          -- Rotate left.
          match rightRight with
          | leaf =>
            (assemble lefts rights (node left key value rightLeft) rightKey rightValue leaf, compare rightKey target, true)
          | node l k v r =>
            splay compare target (node l k v r) true
              ((node left key value rightLeft, rightKey, rightValue) :: lefts) rights
        else
          splay compare target (node rightLeft rightKey rightValue rightRight) true ((left, key, value) :: lefts) rights
    else (assemble lefts rights left key value right, compare key target, moved)

/-- The loop of `_splayMin`. -/
def splay_min : Tree K V → K → V → Tree K V → Tree K V
  | leaf, key, value, right => node leaf key value right
  | node leftLeft leftKey leftValue leftRight, key, value, right =>
    splay_min leftLeft leftKey leftValue (node leftRight key value right)

/-- The loop of `_splayMax`. -/
def splay_max (left : Tree K V) (key : K) (value : V) : Tree K V → Tree K V
  | leaf => node left key value leaf
  | node rightLeft rightKey rightValue rightRight =>
    splay_max (node left key value rightLeft) rightKey rightValue rightRight

/-- The tree without its root, whose children these are. -/
def without_root (left right : Tree K V) : Tree K V :=
  match left with
  | leaf => right
  | node leftLeft leftKey leftValue leftRight =>
    match splay_max leftLeft leftKey leftValue leftRight with
    | leaf => right
    | node l k v _ => node l k v right

/-- The key that is found by going to the left. -/
def leftmost_key : Tree K V → Option K
  | leaf => none
  | node left key _ _ => left.leftmost_key.or (some key)

/-- The key that is found by going to the right. -/
def rightmost_key : Tree K V → Option K
  | leaf => none
  | node _ key _ right => right.rightmost_key.or (some key)

/-- `_copyNode`, which copies the keys. -/
def copy_node : Tree K V → Tree K Unit
  | leaf => leaf
  | node left key _ right => node left.copy_node key () right.copy_node

end Tree

/-- A splay tree with its counters. -/
structure SplayTree (K V : Type) where
  root : Tree K V
  count : Nat
  modification_count : Nat
  splay_count : Nat

namespace SplayTree

def empty : SplayTree K V := ⟨.leaf, 0, 0, 0⟩

variable (compare : K → K → Int)

/-- `_splay`. -/
def splay (self : SplayTree K V) (key : K) : SplayTree K V × Int :=
  match self.root with
  | .leaf => (self, -1)
  | .node left k value right =>
    let (root, comp, moved) := (Tree.node left k value right).splay compare key false [] []
    ({ self with root := root, splay_count := if moved then self.splay_count + 1 else self.splay_count }, comp)

section
variable (self : SplayTree K V)

/-- `_remove`. -/
def remove_node (key : K) : SplayTree K V × Option (K × V) :=
  let (self, comp) := self.splay compare key
  match self.root with
  | .leaf => (self, none)
  | .node left k value right =>
    if comp ≠ 0 then (self, none)
    else
      ({ self with
          root := Tree.without_root left right
          count := self.count - 1
          modification_count := self.modification_count + 1 }, some (k, value))

/-- `_addNewRoot`. -/
def add_new_root (key : K) (value : V) (comp : Int) : SplayTree K V :=
  let root := match self.root with
    | .leaf => .node .leaf key value .leaf
    | .node left k v right =>
      if comp < 0 then .node (.node left k v .leaf) key value right
      else .node left key value (.node .leaf k v right)
  { self with root := root, count := self.count + 1, modification_count := self.modification_count + 1 }

/-- `_first`, with the key of the new root. The counter of splay operations stays. -/
def first : SplayTree K V × Option K :=
  match self.root with
  | .leaf => (self, none)
  | .node left key value right =>
    match Tree.splay_min left key value right with
    | .leaf => (self, none)
    | .node l k v r => ({ self with root := .node l k v r }, some k)

/-- `_last`. -/
def last : SplayTree K V × Option K :=
  match self.root with
  | .leaf => (self, none)
  | .node left key value right =>
    match Tree.splay_max left key value right with
    | .leaf => (self, none)
    | .node l k v r => ({ self with root := .node l k v r }, some k)

/-- `_clear`. -/
def clear : SplayTree K V :=
  { self with root := .leaf, count := 0, modification_count := self.modification_count + 1 }

end

/-- `_containsKey`. -/
def contains_key (valid_key : K → Bool) (self : SplayTree K V) (key : K) : SplayTree K V × Bool :=
  if valid_key key then
    let (self, comp) := self.splay compare key
    (self, comp = 0)
  else (self, false)

end SplayTree
end dart.collection

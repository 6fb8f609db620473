import HvacModel.Yaml.Tag

/-! # Trees of YAML text

A `Tree` is a document as it is written: scalars are texts, and an alias stands where it is used.
Anchors are numbers by then.  `Tree.anchored` lists the anchored parts in the order in which they
start; of two parts with one number the later one counts. -/

namespace HvacModel.Yaml

/-- What stands in front of a node. -/
structure Properties where
  anchor : Option Nat
  tag : Option Tag
deriving DecidableEq, Repr

/-- Nothing in front of a node. -/
def Properties.none : Properties := ⟨.none, .none⟩

/-- A part of a document. -/
inductive Tree where
  /-- A node that was written before, by the number of its anchor. -/
  | reference (anchor : Nat)
  /-- A scalar, with whether it is plain. -/
  | scalar (properties : Properties) (text : String) (plain : Bool)
  | sequence (properties : Properties) (items : List Tree)
  | mapping (properties : Properties) (entries : List (Tree × Tree))
deriving Repr

namespace Tree

instance : Inhabited Tree := ⟨reference 0⟩

/-- The scalar of a place where nothing is written. -/
def empty (properties : Properties) : Tree := scalar properties "" true

/-- A part under its anchor, if it has one. -/
def underAnchor (properties : Properties) (t : Tree) : List (Nat × Tree) :=
  properties.anchor.toList.map (·, t)

mutual

/-- The anchored parts in the order in which they start. -/
def anchored : Tree → List (Nat × Tree)
  | reference _ => []
  | scalar p text plain => underAnchor p (scalar p text plain)
  | sequence p items => underAnchor p (sequence p items) ++ anchoredItems items
  | mapping p entries => underAnchor p (mapping p entries) ++ anchoredEntries entries

def anchoredItems : List Tree → List (Nat × Tree)
  | [] => []
  | t :: rest => t.anchored ++ anchoredItems rest

def anchoredEntries : List (Tree × Tree) → List (Nat × Tree)
  | [] => []
  | (k, v) :: rest => k.anchored ++ v.anchored ++ anchoredEntries rest

end

mutual

/-- The number of scalars and aliases and of starts and ends of collections. -/
def size : Tree → Nat
  | reference _ => 1
  | scalar _ _ _ => 1
  | sequence _ items => sizeItems items + 2
  | mapping _ entries => sizeEntries entries + 2

def sizeItems : List Tree → Nat
  | [] => 0
  | t :: rest => t.size + sizeItems rest

def sizeEntries : List (Tree × Tree) → Nat
  | [] => 0
  | (k, v) :: rest => k.size + v.size + sizeEntries rest

end

end Tree

end HvacModel.Yaml

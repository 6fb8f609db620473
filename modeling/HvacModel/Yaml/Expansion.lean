import HvacModel.Yaml.Scalar
import HvacModel.Yaml.Tree

/-! # Expanding aliases

`Tree.node?` is the value of a document: scalars are read, local tags kept, and every alias
replaced by the part that it stands for.  Collections may nest only so deep, aliases counted in,
which also ends the expansion of a part that stands inside itself; and the number of aliases
replaced is limited by the size of the document. -/

namespace HvacModel.Yaml

/-- An expansion with the number of aliases that it may still replace. -/
abbrev Expanding (α : Type) := StateT Nat Option α

namespace Tree

/-- The part that an alias stands for; other parts stand for themselves. -/
def target (table : List (Nat × Tree)) : Tree → Expanding Tree
  | reference anchor => do
    match ← get with
    | 0 => failure
    | left + 1 => set left
    match table.lookup anchor with
    | some t => return t
    | none => failure
  | t => return t

/-- A node under its local tag, if it has one with a name. -/
def underTag (p : Properties) (node : Node) : Node :=
  match p.tag.bind Tag.name? with
  | some name => .tagged name node
  | none => node

/-- Add an entry with a new key. -/
def addEntry (entries : List (Node × Node)) (key value : Node) : Expanding (List (Node × Node)) :=
  if entries.any fun e => e.1.same key then failure else pure (entries ++ [(key, value)])

/-- The node of a part, given the node of each member of a collection. -/
def contents (member : Option (Tree → Expanding Node)) : Tree → Expanding Node
  | reference _ => failure
  | scalar p text plain => do
    match Scalar.node? (p.tag.filter fun tag => !tag.isLocal) text plain with
    | some node => return underTag p node
    | none => failure
  | sequence p items =>
    match member with
    | some member => do return underTag p (.sequence (← items.mapM member))
    | none => failure
  | mapping p entries =>
    match member with
    | some member => do
      let nodes ← entries.foldlM (fun done e => do
        let key ← member e.1
        let value ← member e.2
        addEntry done key value) []
      return underTag p (.mapping nodes)
    | none => failure

/-- The node of a part in which collections nest at most `depth` deep. -/
def expand (table : List (Nat × Tree)) : Nat → Tree → Expanding Node
  | 0, t => do contents none (← target table t)
  | depth + 1, t => do contents (some (expand table depth)) (← target table t)

/-- The value of a document in which collections nest at most `depth` deep. -/
def node? (depth : Nat) (t : Tree) : Option Node :=
  ((t.expand t.anchored.reverse depth).run (100 * t.size)).map Prod.fst

end Tree

end HvacModel.Yaml

import HvacModel.Yaml.Token.Layout
import HvacModel.Yaml.Tree.Grammar
import HvacModel.Yaml.Expansion

/-! # Reading YAML text

`Yaml.read` is the raw value of a text that holds one document: the text is cut into tokens, the
tokens form a tree, the tree becomes a node and the node a value.  A text without a node is
malformed; a node without a value has a key that no object can have. -/

namespace HvacModel.Yaml

/-- Why a text has no value. -/
inductive Fault where
  | malformed
  /-- A key is neither a string nor a boolean nor a finite number. -/
  | key
deriving DecidableEq, Repr

/-- The greatest nesting of collections. -/
def depthLimit : Nat := 128

/-- The node of a text. -/
def node? (text : String) : Option Node := do
  let characters ← Text.ofString? text
  let tokens ← Token.ofText? characters
  let tree ← Tree.ofTokens? depthLimit tokens
  tree.node? depthLimit

/-- The raw value of a text. -/
def read (text : String) : Except Fault Value :=
  match node? text with
  | none => .error .malformed
  | some node =>
    match node.toValue? with
    | some value => .ok value
    | none => .error .key

end HvacModel.Yaml

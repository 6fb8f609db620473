import HvacModel.Yaml.Token
import HvacModel.Yaml.Tree

/-! # The grammar of YAML tokens

`Tree.ofTokens?` reads the one document of a token list.  Readers take tokens from the front and
number the anchors they meet: a new anchor gets the number of names that are bound, so a name that
is bound again shares its new number with the next new name.  A node may nest only so many
collections deep, which is what the recursion goes by; a loop over the entries of a collection goes
by the number of tokens. -/

namespace HvacModel.Yaml

/-- What is left to read, and the anchors so far. -/
structure Reading where
  tokens : List Token
  anchors : List (String × Nat)

/-- A reader of tokens. -/
abbrev Grammar (α : Type) := StateT Reading Option α

namespace Grammar

/-- The next token. -/
def peek : Grammar (Option Token) := do return (← get).tokens.head?

/-- Pass over the next token. -/
def skip : Grammar Unit := modify fun r => { r with tokens := r.tokens.drop 1 }

/-- What each handle stands for. -/
abbrev Handles := List (String × Tag)

/-- The handles that every document has. -/
def defaultHandles : Handles := [("!", .localSign), ("!!", .standardLeading)]

/-- A tag in full. -/
def fullTag (handles : Handles) (handle : String) (suffix : Tag) : Grammar Tag :=
  if handle.isEmpty then pure suffix
  else match handles.lookup handle with
    | some leading => pure (leading.append suffix)
    | none => failure

/-- Bind a name to the next number. -/
def bind (name : String) : Grammar Nat := do
  let anchors := (← get).anchors
  let number := anchors.length
  let rest := anchors.filter fun a => a.1 ≠ name
  modify fun r => { r with anchors := (name, number) :: rest }
  return number

/-- The anchor and the tag in front of a node, in either order. -/
def properties (handles : Handles) : Grammar Properties := do
  match (← get).tokens with
  | .anchor name :: .tag handle suffix :: _ | .tag handle suffix :: .anchor name :: _ =>
    skip
    skip
    let tag ← fullTag handles handle suffix
    return ⟨some (← bind name), some tag⟩
  | .anchor name :: _ =>
    skip
    return ⟨some (← bind name), none⟩
  | .tag handle suffix :: _ =>
    skip
    return ⟨none, some (← fullTag handles handle suffix)⟩
  | _ => return .none

/-- A node where a token other than the given ones follows, an empty scalar otherwise. -/
def unlessNext (stop : List Token) (node : Grammar Tree) : Grammar Tree := do
  match ← peek with
  | some token => if token ∈ stop then pure (.empty .none) else node
  | none => node

/-- A value after its mark, an empty scalar without the mark. -/
def valueOr (stop : List Token) (node : Grammar Tree) : Grammar Tree := do
  if (← peek) = some .value then
    skip
    unlessNext stop node
  else return .empty .none

/-! ### Block collections -/

/-- The items of a block sequence up to its end. -/
def blockItems (node : Grammar Tree) : Nat → Grammar (List Tree)
  | 0 => failure
  | fuel + 1 => do
    match ← peek with
    | some .blockEntry =>
      skip
      let item ← unlessNext [.blockEntry, .blockEnd] node
      return item :: (← blockItems node fuel)
    | some .blockEnd =>
      skip
      return []
    | _ => failure

/-- The items of a sequence that stands at the column of its key. -/
def indentlessItems (node : Grammar Tree) : Nat → Grammar (List Tree)
  | 0 => failure
  | fuel + 1 => do
    if (← peek) = some .blockEntry then
      skip
      let item ← unlessNext [.blockEntry, .key, .value, .blockEnd] node
      return item :: (← indentlessItems node fuel)
    else return []

/-- The entries of a block mapping up to its end. -/
def blockEntries (node : Grammar Tree) : Nat → Grammar (List (Tree × Tree))
  | 0 => failure
  | fuel + 1 => do
    match ← peek with
    | some .key =>
      skip
      let key ← unlessNext [.key, .value, .blockEnd] node
      let value ← valueOr [.key, .value, .blockEnd] node
      return (key, value) :: (← blockEntries node fuel)
    | some .blockEnd =>
      skip
      return []
    | _ => failure

/-! ### Flow collections -/

/-- The comma before every member of a flow collection but the first. -/
def separator (first : Bool) : Grammar Unit := do
  if first then return
  else if (← peek) = some .flowEntry then skip
  else failure

/-- The one entry of a mapping that stands as an item of a flow sequence.  A key that is left out
takes the token after it along. -/
def flowPair (node : Grammar Tree) : Grammar Tree := do
  let stop := [Token.value, .flowEntry, .flowSequenceEnd]
  let key ←
    match ← peek with
    | some token => if token ∈ stop then (do skip; pure (Tree.empty .none)) else node
    | none => node
  let value ← valueOr [.flowEntry, .flowSequenceEnd] node
  return .mapping .none [(key, value)]

/-- The items of a flow sequence up to its end. -/
def flowItems (node : Grammar Tree) (first : Bool) : Nat → Grammar (List Tree)
  | 0 => failure
  | fuel + 1 => do
    if (← peek) = some .flowSequenceEnd then
      skip
      return []
    separator first
    match ← peek with
    | some .flowSequenceEnd =>
      skip
      return []
    | some .key =>
      skip
      let item ← flowPair node
      return item :: (← flowItems node false fuel)
    | _ =>
      let item ← node
      return item :: (← flowItems node false fuel)

/-- The entries of a flow mapping up to its end. -/
def flowEntries (node : Grammar Tree) (first : Bool) : Nat → Grammar (List (Tree × Tree))
  | 0 => failure
  | fuel + 1 => do
    if (← peek) = some .flowMappingEnd then
      skip
      return []
    separator first
    match ← peek with
    | some .flowMappingEnd =>
      skip
      return []
    | some .key =>
      skip
      let key ← unlessNext [.value, .flowEntry, .flowMappingEnd] node
      let value ← valueOr [.flowEntry, .flowMappingEnd] node
      return (key, value) :: (← flowEntries node false fuel)
    | _ =>
      let key ← node
      return (key, .empty .none) :: (← flowEntries node false fuel)

/-! ### Nodes -/

/-- Where a node stands. -/
inductive Position where
  /-- Inside a flow collection. -/
  | flow
  /-- In a block, where a collection needs a column of its own. -/
  | block
  /-- After a key or a value mark of a block mapping, where a sequence does not. -/
  | entry
deriving DecidableEq, Repr

/-- The collection that starts with a token. -/
def collection? (node : Position → Grammar Tree) (fuel : Nat) (position : Position)
    (p : Properties) (token : Token) : Option (Grammar Tree) :=
  match token with
  | .flowSequenceStart => some do
    skip
    return .sequence p (← flowItems (node .flow) true fuel)
  | .flowMappingStart => some do
    skip
    return .mapping p (← flowEntries (node .flow) true fuel)
  | .blockSequenceStart =>
    if position = .flow then none
    else some do
      skip
      return .sequence p (← blockItems (node .block) fuel)
  | .blockMappingStart =>
    if position = .flow then none
    else some do
      skip
      return .mapping p (← blockEntries (node .entry) fuel)
  | .blockEntry =>
    if position = .entry then some do
      return .sequence p (← indentlessItems (node .block) fuel)
    else none
  | _ => none

/-- A node, given the collections that may start here.  Properties alone are a node too. -/
def nodeWith (handles : Handles) (collection? : Properties → Token → Option (Grammar Tree)) :
    Grammar Tree := do
  match ← peek with
  | some (.reference name) =>
    match (← get).anchors.lookup name with
    | some number =>
      skip
      return .reference number
    | none => failure
  | _ =>
    let p ← properties handles
    match ← peek with
    | some (.scalar text plain) =>
      skip
      return .scalar p text plain
    | next =>
      match next.bind (collection? p) with
      | some collection => collection
      | none => if p = .none then failure else return .empty p

/-- A node in which collections nest at most `depth` deep. -/
def node (handles : Handles) (fuel : Nat) : Nat → Position → Grammar Tree
  | 0, _ => nodeWith handles fun _ _ => none
  | depth + 1, position =>
    nodeWith handles (collection? (node handles fuel depth) fuel position)

/-! ### Documents -/

/-- The handles that the directives in front of a document declare. -/
def directives (handles : Handles) (versioned : Bool) : Nat → Grammar Handles
  | 0 => failure
  | fuel + 1 => do
    match ← peek with
    | some (.versionDirective major minor) =>
      if versioned || major ≠ 1 || (minor ≠ 1 && minor ≠ 2) then failure
      else
        skip
        directives handles true fuel
    | some (.tagDirective handle leading) =>
      if (handles.lookup handle).isSome then failure
      else
        skip
        directives ((handle, leading) :: handles) versioned fuel
    | _ => return handles ++ defaultHandles

/-- Whether a token ends a document that holds nothing. -/
def endsDocument : Option Token → Bool
  | none | some .documentStart | some .documentEnd => true
  | some (.versionDirective _ _) | some (.tagDirective _ _) => true
  | _ => false

/-- The contents of a document that starts with directives or a mark. -/
def announced (depth fuel : Nat) : Grammar Tree := do
  let handles ← directives [] false fuel
  if (← peek) = some .documentStart then
    skip
    if endsDocument (← peek) then return .empty .none
    else node handles fuel depth .block
  else failure

/-- The document of a text that holds anything. -/
def document (depth fuel : Nat) : Grammar Tree := do
  match ← peek with
  | some .documentStart | some (.versionDirective _ _) | some (.tagDirective _ _) =>
    announced depth fuel
  | _ => node defaultHandles fuel depth .block

end Grammar

/-- The one document of a list of tokens, in which collections nest at most `depth` deep. -/
def Tree.ofTokens? (depth : Nat) (tokens : List Token) : Option Tree :=
  match tokens with
  | [] => some (.empty .none)
  | tokens =>
    match (Grammar.document depth (tokens.length + 1)).run ⟨tokens, []⟩ with
    | some (tree, reading) =>
      if reading.tokens.all fun token => token = .documentEnd then some tree else none
    | none => none

end HvacModel.Yaml

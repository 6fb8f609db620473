import HvacModel.NameIndex
import HvacModel.Document.Basic

/-! # The component arena

All components of a document, those owned by others too, stand in one list, each owner directly
before the components that it owns.  The position of a component is its handle.  `Arena.names`
binds the names of the components that nobody owns; each component has a scope that binds the names
of the components it owns.

`Arena.add` puts a component in with everything below it, or refuses it as a whole: when its name
is bound already, or when two components of one owner below it share a name. -/

namespace HvacModel

/-- A component in the arena. -/
structure ComponentNode where
  id : Handle .component
  name : String
  /-- The names from the outermost owner inwards, joined by points. -/
  path : String
  type : ObjectType
  attributes : Attributes
  owner : Option (Handle .component)
  subComponents : List (Handle .component)
deriving DecidableEq

namespace ComponentNode

instance : Inhabited ComponentNode := ⟨⟨⟨0⟩, "", "", default, default, none, []⟩⟩

/-- A node as a raw value. -/
def encode (n : ComponentNode) : Value :=
  .object [("id", n.id.encode), ("name", .string n.name), ("path", .string n.path),
    ("object_type", .string n.type.name), ("attributes", n.attributes.encode),
    ("owner", .ofOption Handle.encode n.owner),
    ("sub_components", .ofList Handle.encode n.subComponents)]

end ComponentNode

/-- A name that is bound already, and the scope that binds it. -/
structure DuplicateName where
  scope : String
  name : String
deriving DecidableEq, Repr

def DuplicateName.message (d : DuplicateName) : String :=
  "duplicate name '" ++ d.name ++ "' in " ++ d.scope

/-- A component of the arena with the names that it owns. -/
structure Arena.Slot where
  node : ComponentNode
  scope : NameIndex .component
deriving DecidableEq

/-- All components of a document. -/
structure Arena where
  slots : List Arena.Slot
  names : NameIndex .component
deriving DecidableEq

open Document (Component)

namespace Document.Component

mutual

/-- The number of components in a definition, itself included. -/
def count : Component → Nat
  | .mk _ _ _ subs => countList subs + 1

def countList : List Component → Nat
  | [] => 0
  | c :: rest => count c + countList rest

end

mutual

/-- The first repeated name among the components of one owner, searched in the order of the
definition. -/
def repeatedName? (path : String) : Component → Option DuplicateName
  | .mk _ _ _ subs => repeatedNameIn? path [] subs

/-- The search among the components of one owner after those of the given names. -/
def repeatedNameIn? (path : String) (seen : List String) : List Component → Option DuplicateName
  | [] => none
  | c :: rest =>
    if c.name ∈ seen then some ⟨"sub_components of '" ++ path ++ "'", c.name⟩
    else (repeatedName? (path ++ "." ++ c.name) c).or (repeatedNameIn? path (c.name :: seen) rest)

end

/-- The handles of components laid out one after the other from a position on. -/
def handlesFrom (first : Nat) : List Component → List (Handle .component)
  | [] => []
  | c :: rest => ⟨first⟩ :: handlesFrom (first + c.count) rest

/-- The scope of components laid out one after the other from a position on. -/
def scopeFrom (first : Nat) (scope : NameIndex .component) :
    List Component → NameIndex .component
  | [] => scope
  | c :: rest =>
    scopeFrom (first + c.count) ((scope.insertNew c.name ⟨first⟩).toOption.getD scope) rest

mutual

/-- The slots of a definition from a position on: the component first, then what it owns. -/
def layout (first : Nat) (owner : Option (Handle .component)) (path : String) :
    Component → List Arena.Slot
  | .mk name type attributes subs =>
    { node :=
        { id := ⟨first⟩
          name := name
          path := path
          type := type
          attributes := attributes
          owner := owner
          subComponents := handlesFrom (first + 1) subs }
      scope := scopeFrom (first + 1) .empty subs } ::
    layoutList (first + 1) ⟨first⟩ path subs

/-- The slots of the components of one owner, one after the other. -/
def layoutList (first : Nat) (owner : Handle .component) (path : String) :
    List Component → List Arena.Slot
  | [] => []
  | c :: rest =>
    layout first (some owner) (path ++ "." ++ c.name) c ++
      layoutList (first + c.count) owner path rest

end

end Document.Component

namespace Arena

def empty : Arena := ⟨[], .empty⟩

instance : Inhabited Arena := ⟨empty⟩

/-- The components in the order of their handles. -/
def nodes (a : Arena) : List ComponentNode := a.slots.map Slot.node

/-- The scopes in the order of the handles. -/
def scopes (a : Arena) : List (NameIndex .component) := a.slots.map Slot.scope

def size (a : Arena) : Nat := a.slots.length

def node? (a : Arena) (id : Handle .component) : Option ComponentNode :=
  a.slots[id.index]?.map Slot.node

/-- Put in a component with everything below it. -/
def add (a : Arena) (c : Component) : Except DuplicateName (Arena × Handle .component) :=
  if a.names.contains c.name then .error ⟨"hvac_components", c.name⟩
  else match c.repeatedName? c.name with
  | some repeated => .error repeated
  | none =>
    .ok (⟨a.slots ++ c.layout a.size none c.name, a.names.insert c.name ⟨a.size⟩⟩, ⟨a.size⟩)

/-! ### Lookup -/

/-- The component of a name that nobody owns. -/
def global? (a : Arena) (name : String) : Option (Handle .component) := a.names.find? name

/-- A name as a component sees it: one of its own first, then one that nobody owns. -/
def inScope? (a : Arena) (owner : Handle .component) (name : String) :
    Option (Handle .component) :=
  (a.slots[owner.index]?.bind fun slot => slot.scope.find? name).or (a.global? name)

/-- The segments of a reference between its points. -/
def segments (reference : List Char) : List (List Char) :=
  match reference with
  | [] => [[]]
  | c :: rest =>
    if c = '.' then [] :: segments rest
    else match segments rest with
      | [] => [[c]]
      | first :: more => (c :: first) :: more

/-- The component that a reference names: the first segment is a name that nobody owns, every
further one a name as the component before it sees it. -/
def resolve? (a : Arena) (reference : String) : Option (Handle .component) :=
  match (segments reference.toList).map String.ofList with
  | [] => none
  | first :: rest => rest.foldl (fun found name => found.bind fun id => a.inScope? id name)
      (a.global? first)

/-- Change the attributes of every component. -/
def mapAttributes (a : Arena) (f : ComponentNode → Attributes) : Arena :=
  { a with slots := a.slots.map fun s => { s with node := { s.node with attributes := f s.node } } }

/-- The components as a raw array. -/
def encode (a : Arena) : Value := .ofList ComponentNode.encode a.nodes

end Arena

end HvacModel

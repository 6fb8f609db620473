import HvacModel.NameMap
import HvacModel.Handle

/-! # Name indexes

A `NameIndex` binds the names of one table to handles.  A name that is bound keeps its handle:
inserting it again fails and says what it is bound to.  `NameIndex.ofNames` indexes a table in its
order and lists every later occurrence of a name. -/

namespace HvacModel

/-- Names bound to the handles of a table. -/
abbrev NameIndex (entity : Entity) := NameMap (Handle entity)

namespace NameIndex

variable {entity : Entity}

/-- Bind a new name, or give the handle that the name is bound to. -/
def insertNew (index : NameIndex entity) (name : String) (handle : Handle entity) :
    Except (Handle entity) (NameIndex entity) :=
  match index.find? name with
  | some bound => .error bound
  | none => .ok (index.insert name handle)

/-- Bind the names of a list to the positions from `first` on; the names that were bound before
are returned. -/
def bindFrom (index : NameIndex entity) (first : Nat) : List String →
    NameIndex entity × List String
  | [] => (index, [])
  | name :: rest =>
    match index.insertNew name ⟨first⟩ with
    | .ok extended => bindFrom extended (first + 1) rest
    | .error _ =>
      let (final, repeated) := bindFrom index (first + 1) rest
      (final, name :: repeated)

/-- The index of a table and the repeated occurrences of names. -/
def ofNames (names : List String) : NameIndex entity × List String := bindFrom .empty 0 names

end NameIndex

end HvacModel

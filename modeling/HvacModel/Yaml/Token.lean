import HvacModel.Yaml.Tag

/-! # Tokens of YAML text

Indentation is part of the tokens: a block collection is opened by a token of its own and closed by
`blockEnd`, whatever text shows it.  The end of the list is the end of the text. -/

namespace HvacModel.Yaml

inductive Token where
  | versionDirective (major minor : Nat)
  /-- A short handle for the beginning of tags. -/
  | tagDirective (handle : String) (leading : Tag)
  | documentStart
  | documentEnd
  | blockSequenceStart
  | blockMappingStart
  | blockEnd
  | flowSequenceStart
  | flowSequenceEnd
  | flowMappingStart
  | flowMappingEnd
  | blockEntry
  | flowEntry
  | key
  | value
  | reference (name : String)
  | anchor (name : String)
  | tag (handle : String) (suffix : Tag)
  /-- A scalar, with whether it stands without quotes and outside a block scalar. -/
  | scalar (text : String) (plain : Bool)
deriving DecidableEq, Repr

end HvacModel.Yaml

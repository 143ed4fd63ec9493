import EndpointTree.Yaml.Tag

/-!
# Tokens

The tokens of a text tell where collections, entries, keys and values begin and
end. In block structure the beginnings and ends come from columns, in flow
structure from brackets.
-/

namespace EndpointTree.Yaml

/-- A token of a text. -/
inductive Token where
  | directive (d : Directive)
  | documentStart
  | documentEnd
  | textEnd
  | blockSequence
  | blockMapping
  | blockEnd
  | flowSequence
  | flowSequenceEnd
  | flowMapping
  | flowMappingEnd
  /-- The dash of an item. -/
  | item
  /-- The comma of flow structure. -/
  | comma
  | key
  | value
  | alias (name : String)
  | anchor (name : String)
  | tag (handle : String) (text : List UInt8)
  | scalar (plain : Bool) (text : String)

end EndpointTree.Yaml

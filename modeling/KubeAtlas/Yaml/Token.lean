/-!
# Tokens

A document is first divided into the words it is made of. Where a block collection begins and ends
is a token too, found from the indentation, and so is the key of a mapping, which is only known to
be one when the colon after it has been reached.
-/

namespace KubeAtlas.Yaml

inductive Directive where
  | yaml (major minor : Nat)
  | tag (handle uri : String)
  | other
deriving DecidableEq, Repr

inductive Token where
  | directive (d : Directive)
  | documentStart
  | documentEnd
  | streamEnd
  | blockSequenceStart
  | blockMappingStart
  | blockEnd
  | flowSequenceStart
  | flowSequenceEnd
  | flowMappingStart
  | flowMappingEnd
  | blockEntry
  | flowEntry
  | key
  | value
  | alias (name : String)
  | anchor (name : String)
  /-- A tag, with the handle it begins with unless it is written out. -/
  | tag (handle : Option String) (suffix : String)
  /-- A scalar; a plain one has no quotes and is no block. -/
  | scalar (text : String) (plain : Bool)
deriving DecidableEq, Repr

end KubeAtlas.Yaml

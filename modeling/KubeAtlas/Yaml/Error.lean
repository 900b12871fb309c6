/-!
# What can be wrong with a YAML document

Two different things go wrong. A document may not be YAML, or use a construct that has no value
here; that is an `Error`, found in reading the characters, the tokens, the structure or the tags. Or
a scalar may be tagged, explicitly or by its form, as something that its text is not; that is a
`Fault` of the one scalar. The two are kept apart because the surroundings treat them differently.

Errors have one short text in messages. Which construct is at fault is in the constructor.
-/

namespace KubeAtlas.Yaml

inductive Error where
  | encoding
  /-- A control character, a surrogate or a noncharacter. -/
  | character (c : Char)
  | directive
  | anchorName
  | tagName
  | blockHeader
  | escape
  | unfinishedScalar
  | separatorInScalar
  | keyWithoutValue
  | misplacedEntry
  | misplacedKey
  | misplacedValue
  | unknownToken
  | documentStart
  | repeatedDirective
  | version
  | unknownHandle
  | missingNode
  | unfinishedBlock
  | unfinishedSequence
  | unfinishedMapping
  | unknownAlias
  | repeatedAnchor
  | severalDocuments
  | unknownTag
  | notScalar
  | notSequence
  | notMapping
  | unusableKey
  | merge
  | binary
  | pairs
  | unrepresentable
deriving DecidableEq, Repr

def Error.message (_ : Error) : String := "<yaml error>"

inductive Fault where
  | truth
  /-- A number, date or offset out of its range or not in its form. -/
  | number
  | emptyNumber
  | dateForm
  | dateKind
  | codePoint
  | overflow
  /-- A mapping that stands, by its key `=`, for itself. -/
  | endless
deriving DecidableEq, Repr

inductive Failure where
  | malformed (e : Error)
  | fault (f : Fault)
deriving DecidableEq, Repr

end KubeAtlas.Yaml

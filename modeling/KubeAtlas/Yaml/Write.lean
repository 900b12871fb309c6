import KubeAtlas.Yaml.Page
import KubeAtlas.Yaml.Shape
/-!
# Writing a document

Collections are written as blocks, empty ones in brackets. A key is written in front of its colon if
it is short and has one line; any other key is introduced by a question mark. The items of a
sequence stand at the indentation of the key that the sequence belongs to. A tag is written where
the text alone would be taken for something else.
-/

namespace KubeAtlas.Yaml

def Tag.short (t : Tag) : List Char :=
  match Tag.names.find? fun e => e.2 == t with
  | some (name, _) => '!' :: '!' :: name.toList
  | none => ['!']

/-- The size that a node takes as a key before the colon, `none` if it cannot stand there. -/
def Shape.keySize? : Shape → Option Nat
  | .alias name => some name.length
  | .scalar anchor tag _ text =>
    if text.isEmpty || Style.isMultiline text.toList then none
    else some ((anchor.map String.length).getD 0 + tag.short.length + text.length)
  | .sequence anchor [] => some ((anchor.map String.length).getD 0 + Tag.seq.short.length)
  | .mapping anchor tag [] => some ((anchor.map String.length).getD 0 + tag.short.length)
  | .sequence _ _ | .mapping _ _ _ => none

def Shape.isSimpleKey (s : Shape) : Bool := s.keySize?.any (· < 128)

namespace Page

def anchor (p : Page) : Option String → Page
  | some name => p.word ('&' :: name.toList)
  | none => p

/-- The indentation inside a node; that of the document itself is none. -/
def deeper : Option Nat → Nat
  | none => 0
  | some n => n + 2

structure Place where
  indent : Option Nat
  inMapping : Bool
  simpleKey : Bool

mutual

def node (p : Page) (place : Place) : Shape → Page
  | .alias name => p.word ('*' :: name.toList)
  | .scalar anchor tag block text =>
    let byForm := Tag.ofForm text == tag
    let style := Style.choose block byForm place.simpleKey text.toList
    let p := p.anchor anchor
    let p := if style == .plain || tag == .str then p else p.word tag.short
    let column := match place.indent with
      | none => 2
      | some n => n + 2
    p.scalar style column (!place.simpleKey) text.toList
  | .sequence anchor [] => (p.anchor anchor).word ['[', ']']
  | .sequence anchor items =>
    let p := p.anchor anchor
    let column := if place.inMapping && !p.fresh then place.indent.getD 0 else deeper place.indent
    p.items column items
  | .mapping anchor tag entries =>
    let p := p.anchor anchor
    let p := if tag == .map then p else p.word tag.short
    match entries with
    | [] => p.word ['\x7b', '\x7d']
    | entries => p.entries (deeper place.indent) entries

def items (p : Page) (column : Nat) : List Shape → Page
  | [] => p
  | item :: rest =>
    let p := (p.indent column).mark ['-']
    (p.node ⟨some column, false, false⟩ item).items column rest

def entries (p : Page) (column : Nat) : List (Shape × Shape) → Page
  | [] => p
  | (key, value) :: rest =>
    let p := p.indent column
    let p :=
      if key.isSimpleKey then (p.node ⟨some column, true, true⟩ key).close [':']
      else
        let p := (p.mark ['?']).node ⟨some column, true, false⟩ key
        (p.indent column).mark [':']
    (p.node ⟨some column, true, false⟩ value).entries column rest

end

end Page

def Shape.render (s : Shape) : String :=
  String.ofList ((Page.start.node ⟨none, false, false⟩ s).indent 0).out.reverse

def write (g : Graph) (v : Value) : Except Failure String := do
  pure (← Shape.ofGraph g v).render

end KubeAtlas.Yaml

import KubeAtlas.Yaml.Event
import KubeAtlas.Yaml.Tag
/-!
# The nodes of a document

A document is a graph of nodes: an alias is a second way to the node that its anchor names, and a
node may be reached from inside itself. Nodes are numbered in the order in which they begin, and a
collection is made of the numbers of its nodes.

`Document.read` builds the nodes from the events, keeping the collections that are open on a stack.
A stream holds one document or none.
-/

namespace KubeAtlas.Yaml

inductive Content where
  | scalar (text : String)
  | sequence (items : List Nat)
  | mapping (entries : List (Nat × Nat))
deriving Repr, Inhabited

structure Node where
  tag : Tag
  content : Content
deriving Repr, Inhabited

structure Document where
  nodes : Array Node
  root : Nat

/-- A collection whose end has not been reached: its nodes so far, in reverse. -/
inductive Frame where
  | sequence (id : Nat) (items : List Nat)
  | mapping (id : Nat) (entries : List (Nat × Nat))
  | key (id : Nat) (entries : List (Nat × Nat)) (key : Nat)

structure Composition where
  nodes : Array Node
  anchors : List (String × Nat)
  frames : List Frame
  root : Option Nat

namespace Composition

open Quoted (malformed)

def start : Composition := ⟨#[], [], [], none⟩

def place (c : Composition) (id : Nat) : Composition :=
  match c.frames with
  | [] => { c with root := some id }
  | .sequence s items :: rest => { c with frames := .sequence s (id :: items) :: rest }
  | .mapping m entries :: rest => { c with frames := .key m entries id :: rest }
  | .key m entries key :: rest => { c with frames := .mapping m ((key, id) :: entries) :: rest }

/-- Takes a number for a node that begins. Two nodes of a document cannot have one name. -/
def enter (c : Composition) (p : Properties) (node : Node) : Except Failure (Nat × Composition) :=
  let id := c.nodes.size
  let c := { c with nodes := c.nodes.push node }
  match p.anchor with
  | none => pure (id, c)
  | some name =>
    if c.anchors.any (·.1 == name) then malformed .repeatedAnchor
    else pure (id, { c with anchors := (name, id) :: c.anchors })

/-- The tag of a node, given the one that its own form asks for. -/
def tagOf (p : Properties) (byForm : Tag) : Tag :=
  match p.tag with
  | none | some "!" => byForm
  | some name => Tag.ofName name

def close (c : Composition) : Composition :=
  match c.frames with
  | .sequence id items :: rest =>
    let nodes := c.nodes.modify id fun n => { n with content := .sequence items.reverse }
    place { c with frames := rest, nodes := nodes } id
  | .mapping id entries :: rest | .key id entries _ :: rest =>
    let nodes := c.nodes.modify id fun n => { n with content := .mapping entries.reverse }
    place { c with frames := rest, nodes := nodes } id
  | [] => c

def step (c : Composition) : Event → Except Failure Composition
  | .documentStart => if c.root.isSome then malformed .severalDocuments else pure c
  | .documentEnd | .streamEnd => pure c
  | .alias name =>
    match c.anchors.find? (·.1 == name) with
    | some (_, id) => pure (c.place id)
    | none => malformed .unknownAlias
  | .scalar p byForm text => do
    let form := if byForm then Tag.ofForm text else .str
    let (id, c) ← c.enter p ⟨tagOf p form, .scalar text⟩
    pure (c.place id)
  | .sequenceStart p => do
    let (id, c) ← c.enter p ⟨tagOf p .seq, .sequence []⟩
    pure { c with frames := .sequence id [] :: c.frames }
  | .mappingStart p => do
    let (id, c) ← c.enter p ⟨tagOf p .map, .mapping []⟩
    pure { c with frames := .mapping id [] :: c.frames }
  | .sequenceEnd | .mappingEnd => pure c.close

end Composition

def Document.read (events : EventRun) : Except Failure (Option Document) := do
  let c ← events.events.foldlM Composition.step Composition.start
  match events.error with
  | some e => throw e
  | none => pure (c.root.map fun root => ⟨c.nodes, root⟩)

end KubeAtlas.Yaml

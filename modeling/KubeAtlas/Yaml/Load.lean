import KubeAtlas.Graph.Basic
import KubeAtlas.Yaml.Node
import KubeAtlas.Yaml.Reading
import KubeAtlas.Yaml.Source
/-!
# Reading a document

From nodes to values. Every node becomes one value however often it is reached: a collection takes
its cell first and is filled later, in the order in which collections are met, so that a collection
can hold itself. The first error in that order is the error of the document.

Before a mapping is filled, the mappings that it merges are put in front of its own entries.

A document may be nested to any depth. A host that recurses gives up at some depth of its own; that
limit is not kept to here, neither in reading nor in writing.
-/

namespace KubeAtlas.Yaml

structure Building where
  nodes : Array Node
  /-- The value of each node that has one. -/
  values : Array (Option Value)
  graph : Graph
  /-- Collections to be filled, as node and cell, the last first. -/
  waiting : List (Nat × Nat)
  /-- The number of entries that merge. No new ones arise, so merging goes at most this deep. -/
  merges : Nat

namespace Building

open Quoted (malformed)

def node (nodes : Array Node) (id : Nat) : Node := nodes.getD id default

def entries (nodes : Array Node) (id : Nat) : List (Nat × Nat) :=
  match (node nodes id).content with
  | .mapping es => es
  | _ => []

def setEntries (nodes : Array Node) (id : Nat) (es : List (Nat × Nat)) : Array Node :=
  nodes.modify id fun n => { n with content := .mapping es }

def mergeCount (nodes : Array Node) : Nat :=
  (List.range nodes.size).foldl (fun count id =>
    count + ((entries nodes id).filter fun e => (node nodes e.1).tag == .merge).length) 0

mutual

/-- Goes through the entries of a mapping from an index on, takes out those that merge, and at the
end puts what they bring in front. A mapping to be merged is made free of merges first. The key `=`
becomes text. -/
def flattenFrom (depth : Nat) (nodes : Array Node) (id index : Nat) (merged : List (Nat × Nat)) :
    Nat → Except Failure (Array Node)
  | 0 => pure nodes
  | steps + 1 =>
    let es := entries nodes id
    match es[index]? with
    | none => pure (if merged.isEmpty then nodes else setEntries nodes id (merged ++ es))
    | some (k, v) =>
      match (node nodes k).tag with
      | .merge =>
        match depth with
        | 0 => pure nodes
        | depth + 1 =>
          let nodes := setEntries nodes id (es.eraseIdx index)
          match (node nodes v).content with
          | .mapping inner => do
            let nodes ← flattenFrom depth nodes v 0 [] (inner.length + 1)
            let merged := merged ++ entries nodes v
            flattenFrom depth nodes id index merged ((entries nodes id).length + 1)
          | .sequence items => do
            let (nodes, parts) ← flattenAll depth nodes items
            let merged := merged ++ parts.flatten
            flattenFrom depth nodes id index merged ((entries nodes id).length + 1)
          | .scalar _ => malformed .merge
      | .value =>
        let nodes := nodes.modify k fun n => { n with tag := .str }
        flattenFrom depth nodes id (index + 1) merged steps
      | _ => flattenFrom depth nodes id (index + 1) merged steps
termination_by steps => (depth, 0, steps)

/-- Makes several mappings free of merges; the entries of each, the last mapping's first. -/
def flattenAll (depth : Nat) (nodes : Array Node) :
    List Nat → Except Failure (Array Node × List (List (Nat × Nat)))
  | [] => pure (nodes, [])
  | id :: rest =>
    match (node nodes id).content with
    | .mapping inner => do
      let nodes ← flattenFrom depth nodes id 0 [] (inner.length + 1)
      let own := entries nodes id
      let (nodes, parts) ← flattenAll depth nodes rest
      pure (nodes, parts ++ [own])
    | _ => malformed .merge
termination_by items => (depth, 1, items.length)

end

def flatten (merges : Nat) (nodes : Array Node) (id : Nat) : Except Failure (Array Node) :=
  flattenFrom merges nodes id 0 [] ((entries nodes id).length + 1)

/-- The text of a scalar. A mapping with the key `=` stands for the value under it. A way down that
is longer than there are nodes meets a node twice and has no end. -/
def scalarText (nodes : Array Node) : Nat → Nat → Except Failure String
  | 0, _ => throw (.fault .endless)
  | fuel + 1, id =>
    match (node nodes id).content with
    | .scalar text => pure text
    | .sequence _ => malformed .notScalar
    | .mapping es =>
      match es.find? fun e => (node nodes e.1).tag == .value with
      | some (_, v) => scalarText nodes fuel v
      | none => malformed .notScalar

def scalar (b : Building) (id : Nat) (tag : Tag) : Except Failure (Value × Building) := do
  let text ← scalarText b.nodes (b.nodes.size + 1) id
  let s := text.toList
  let leaf := fun (v : Scalar) => (Value.leaf (.scalar v), b)
  match tag with
  | .null => pure (leaf .null)
  | .bool => pure (leaf (.bool (← Reading.bool s)))
  | .int => pure (leaf (.int (← Reading.int s)))
  | .float => pure (leaf (.float (← Reading.float s)))
  | .binary => pure (leaf (.bytes (← Reading.binary s)))
  | .timestamp =>
    match (node b.nodes id).content with
    | .scalar _ =>
      let (mark, graph) := b.graph.alloc .mark
      let b := { b with graph := graph }
      match ← Reading.timestamp s with
      | .date d => pure (.leaf (.date mark d), b)
      | .moment m => pure (.leaf (.moment mark m), b)
    | _ => throw (.fault .dateKind)
  | .str => pure (leaf (.str text))
  | _ => malformed .unknownTag

def collection (b : Building) (id : Nat) (c : Cell) : Value × Building :=
  let (cell, graph) := b.graph.alloc c
  (.ref cell, { b with graph := graph, waiting := (id, cell) :: b.waiting })

def value (b : Building) (id : Nat) : Except Failure (Value × Building) :=
  match b.values.getD id none with
  | some v => pure (v, b)
  | none => do
    let tag := (node b.nodes id).tag
    let (v, b) ← (match tag with
      | .seq | .omap | .pairs => pure (b.collection id (.list []))
      | .map => pure (b.collection id (.map []))
      | .set => pure (b.collection id (.set []))
      | tag => b.scalar id tag)
    pure (v, { b with values := b.values.setIfInBounds id (some v) })

def several (b : Building) : List Nat → Except Failure (List Value × Building)
  | [] => pure ([], b)
  | id :: rest => do
    let (v, b) ← b.value id
    let (vs, b) ← b.several rest
    pure (v :: vs, b)

/-- The labels and values of entries. A collection cannot be a key. -/
def table (b : Building) : List (Nat × Nat) → Except Failure (List (Label × Value) × Building)
  | [] => pure ([], b)
  | (k, v) :: rest => do
    let (key, b) ← b.value k
    match key with
    | .ref _ => malformed .unusableKey
    | .leaf l =>
      let (v, b) ← b.value v
      let (es, b) ← b.table rest
      pure ((l, v) :: es, b)

/-- The pairs of a sequence of mappings with one entry each. -/
def pairs (b : Building) : List Nat → Except Failure (List Value × Building)
  | [] => pure ([], b)
  | id :: rest =>
    match (node b.nodes id).content with
    | .mapping [(k, v)] => do
      let (k, b) ← b.value k
      let (v, b) ← b.value v
      let (cell, graph) := b.graph.alloc (.tuple [k, v])
      let (vs, b) ← { b with graph := graph }.pairs rest
      pure (.ref cell :: vs, b)
    | _ => malformed .pairs

def mapping (b : Building) (id : Nat) : Except Failure (List (Label × Value) × Building) :=
  match (node b.nodes id).content with
  | .mapping _ => do
    let nodes ← flatten b.merges b.nodes id
    let (es, b) ← { b with nodes := nodes }.table (entries nodes id)
    pure (Table.ofList es, b)
  | _ => malformed .notMapping

def fill (b : Building) (id cell : Nat) : Except Failure Building := do
  let node := node b.nodes id
  let (contents, b) ← (match node.tag, node.content with
    | .map, _ => do let (es, b) ← b.mapping id; pure (Cell.map es, b)
    | .set, _ => do let (es, b) ← b.mapping id; pure (Cell.set (es.map (·.1)), b)
    | .seq, .sequence items => do let (vs, b) ← b.several items; pure (Cell.list vs, b)
    | .seq, _ => malformed .notSequence
    | _, .sequence items => do let (vs, b) ← b.pairs items; pure (Cell.list vs, b)
    | _, _ => malformed .pairs)
  pure { b with graph := b.graph.set cell contents }

def fillAll (b : Building) : List (Nat × Nat) → Except Failure Building
  | [] => pure b
  | (id, cell) :: rest => do (← b.fill id cell).fillAll rest

/-- Fills collections round by round: those met while filling a round are the next. -/
def fillRounds : Nat → Building → Except Failure Building
  | 0, b => pure b
  | fuel + 1, b => do
    if b.waiting.isEmpty then pure b
    else fillRounds fuel (← { b with waiting := [] }.fillAll b.waiting.reverse)

end Building

/-- The value of a document. No node waits twice, so there are at most as many rounds as nodes. -/
def Document.value (d : Document) : Except Failure (Value × Graph) := do
  let b : Building := ⟨d.nodes, Array.replicate d.nodes.size none, Graph.empty, [],
    Building.mergeCount d.nodes⟩
  let (v, b) ← b.value d.root
  let b ← Building.fillRounds (d.nodes.size + 1) b
  pure (v, b.graph)

def loadChars (s : List Char) : Except Failure (Value × Graph) := do
  match ← Document.read (Event.read (Token.read s)) with
  | some d => d.value
  | none => pure (.null, Graph.empty)

def loadText (s : List Char) : Except Failure (Value × Graph) :=
  match checkedText s with
  | .ok s => loadChars s
  | .error e => throw (.malformed e)

def loadBytes (bytes : List UInt8) : Except Failure (Value × Graph) :=
  match checkedBytes bytes with
  | .ok s => loadChars s
  | .error e => throw (.malformed e)

end KubeAtlas.Yaml

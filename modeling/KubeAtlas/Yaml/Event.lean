import KubeAtlas.Yaml.Token.Layout
/-!
# The structure of a document

An event is a step of a walk through a document: a scalar, an alias, or the beginning or the end of
a collection, of the document or of the stream. `Event.read` finds the events of a run of tokens.
What may come next is a stack of goals; each step takes the goal on top, looks at the tokens in
front, and puts the goals it leads to in its place.

Values that are left out are empty scalars. Tags are spelt out with the short forms that the
directives of the document give, and `!` alone asks for what a plain scalar would be taken for.
-/

namespace KubeAtlas.Yaml

structure Properties where
  anchor : Option String
  tag : Option String
deriving DecidableEq, Repr

inductive Event where
  | documentStart
  | documentEnd
  | streamEnd
  | alias (name : String)
  /-- A scalar; `byForm` when its text decides what it is. -/
  | scalar (p : Properties) (byForm : Bool) (text : String)
  | sequenceStart (p : Properties)
  | sequenceEnd
  | mappingStart (p : Properties)
  | mappingEnd
deriving DecidableEq, Repr

/-- The events of a document, and the error that finding them ended in. -/
structure EventRun where
  events : List Event
  error : Option Failure

inductive Goal where
  /-- The first document, which needs no marker. -/
  | firstDocument
  | document
  | documentEnd
  | content
  /-- A node; `block` where a block collection may be, `indentless` where items may stand at the
  indentation of their key. -/
  | node (block indentless : Bool)
  | blockItem
  | indentlessItem
  | blockKey
  | blockValue
  | flowItem (first : Bool)
  | pairKey
  | pairValue
  | pairEnd
  | flowKey (first : Bool)
  | flowValue
  | flowNoValue
deriving DecidableEq, Repr

def defaultHandles : List (String × String) := [("!", "!"), ("!!", "tag:yaml.org,2002:")]

/-- The short forms that the directives of a document give, the usual ones included. -/
structure Directives where
  versioned : Bool
  handles : List (String × String)

namespace Directives

def add (ds : Directives) : Directive → Except Failure Directives
  | .yaml major _ =>
    if ds.versioned then throw (.malformed .repeatedDirective)
    else if major != 1 then throw (.malformed .version)
    else pure { ds with versioned := true }
  | .tag handle uri =>
    if ds.handles.any (·.1 == handle) then throw (.malformed .repeatedDirective)
    else pure { ds with handles := (handle, uri) :: ds.handles }
  | .other => pure ds

/-- The directives at the front of the tokens, and the tokens after them. -/
def read (ds : Directives) : List Token → Except Failure (Directives × List Token)
  | .directive d :: rest => do read (← ds.add d) rest
  | rest => pure (ds, rest)

end Directives

/-- The tokens that are left, what reading them ended in, what is to come, and the short forms that
hold. -/
structure Outline where
  rest : List Token
  ended : Failure
  goals : List Goal
  handles : List (String × String)

namespace Outline

open Quoted (malformed)

def empty : Event := .scalar ⟨none, none⟩ true ""

abbrev Step := Except Failure (Option Event × Outline)

def emit (o : Outline) (e : Event) (rest : List Token) (goals : List Goal) : Step :=
  pure (some e, { o with rest := rest, goals := goals })

def go (o : Outline) (rest : List Token) (goals : List Goal) : Step :=
  pure (none, { o with rest := rest, goals := goals })

/-- An anchor and a tag, in either order, each at most once. -/
def properties : List Token → Option String × Option (Option String × String) × List Token
  | .anchor a :: .tag h s :: rest => (some a, some (h, s), rest)
  | .anchor a :: rest => (some a, none, rest)
  | .tag h s :: .anchor a :: rest => (some a, some (h, s), rest)
  | .tag h s :: rest => (none, some (h, s), rest)
  | rest => (none, none, rest)

def resolveTag (handles : List (String × String)) :
    Option (Option String × String) → Except Failure (Option String)
  | none => pure none
  | some (none, suffix) => pure (some suffix)
  | some (some handle, suffix) =>
    match handles.find? (·.1 == handle) with
    | some (_, uri) => pure (some (uri ++ suffix))
    | none => malformed .unknownHandle

def node (o : Outline) (block indentless : Bool) (goals : List Goal) : Step :=
  match o.rest with
  | .alias name :: rest => o.emit (.alias name) rest goals
  | [.tag _ _] => throw o.ended
  | tokens => do
    let (anchor, tag, rest) := properties tokens
    let tag ← resolveTag o.handles tag
    let p : Properties := ⟨anchor, tag⟩
    match rest with
    | .blockEntry :: _ =>
      if indentless then o.emit (.sequenceStart p) rest (.indentlessItem :: goals)
      else nothing p rest
    | .scalar text plain :: rest =>
      o.emit (.scalar p ((plain && tag.isNone) || tag == some "!") text) rest goals
    | .flowSequenceStart :: rest => o.emit (.sequenceStart p) rest (.flowItem true :: goals)
    | .flowMappingStart :: rest => o.emit (.mappingStart p) rest (.flowKey true :: goals)
    | .blockSequenceStart :: after =>
      if block then o.emit (.sequenceStart p) after (.blockItem :: goals) else nothing p rest
    | .blockMappingStart :: after =>
      if block then o.emit (.mappingStart p) after (.blockKey :: goals) else nothing p rest
    | [] => throw o.ended
    | _ => nothing p rest
where
  nothing (p : Properties) (rest : List Token) : Step :=
    if p.anchor.isSome || p.tag.isSome then
      o.emit (.scalar p (p.tag.isNone || p.tag == some "!") "") rest goals
    else malformed .missingNode

/-- A node, unless one of the tokens that stand for its absence is in front. -/
def nodeUnless (o : Outline) (absent : Token → Bool) (block indentless : Bool) (rest : List Token)
    (goals : List Goal) : Step :=
  match rest with
  | [] => throw o.ended
  | t :: _ => if absent t then o.emit empty rest goals
    else o.go rest (.node block indentless :: goals)

def document (o : Outline) (goals : List Goal) : Step :=
  match o.rest.dropWhile (· == .documentEnd) with
  | .streamEnd :: rest => o.emit .streamEnd rest []
  | tokens => do
    let (ds, rest) ← Directives.read ⟨false, []⟩ tokens
    let handles := ds.handles ++ defaultHandles
    match rest with
    | .documentStart :: rest =>
      emit { o with handles := handles } .documentStart rest (.content :: .documentEnd :: goals)
    | [] => throw o.ended
    | _ => malformed .documentStart

def step (o : Outline) (goal : Goal) (goals : List Goal) : Step :=
  match goal, o.rest with
  | _, [] => throw o.ended
  | .firstDocument, t :: _ => match t with
    | .directive _ | .documentStart | .streamEnd => o.document goals
    | _ => o.emit .documentStart o.rest (.node true false :: .documentEnd :: goals)
  | .document, _ => o.document goals
  | .documentEnd, .documentEnd :: rest => o.emit .documentEnd rest (.document :: goals)
  | .documentEnd, rest => o.emit .documentEnd rest (.document :: goals)
  | .content, rest => o.nodeUnless
      (fun | .directive _ | .documentStart | .documentEnd | .streamEnd => true | _ => false)
      true false rest goals
  | .node block indentless, _ => o.node block indentless goals
  | .blockItem, .blockEntry :: rest => o.nodeUnless
      (fun | .blockEntry | .blockEnd => true | _ => false) true false rest (.blockItem :: goals)
  | .blockItem, .blockEnd :: rest => o.emit .sequenceEnd rest goals
  | .blockItem, _ => malformed .unfinishedBlock
  | .indentlessItem, .blockEntry :: rest => o.nodeUnless
      (fun | .blockEntry | .key | .value | .blockEnd => true | _ => false) true false rest
      (.indentlessItem :: goals)
  | .indentlessItem, rest => o.emit .sequenceEnd rest goals
  | .blockKey, .key :: rest => o.nodeUnless
      (fun | .key | .value | .blockEnd => true | _ => false) true true rest (.blockValue :: goals)
  | .blockKey, .blockEnd :: rest => o.emit .mappingEnd rest goals
  | .blockKey, _ => malformed .unfinishedBlock
  | .blockValue, .value :: rest => o.nodeUnless
      (fun | .key | .value | .blockEnd => true | _ => false) true true rest (.blockKey :: goals)
  | .blockValue, rest => o.emit empty rest (.blockKey :: goals)
  | .flowItem _, .flowSequenceEnd :: rest => o.emit .sequenceEnd rest goals
  | .flowItem false, .flowEntry :: rest => match rest with
    | .flowSequenceEnd :: rest => o.emit .sequenceEnd rest goals
    | rest => flowItem rest
  | .flowItem false, _ => malformed .unfinishedSequence
  | .flowItem true, rest => flowItem rest
  | .pairKey, rest => o.nodeUnless
      (fun | .value | .flowEntry | .flowSequenceEnd => true | _ => false) false false rest
      (.pairValue :: goals)
  | .pairValue, .value :: rest => o.nodeUnless
      (fun | .flowEntry | .flowSequenceEnd => true | _ => false) false false rest
      (.pairEnd :: goals)
  | .pairValue, rest => o.emit empty rest (.pairEnd :: goals)
  | .pairEnd, rest => o.emit .mappingEnd rest (.flowItem false :: goals)
  | .flowKey _, .flowMappingEnd :: rest => o.emit .mappingEnd rest goals
  | .flowKey false, .flowEntry :: rest => match rest with
    | .flowMappingEnd :: rest => o.emit .mappingEnd rest goals
    | rest => flowKey rest
  | .flowKey false, _ => malformed .unfinishedMapping
  | .flowKey true, rest => flowKey rest
  | .flowValue, .value :: rest => o.nodeUnless
      (fun | .flowEntry | .flowMappingEnd => true | _ => false) false false rest
      (.flowKey false :: goals)
  | .flowValue, rest => o.emit empty rest (.flowKey false :: goals)
  | .flowNoValue, rest => o.emit empty rest (.flowKey false :: goals)
where
  flowItem : List Token → Step
    | [] => throw o.ended
    | .key :: rest => o.emit (.mappingStart ⟨none, none⟩) rest (.pairKey :: goals)
    | rest => o.go rest (.node false false :: .flowItem false :: goals)
  flowKey : List Token → Step
    | [] => throw o.ended
    | .key :: rest => o.nodeUnless
        (fun | .value | .flowEntry | .flowMappingEnd => true | _ => false) false false rest
        (.flowValue :: goals)
    | rest => o.go rest (.node false false :: .flowNoValue :: goals)

def run : Nat → List Event → Outline → EventRun
  | 0, read, o => ⟨read.reverse, some o.ended⟩
  | fuel + 1, read, o =>
    match o.goals with
    | [] => ⟨read.reverse, none⟩
    | goal :: goals =>
      match o.step goal goals with
      | .ok (e, next) => run fuel (e.toList ++ read) next
      | .error e => ⟨read.reverse, some e⟩

end Outline

/-- The events of a run of tokens. A token leads to fewer than eight steps. -/
def Event.read (tokens : TokenRun) : EventRun :=
  Outline.run (8 * (tokens.tokens.length + 2)) []
    ⟨tokens.tokens, tokens.error.getD (.malformed .missingNode), [.firstDocument], defaultHandles⟩

end KubeAtlas.Yaml

import KubeAtlas.Text.Split
/-!
# Arguments

The words of a command line. Options come first, then the command, then its own words. An option
with a value takes it from the same word after an equals sign or from the next word; of several the
last counts. Two dashes end the options.
-/

namespace KubeAtlas.CommandLine

inductive Command where
  | search
  | kubeconfig (path : String)
  | identify
deriving DecidableEq, Repr

structure Options where
  config : Option String
  storeId : Option String
  verbose : Bool
  help : Bool
deriving DecidableEq, Repr

def Options.unset : Options := ⟨none, none, false, false⟩

inductive Refusal where
  | misuse
  | help
deriving DecidableEq, Repr

structure Invocation where
  options : Options
  command : Command
deriving DecidableEq, Repr

def isOption (word : String) : Bool :=
  match word.toList with
  | '-' :: _ :: _ => true
  | _ => false

def splitOption (word : String) : String × Option String :=
  match Text.splitFirst? '=' word.toList with
  | some (name, value) => (String.ofList name, some (String.ofList value))
  | none => (word, none)

namespace Options

def assign? (o : Options) (name value : String) : Option Options :=
  if name == "--config" then some { o with config := some value }
  else if name == "--store-id" then some { o with storeId := some value }
  else none

/-- Sets an option that has no value: by its name, or by letters after one dash. -/
def flag? (o : Options) (word : String) : Option Options :=
  if word == "--verbose" then some { o with verbose := true }
  else if word == "--help" then some { o with help := true }
  else match word.toList with
    | '-' :: letters =>
      if letters.all (· == 'v') then some { o with verbose := true } else none
    | _ => none

/-- Reads the options in front; with them, what follows. -/
def read (o : Options) : List String → Except Refusal (Options × List String)
  | [] => pure (o, [])
  | word :: rest =>
    if word == "--" then pure (o, rest)
    else if !isOption word then pure (o, word :: rest)
    else match o.flag? word with
      | some o => read o rest
      | none =>
        match splitOption word, rest with
        | (name, some value), rest =>
          match o.assign? name value with
          | some o => read o rest
          | none => throw .misuse
        | (name, none), value :: rest =>
          match o.assign? name value with
          | some o => read o rest
          | none => throw .misuse
        | (_, none), [] => throw .misuse

end Options

/-- The words of a command that are no options, and whether help is asked for. -/
def readWords : List String → Except Refusal (List String × Bool)
  | [] => pure ([], false)
  | word :: rest =>
    if word == "--" then pure (rest, false)
    else if word == "--help" then do pure ((← readWords rest).1, true)
    else if isOption word then throw .misuse
    else do
      let (words, help) ← readWords rest
      pure (word :: words, help)

def readCommand (name : String) (words : List String) : Except Refusal Command :=
  match name, words with
  | "search", [] => pure .search
  | "id", [] => pure .identify
  | "kubeconfig", [path] => pure (.kubeconfig path)
  | _, _ => throw .misuse

def isCommandName (name : String) : Bool := ["search", "kubeconfig", "id"].contains name

def Invocation.read (args : List String) : Except Refusal Invocation := do
  let (options, rest) ← Options.unset.read args
  if options.help then throw .help
  match rest with
  | [] => throw .misuse
  | name :: words =>
    if isCommandName name then
      let (words, help) ← readWords words
      if help then throw .help
      pure ⟨options, ← readCommand name words⟩
    else throw .misuse

end KubeAtlas.CommandLine

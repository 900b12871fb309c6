import KubeAtlas.Text.Utf8
import KubeAtlas.Url.Host
/-!
# Addresses

The path and the query of an address, which is all that a signature covers. Blanks and control
characters in front and line breaks and tabs anywhere are not part of it. In schemes that have them,
parameters after a semicolon are no part of the last segment of the path.

The query is a list of names with values. Pairs without a value are left out; `+` is a space, and
escaped bytes are read as UTF-8.
-/

namespace KubeAtlas.Url

/-- The parts of an address that matter here. -/
structure Address where
  path : String
  query : List (String × String)
deriving DecidableEq, Repr

def isSchemeChar (c : Char) : Bool :=
  c.isDigit || c.isUpper || c.isLower || c == '+' || c == '-' || c == '.'

/-- The scheme in lower case and what follows it, an empty one if there is none. -/
def splitScheme (s : List Char) : List Char × List Char :=
  match Text.splitFirst? ':' s with
  | some (scheme, rest) =>
    if scheme.head?.any (fun c => c.isUpper || c.isLower) && scheme.all isSchemeChar then
      (scheme.map Char.toLower, rest)
    else ([], s)
  | none => ([], s)

def splitAuthority : List Char → List Char × List Char
  | '/' :: '/' :: rest =>
    let isEnd := fun c => c == '/' || c == '?' || c == '#'
    (rest.takeWhile fun c => !isEnd c, rest.dropWhile fun c => !isEnd c)
  | rest => ([], rest)

def schemesWithParameters : List String :=
  ["", "ftp", "hdl", "prospero", "http", "imap", "https", "shttp", "rtsp", "rtsps", "rtspu", "sip",
    "sips", "mms", "sftp", "tel"]

/-- The path without the parameters of its last segment. -/
def dropParameters (path : List Char) : List Char :=
  let segment := (path.reverse.takeWhile (· != '/')).reverse
  let before := path.take (path.length - segment.length)
  before ++ segment.takeWhile (· != ';')

/-- Bytes of ASCII text with its percent escapes replaced; an escape without digits stands for
itself. -/
def unescape : List Char → List UInt8
  | [] => []
  | '%' :: a :: b :: rest =>
    match Text.hexDigit? a, Text.hexDigit? b with
    | some high, some low => UInt8.ofNat (high * 16 + low) :: unescape rest
    | _, _ => 0x25 :: unescape (a :: b :: rest)
  | c :: rest => UInt8.ofNat c.toNat :: unescape rest

/-- Text with its percent escapes replaced. Each run of ASCII is read as UTF-8 by itself. -/
def unescapeText (s : List Char) : List Char :=
  (s.splitBy fun a b => (a.toNat < 128) == (b.toNat < 128)).flatMap fun run =>
    if run.head?.any fun c => c.toNat < 128 then
      if run.contains '%' then Text.Utf8.decodeLossy (unescape run) else run
    else run

def component (s : List Char) : String :=
  String.ofList (unescapeText (s.map fun c => if c == '+' then ' ' else c))

def pairs (query : List Char) : List (String × String) :=
  (Text.splitAll '&' query).filterMap fun pair =>
    match Text.splitFirst? '=' pair with
    | some (name, value) =>
      if value.isEmpty then none else some (component name, component value)
    | none => none

def Address.read (text : String) : Except Error Address := do
  let s := text.toList.dropWhile fun c => c.toNat ≤ 32
  let s := s.filter fun c => !(c == '\t' || c == '\r' || c == '\n')
  let (scheme, rest) := splitScheme s
  let (authority, rest) := splitAuthority rest
  checkAuthority authority
  let rest := rest.takeWhile (· != '#')
  let (path, query) := (Text.splitFirst? '?' rest).getD (rest, [])
  if authority.any becomesDelimiter then throw (.normalization (String.ofList authority))
  let path := if schemesWithParameters.contains (String.ofList scheme) then dropParameters path
    else path
  pure ⟨String.ofList path, pairs query⟩

end KubeAtlas.Url

import KubeAtlas.Text.Digit
import KubeAtlas.Text.Quoted
import KubeAtlas.Text.Split
/-!
# Hosts in brackets

The authority of an address may hold an IPv6 address in brackets, or an address of a future version
behind a `v`. Anything else in brackets is refused. So is an authority with characters that
compatibility normalization turns into the delimiters of an address.
-/

namespace KubeAtlas.Url

inductive Error where
  | brackets
  | futureAddress
  | bracketedIPv4
  | notAddress (host : String)
  | normalization (authority : String)
deriving DecidableEq, Repr

def Error.message : Error → String
  | brackets => "Invalid IPv6 URL"
  | futureAddress => "IPvFuture address is invalid"
  | bracketedIPv4 => "An IPv4 address cannot be in brackets"
  | notAddress host => s!"{Text.quoted host} does not appear to be an IPv4 or IPv6 address"
  | normalization authority =>
    s!"netloc '{authority}' contains invalid characters under NFKC normalization"

def isOctet (s : List Char) : Bool :=
  !s.isEmpty && s.all Char.isDigit && s.length ≤ 3 && !(1 < s.length && s.head? == some '0') &&
    Text.ofDigits 10 (s.filterMap Text.asciiDigit?) ≤ 255

def isIPv4 (s : List Char) : Bool :=
  let octets := Text.splitAll '.' s
  octets.length == 4 && octets.all isOctet && !s.contains '/'

def isGroup (s : List Char) : Bool := !s.isEmpty && s.length ≤ 4 && s.all Text.isHexDigit

/-- The groups of an address; an IPv4 address at the end stands for two. -/
def groups? (s : List Char) : Option (List (List Char)) :=
  let parts := Text.splitAll ':' s
  if parts.length < 3 then none
  else
    match parts.getLast? with
    | none => none
    | some last =>
      if last.contains '.' then
        if isIPv4 last then some (parts.dropLast ++ [['0'], ['0']]) else none
      else some parts

/-- Whether the groups before and after a gap make up an address. The one next to an end may be
empty if the gap is at that end. -/
def fitsAround (before after : List (List Char)) : Bool :=
  let before' := if before.head? == some [] then before.tail else before
  let after' := if after.getLast? == some [] then after.dropLast else after
  (before.head? != some [] || before'.isEmpty) && (after.getLast? != some [] || after'.isEmpty) &&
    before'.all isGroup && after'.all isGroup && before'.length + after'.length ≤ 7

/-- Whether groups make up an address: eight of them, or fewer around one gap. -/
def fits (parts : List (List Char)) : Bool :=
  if 9 < parts.length then false
  else
    let gaps := (List.range parts.length).filter fun i =>
      0 < i && i + 1 < parts.length && parts.getD i ['0'] == []
    match gaps with
    | [] => parts.length == 8 && parts.all isGroup
    | [i] => fitsAround (parts.take i) (parts.drop (i + 1))
    | _ => false

def isIPv6 (s : List Char) : Bool :=
  let (address, zoneFits) := match Text.splitFirst? '%' s with
    | some (address, zone) => (address, !zone.isEmpty && !zone.contains '%')
    | none => (s, true)
  zoneFits && !s.contains '/' && (groups? address).any fits

/-- Whether an address of a future version has its form: hexadecimal digits, a point, and text. -/
def isFuture (s : List Char) : Bool :=
  match s with
  | 'v' :: rest =>
    let digits := rest.takeWhile Text.isHexDigit
    match rest.drop digits.length with
    | '.' :: text => !digits.isEmpty && !text.isEmpty
    | _ => false
  | _ => false

def checkBracketed (host : List Char) : Except Error Unit :=
  if host.head? == some 'v' then
    if isFuture host then pure () else throw .futureAddress
  else if isIPv4 host then throw .bracketedIPv4
  else if isIPv6 host then pure ()
  else throw (.notAddress (String.ofList host))

/-- The characters that normalization turns into a text with one of `/`, `?`, `#`, `@`, `:`. -/
def becomesDelimiter (c : Char) : Bool :=
  [0x2047, 0x2048, 0x2049, 0x2100, 0x2101, 0x2105, 0x2106, 0x2A74, 0xFE13, 0xFE16, 0xFE55, 0xFE56,
    0xFE5F, 0xFE6B, 0xFF03, 0xFF0F, 0xFF1A, 0xFF1F, 0xFF20].contains c.toNat

/-- Checks the authority of an address: brackets in pairs, what they hold, and normalization. -/
def checkAuthority (s : List Char) : Except Error Unit := do
  if s.contains '[' != s.contains ']' then throw .brackets
  if s.contains '[' then
    let inside := (s.dropWhile (· != '[')).tail
    checkBracketed (inside.takeWhile (· != ']'))

end KubeAtlas.Url

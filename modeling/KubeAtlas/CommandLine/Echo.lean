/-!
# What an output shows

A text can hold sequences that change its style: an escape character, a bracket, then numbers and
marks, and a letter. A terminal understands them; they are left out where the output is none.
-/

namespace KubeAtlas.CommandLine

def isStyleMark (c : Char) : Bool := c == ';' || c == '?' || c.isDigit

/-- How many characters follow the escape character in the style sequence that a text begins
with. -/
def styleLength? : List Char → Option Nat
  | '\x1b' :: '[' :: rest =>
    match rest.dropWhile isStyleMark with
    | letter :: _ =>
      if letter.isAlpha then some ((rest.takeWhile isStyleMark).length + 2) else none
    | [] => none
  | _ => none

/-- A text without its style sequences, and without the first few characters. -/
def withoutStyles : Nat → List Char → List Char
  | _, [] => []
  | skip + 1, _ :: rest => withoutStyles skip rest
  | 0, c :: rest =>
    match styleLength? (c :: rest) with
    | some n => withoutStyles n rest
    | none => c :: withoutStyles 0 rest

def echo (terminal : Bool) (text : String) : String :=
  if terminal then text else String.ofList (withoutStyles 0 text.toList)

end KubeAtlas.CommandLine

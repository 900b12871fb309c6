/-!
# Splitting

Dividing a text at a separator: at every one, or at the first.
-/

namespace KubeAtlas.Text

def splitAll (separator : Char) : List Char → List (List Char)
  | [] => [[]]
  | c :: rest =>
    match splitAll separator rest with
    | piece :: pieces => if c == separator then [] :: piece :: pieces else (c :: piece) :: pieces
    | [] => [[c]]

def splitFirst? (separator : Char) : List Char → Option (List Char × List Char)
  | [] => none
  | c :: rest =>
    if c == separator then some ([], rest)
    else (splitFirst? separator rest).map fun (before, after) => (c :: before, after)

theorem splitAll_ne_nil (separator : Char) (s : List Char) : splitAll separator s ≠ [] := by
  cases s with
  | nil => simp [splitAll]
  | cons c rest =>
    rw [splitAll]
    split
    · split <;> simp
    · simp

end KubeAtlas.Text

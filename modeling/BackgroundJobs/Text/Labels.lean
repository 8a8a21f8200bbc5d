import BackgroundJobs.Uuid

/-!
# Text — labels for identifiers

Texts that are made for people show short labels in place of identifiers.
-/

namespace BackgroundJobs.Text

/-- Numbered labels for identifiers: a letter and the place in the list, from 1. -/
def numberedLabels (letter : String) (ids : List String) : List (String × String) :=
  (ids.zipIdx 1).map fun (id, n) => (id, letter ++ toString n)

/-- Does the text start with the lower-case text of a time-ordered identifier? -/
def startsTimeOrdered (s : List Char) : Bool :=
  match Uuid.ofChars? (s.take 36) with
  | some u => u.toChars == s.take 36 && u.isTimeOrdered
  | none => false

/-- Is `piece` a part of the text? -/
def contains (piece : List Char) : List Char → Bool
  | [] => piece.isEmpty
  | c :: rest => piece.isPrefixOf (c :: rest) || contains piece rest

/-- The text with every part that starts with an identifier passed through `label`, which gives
what is shown for it; the first `skip` characters were dealt with before. -/
def labelFrom (label : List Char → List Char) : Nat → List Char → List Char
  | _, [] => []
  | skip + 1, _ :: rest => labelFrom label skip rest
  | 0, c :: rest =>
    if startsTimeOrdered (c :: rest) then
      label ((c :: rest).take 36) ++ labelFrom label 35 rest
    else c :: labelFrom label 0 rest

/-- The text with labels in place of the time-ordered identifiers in it. One that has no label
stands as it is if it is part of `known`, and is shown as `other` if not. -/
def relabel (labels : List (String × String)) (known : List Char) (other s : String) : String :=
  String.ofList <| labelFrom
    (fun id =>
      match labels.lookup (String.ofList id) with
      | some label => label.toList
      | none => if contains id known then id else other.toList)
    0 s.toList

/-- The text up to the first place where `lead` is followed by `tail`, and `lead`; all of it if
there is no such place. -/
def cutBehind (lead tail : List Char) : List Char → List Char
  | [] => []
  | c :: rest =>
    if (lead ++ tail).isPrefixOf (c :: rest) then lead else c :: cutBehind lead tail rest

end BackgroundJobs.Text

/-!
# Texts cut at double underscores

Encoded method names join their parts with `__`. The separator overlaps itself, so a text with
three underscores in a row can be cut in two ways:

* `pieces` cuts at every separator, reading from the left and never using an underscore twice;
* `afterFirst` is the text behind the leftmost separator;
* `splitLast` cuts at the rightmost separator, so the part behind it holds no separator and does
  not start with an underscore.
-/

namespace ClassLinker.Separator

/-- The text of the separator. -/
def text : String := "__"

/-- The characters behind the leftmost separator, if there is one. -/
def afterFirst : List Char → Option (List Char)
  | '_' :: '_' :: rest => some rest
  | _ :: rest => afterFirst rest
  | [] => none

/-- The parts between separators, which are looked for from the left. -/
def pieces : List Char → List (List Char)
  | '_' :: '_' :: rest => [] :: pieces rest
  | c :: rest => (pieces rest).modifyHead (c :: ·)
  | [] => [[]]

/-- The characters before and behind the rightmost separator, if there is one. -/
def splitLast : List Char → Option (List Char × List Char)
  | [] => none
  | c :: rest =>
    match splitLast rest with
    | some (before, after) => some (c :: before, after)
    | none =>
      match c, rest with
      | '_', '_' :: after => some ([], after)
      | _, _ => none

end ClassLinker.Separator

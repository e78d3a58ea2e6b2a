/-! Texts cut at a separator. -/

namespace RtlBridge.Text

/-- The pieces after `current`, the reversed start of an open piece. -/
def piecesFrom (separator : Char) (current : List Char) : List Char → List (List Char)
  | [] => [current.reverse]
  | c :: rest =>
      if c = separator then current.reverse :: piecesFrom separator [] rest
      else piecesFrom separator (c :: current) rest

/-- The pieces of a text between separators. There is one more of them than there are separators, and
a piece may be empty. -/
def pieces (separator : Char) (text : String) : List String :=
  (piecesFrom separator [] text.toList).map String.ofList

end RtlBridge.Text

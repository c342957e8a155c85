import PolicyDelta.Text.Split

/-! Paths of files. A path is a root and named parts; the normal text of a path has no parts that
name the place where they stand. -/

namespace PolicyDelta

/-- A path: the slashes that it starts from and its parts. -/
structure Path where
  root : String
  parts : List String
deriving DecidableEq

namespace Path

/-- The root of a path: two slashes are kept, and three or more count as one. -/
def rootOf (text : List Char) : String :=
  match (text.takeWhile (· == '/')).length with
  | 0 => ""
  | 2 => "//"
  | _ => "/"

/-- The parts of a text between slashes; no part is empty. -/
def partsOf (text : List Char) : List String :=
  ((Text.pieces '/' text).filter (· ≠ [])).map String.ofList

/-- The path of a text; a single dot names no step. -/
def ofText (s : String) : Path :=
  ⟨rootOf s.toList, (partsOf s.toList).filter (· ≠ ".")⟩

/-- The normal text of a path; the path without steps is a dot. -/
def text (p : Path) : String :=
  let s := p.root ++ "/".intercalate p.parts
  if s = "" then "." else s

/-- The normal text of the path that a text names. -/
def normalText (s : String) : String := (ofText s).text

end Path

end PolicyDelta

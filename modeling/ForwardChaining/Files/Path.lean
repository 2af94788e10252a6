/-!
# Paths

A path is a sequence of names, from the root of all directories or from the working directory. Two
spellings that differ in repeated slashes and in names that stand for the place itself are one path; the
name that leads to the directory above is kept.
-/

namespace ForwardChaining.Files

/-- A way through directories. -/
structure Path where
  /-- Whether it starts at the root, and whether it is spelled with two slashes there. -/
  fromRoot : Bool := false
  doubled : Bool := false
  names : List String
deriving DecidableEq

namespace Path

/-- The parts of a text between slashes. -/
def slashParts : List Char → List (List Char)
  | [] => [[]]
  | '/' :: rest => [] :: slashParts rest
  | c :: rest =>
    match slashParts rest with
    | [] => [[c]]
    | part :: more => (c :: part) :: more

/-- The path of a spelling. -/
def ofString (s : String) : Path :=
  let cs := s.toList
  { fromRoot := cs.head? = some '/'
    doubled := ['/', '/'].isPrefixOf cs && !(['/', '/', '/'].isPrefixOf cs)
    names := ((slashParts cs).filter fun part => part ≠ [] ∧ part ≠ ['.']).map String.ofList }

/-- The names with slashes between them. -/
def joined : List String → String
  | [] => ""
  | [name] => name
  | name :: next :: rest => name ++ "/" ++ joined (next :: rest)

/-- The spelling of a path. -/
def text (p : Path) : String :=
  let start := if p.doubled then "//" else if p.fromRoot then "/" else ""
  if start = "" ∧ p.names = [] then "." else start ++ joined p.names

/-- The path without its last name. -/
def parent (p : Path) : Path := { p with names := p.names.dropLast }

/-- The path with a name added. -/
def child (p : Path) (name : String) : Path := { p with names := p.names ++ [name] }

/-- The part of a name from its last point on, unless the point stands first or last. -/
def suffixOf (name : String) : String :=
  let cs := name.toList
  let behind := (cs.reverse.takeWhile (· ≠ '.')).reverse
  let before := cs.length - behind.length
  if before ≤ 1 ∨ behind = [] then "" else String.ofList ('.' :: behind)

/-- The suffix of the last name. -/
def suffix (p : Path) : String := (p.names.getLast?.map suffixOf).getD ""

end Path

end ForwardChaining.Files

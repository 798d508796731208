import Quarterly.Text.Lowercase

/-!
# Paths

A path names a file by the folders that lead to it. Empty parts and parts that are a single point
mean nothing; two points lead to the folder around.
-/

namespace Quarterly

structure Path where
  isAbsolute : Bool
  parts : List String
  deriving Repr, DecidableEq

namespace Path

/-- The path that a text names. -/
def ofText (s : String) : Path :=
  let parts := s.toList.splitOn '/' |>.filter fun part => part != [] && part != ['.']
  ⟨s.toList.head? == some '/', parts.map String.ofList⟩

/-- The text that names a path. -/
def text (p : Path) : String :=
  if p.isAbsolute then "/" ++ "/".intercalate p.parts
  else if p.parts.isEmpty then "." else "/".intercalate p.parts

/-- The folder around a path. -/
def parent (p : Path) : Path := { p with parts := p.parts.dropLast }

/-- The folders that lead to a path, the nearest first, without the one where it starts. -/
def ancestors (p : Path) : List Path :=
  (List.range p.parts.length).tail.reverse.map fun n => { p with parts := p.parts.take n }

/-- Parts without two points, each of which takes back the part before it. -/
def settled (done : List String) : List String → List String
  | [] => done.reverse
  | part :: rest =>
    if part == ".." then settled done.tail rest else settled (part :: done) rest

/-- The absolute path, for a path that starts at a folder. -/
def absoluteIn (base p : Path) : Path :=
  ⟨true, settled [] (if p.isAbsolute then p.parts else base.parts ++ p.parts)⟩

/-- The ending of the last part from its last point on, in small letters. A point at either end of
the part starts no ending. -/
def suffix (p : Path) : String :=
  let name := (p.parts.getLastD "").toList
  let behind := name.reverse.takeWhile (· != '.')
  let stem := name.length - behind.length - 1
  if behind.isEmpty || behind.length == name.length || stem == 0 then ""
  else Text.lower (String.ofList ('.' :: behind.reverse))

end Path

end Quarterly

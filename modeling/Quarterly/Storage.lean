import Quarterly.Keyed
import Quarterly.Path
import Quarterly.Text.Quoted

/-!
# Storage

Where files are kept. The commands only ask what stands under a path and write texts to paths, so
they work over any storage; `Folder` is one that is a value.
-/

namespace Quarterly

/-- What stands under a path. -/
inductive Entry where
  | absent
  | folder
  | file (text : String)
  deriving Repr, DecidableEq

namespace Entry

def isAbsent : Entry → Bool
  | absent => true
  | _ => false

end Entry

/-- Why a file cannot be used. -/
inductive StorageFault where
  /-- A file stands where a folder is needed. -/
  | fileExists (path : Path)
  /-- A file stands above the folder that is needed. -/
  | notAFolder (path : Path)
  /-- A folder stands where a file is needed. -/
  | isAFolder (path : Path)
  deriving Repr, DecidableEq

namespace StorageFault

/-- The wording of a fault, with its number among the faults of a system. -/
def message : StorageFault → String
  | fileExists path => "[Errno 17] File exists: " ++ Text.quoted path.text
  | notAFolder path => "[Errno 20] Not a directory: " ++ Text.quoted path.text
  | isAFolder path => "[Errno 21] Is a directory: " ++ Text.quoted path.text

end StorageFault

/-- A place to keep files. -/
class Storage (m : Type → Type) where
  /-- The folder where relative paths start. -/
  base : m Path
  find : Path → m Entry
  /-- Write a text under a path. The folders that lead to it are made. -/
  write : Path → String → m (Except StorageFault Unit)

/-- Files under the texts of their paths. -/
structure Folder where
  base : Path
  files : Keyed String

namespace Folder

/-- A path as it is named in a folder: from the base on if it leads there. -/
def relative (f : Folder) (path : Path) : Path :=
  if path.isAbsolute then
    (if f.base.parts.isPrefixOf path.parts then ⟨false, path.parts.drop f.base.parts.length⟩
    else path)
  else path

/-- What stands under a path. A folder is there if a file is in it. -/
def find (f : Folder) (path : Path) : Entry :=
  let relative := f.relative path
  let isInside (name : String) : Bool :=
    let parts := (Path.ofText name).parts
    relative.parts.isPrefixOf parts && relative.parts.length < parts.length
  match f.files.get? relative.text with
  | some text => .file text
  | none =>
    if !relative.isAbsolute && (relative.parts.isEmpty || f.files.keys.any isInside) then .folder
    else .absent

def isFile (f : Folder) (path : Path) : Bool :=
  match f.find path with
  | .file _ => true
  | _ => false

/-- Why a text cannot be written under a path. -/
def obstacle? (f : Folder) (path : Path) : Option StorageFault :=
  match path.ancestors with
  | parent :: others =>
    if f.isFile parent then some (.fileExists parent)
    else if others.any f.isFile then some (.notAFolder parent)
    else if f.find path == .folder then some (.isAFolder path)
    else none
  | [] => if f.find path == .folder then some (.isAFolder path) else none

def write (f : Folder) (path : Path) (text : String) : Except StorageFault Folder :=
  match f.obstacle? path with
  | some fault => throw fault
  | none => pure { f with files := f.files.put (f.relative path).text text }

instance : Storage (StateM Folder) where
  base := return (← get).base
  find path := return (← get).find path
  write path text := do
    match (← get).write path text with
    | .ok f =>
      set f
      return .ok ()
    | .error fault => return .error fault

end Folder

end Quarterly

/-
**Splitting the root tree (`collect_mountpoints`).**

Every image with a mountpoint gets the files below it: `collectMountpoints` copies the root tree into
the temporary directory and moves one mountpoint after the other out of the copy, to a place whose name
is made of the path. Positions are those in the temporary directory, so the copy is at `["root"]`.

The commands are the POSIX ones of `Library.FileTree`; `chmod`, `chown` and the time stamps at the end
do not change what is where. The shell passes a path on as it is.
-/

import Genimage.Library.FileTree
import Genimage.Library.Run

namespace Genimage

open Library

/-- The fields of an image that say where its files come from. `mountpoint` has lost its leading
slash in `main`. -/
structure MountImage where
  mountpoint : Option String := none
  empty : Bool := false
  noRootpath : Bool := false
  srcpath : Option String := none
deriving DecidableEq, Repr

/-- `sanitize_path` -/
def sanitizePath (path : String) : String :=
  String.ofList (path.toList.map fun c => if c = '/' then '-' else c)

/-- The name of `mp->mountpath` in the temporary directory. -/
def mountpathOf (path : String) : String :=
  if path = "" then "root" else "mp-" ++ sanitizePath path

/-- `add_mountpoint`: a path is entered once. -/
def addMountpoint (mountpoints : List String) (path : String) : List String :=
  if path ∈ mountpoints then mountpoints else mountpoints ++ [path]

/-- The list of mountpoints; `add_root_mountpoint` has made the first one. -/
def mountpointsOf (images : List MountImage) : List String :=
  images.foldl (fun mountpoints image => image.mountpoint.elim mountpoints
    (addMountpoint mountpoints)) [""]

/-- `need_root` -/
def needRoot (images : List MountImage) : Bool :=
  images.any fun image => !(image.empty || image.noRootpath || image.srcpath.isSome)

/-- `mountpath` -/
def mountpath (image : MountImage) : String :=
  match image.srcpath with
  | some srcpath => srcpath
  | none =>
    if image.empty || image.noRootpath then "" else mountpathOf (image.mountpoint.getD "")

/-! ### Paths -/

/-- The parts of a path between the slashes. -/
def splitSlash : List Char → List (List Char)
  | [] => [[]]
  | c :: rest =>
    match splitSlash rest with
    | [] => [[c]]
    | head :: tail => if c = '/' then [] :: head :: tail else (c :: head) :: tail

/-- A part of a path; an empty one is dropped. -/
def componentOf (part : List Char) : Option (Component String) :=
  if part = [] then none
  else if part = ['.'] then some .self
  else if part = ['.', '.'] then some .up
  else some (.name (String.ofList part))

/-- The components of a path. -/
def componentsOf (path : String) : List (Component String) :=
  (splitSlash path.toList).filterMap componentOf

/-- The path ends in a slash. -/
def endsInSlash (path : String) : Bool := path.toList.getLast? = some '/'

/-- `"%s/root/%s"` -/
def rootPath (path : String) : Pathname String :=
  ⟨.name "root" :: componentsOf path, endsInSlash path⟩

/-! ### `collect_mountpoints` -/

/-- The command that has failed. -/
inductive MountError where
  | mv (path : String)
  | mkdir (path : String)
deriving DecidableEq, Repr

variable {α : Type}

/-- `cp -a` of the root tree. -/
def copyRoot (tree : FileTree String α) : FileTree String α :=
  ⟨([], .dir) :: tree.entries.map fun item => ("root" :: item.1, item.2)⟩

/-- The body of the loop over the mountpoints. -/
def moveMountpoint (tree : FileTree String α) (path : String) :
    Except MountError (FileTree String α) :=
  if path = "" then .ok tree
  else
    match tree.mv (rootPath path) [mountpathOf path] with
    | none => .error (.mv path)
    | some tree =>
      match tree.mkdir (rootPath path) with
      | none => .error (.mkdir path)
      | some tree => .ok tree

/-- `collect_mountpoints`; `none` when no image needs the root tree. -/
def collectMountpoints (tree : FileTree String α) (images : List MountImage) :
    Except MountError (Option (FileTree String α)) :=
  if needRoot images = false then .ok none
  else do
    let tree ← (mountpointsOf images).foldlM moveMountpoint (copyRoot tree)
    return some tree

end Genimage

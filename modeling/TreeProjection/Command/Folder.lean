import TreeProjection.Command.Input

/-! # Folders held in memory

A folder whose files are known, so that commands can be run without a disk.  Paths are followed name by
name: a point stands for where one is, and two points for the folder around it.  What lies outside the
folder is not there.

* `Folder.ofFiles` — the folder of some files.
* `Folder.read` — the bytes at a path.
* `Folder.reader` — a folder with something piped in. -/

namespace TreeProjection

/-- The files of a folder, by the names on the way to them. -/
structure Folder where
  /-- The files. -/
  files : List (List String × ByteArray)
  deriving Inhabited

namespace Folder

/-- Where one is on the way along a path. -/
inductive Spot where
  /-- In a folder below, or in the folder itself. -/
  | inside (names : List String)
  /-- At a file. -/
  | file (bytes : ByteArray)
  /-- Outside the folder. -/
  | outside

/-- The folder of files with their paths. -/
def ofFiles (files : List (String × ByteArray)) : Folder :=
  ⟨files.map fun (path, bytes) => (path.splitOn "/", bytes)⟩

/-- Whether there is a folder at the end of some names. -/
def hasFolder (d : Folder) (names : List String) : Bool :=
  names.isEmpty || d.files.any fun f => names.isPrefixOf f.1 && names.length < f.1.length

/-- The longest name that a file can have, in bytes. -/
def nameLimit : Nat := 255

/-- The longest path that can be followed, in bytes. -/
def pathLimit : Nat := 4095

/-- Go on by one name. -/
def step (d : Folder) (name : String) : Spot → Except ReadFailure Spot
  | .file _ => .error .notFolder
  | .outside =>
    if name.isEmpty || name == "." || name == ".." then .ok .outside
    else if nameLimit < name.utf8ByteSize then .error .nameTooLong else .error .notFound
  | .inside names =>
    if name.isEmpty || name == "." then .ok (.inside names)
    else if name == ".." then .ok (if names.isEmpty then .outside else .inside names.dropLast)
    else if nameLimit < name.utf8ByteSize then .error .nameTooLong
    else
      let names := names ++ [name]
      match d.files.find? (·.1 == names) with
      | some f => .ok (.file f.2)
      | none => if d.hasFolder names then .ok (.inside names) else .error .notFound

/-- The bytes at a path. -/
def read (d : Folder) (path : String) : Except ReadFailure ByteArray :=
  let start := if path.startsWith "/" then .outside else .inside []
  if pathLimit < path.utf8ByteSize then .error .nameTooLong
  else
    match (path.splitOn "/").foldlM (fun spot name => d.step name spot) start with
    | .error e => .error e
    | .ok (.file bytes) => .ok bytes
    | .ok _ => .error .isFolder

/-- A folder with something piped in. -/
def reader (d : Folder) (input : ByteArray) : Reader
  | .standardInput => .ok input
  | .file path => d.read path

end Folder

end TreeProjection

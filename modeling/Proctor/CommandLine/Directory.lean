import Proctor.CommandLine.Run

/-! # A directory as a host

Files held in memory, found by paths as a file system finds them: from left to right, part by part,
and the first part that cannot be passed decides the error. -/

namespace Proctor.CommandLine
open Config

/-- The files below a directory, each under the parts of its path. Above it there is nothing but
further directories. -/
structure Directory where
  files : List (List String × ByteArray)

namespace Directory

def ofFiles (files : List (String × ByteArray)) : Directory :=
  ⟨files.map fun (path, content) => (path.splitOn "/", content)⟩

/-- Where a path has led so far. -/
inductive Location
  | inside (path : List String)
  | file (content : ByteArray)
  | above

/-- How many bytes a part of a path may have. -/
def partLimit : Nat := 255

/-- How many bytes a whole path may have. -/
def pathLimit : Nat := 4095

def step (d : Directory) (p : Location) (part : String) : Except FileError Location :=
  match p with
  | .file _ => .error .notDirectory
  | .above =>
    if part == "." || part == ".." then .ok .above
    else if part.utf8ByteSize > partLimit then .error .nameTooLong
    else .error .missing
  | .inside path =>
    if part == "." then .ok p
    else if part == ".." then .ok (if path.isEmpty then .above else .inside path.dropLast)
    else if part.utf8ByteSize > partLimit then .error .nameTooLong
    else
      let path := path ++ [part]
      match d.files.lookup path with
      | some content => .ok (.file content)
      | none =>
        if d.files.any fun f => path.isPrefixOf f.1 then .ok (.inside path) else .error .missing

/-- The parts of a path. Where it ends in a slash, it names a directory. -/
def parts (path : String) : List String :=
  (path.splitOn "/").filter (!·.isEmpty) ++ (if path.endsWith "/" then ["."] else [])

def read (d : Directory) (path : String) : Except FileError ByteArray := do
  if path.contains '\x00' then throw .nulInPath
  if path.isEmpty then throw .missing
  if path.utf8ByteSize > pathLimit then throw .nameTooLong
  let start := if path.startsWith "/" then .above else .inside []
  match ← (parts path).foldlM d.step start with
  | .file content => return content
  | .inside _ | .above => throw .isDirectory

/-- A host without a log. -/
def host (d : Directory) : Host Id where
  isFile path := (d.read path).toBool
  read := d.read
  log _ _ := ()

end Directory
end Proctor.CommandLine

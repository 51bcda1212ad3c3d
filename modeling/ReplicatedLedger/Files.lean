/-!
Directories and files, and how a path is followed through them.  A path goes from the root if it
starts with a slash, otherwise from the working directory.
-/

namespace ReplicatedLedger

inductive FileTree where
  | text (content : String)
  /-- A file whose bytes are no text. -/
  | binary
  | directory (entries : List (String × FileTree))

/-- Why a file cannot be read. -/
inductive FileError where
  | notFound
  | permissionDenied
  | notDirectory
  | isDirectory
  | nameTooLong
  /-- The bytes of the file are no text. -/
  | notText
  /-- The path holds a character that no name may have. -/
  | strayNull
  | other (reason : String)
  deriving DecidableEq, Repr

def FileError.message : FileError → String
  | notFound => "No such file or directory (os error 2)"
  | permissionDenied => "Permission denied (os error 13)"
  | notDirectory => "Not a directory (os error 20)"
  | isDirectory => "Is a directory (os error 21)"
  | nameTooLong => "File name too long (os error 36)"
  | notText => "stream did not contain valid UTF-8"
  | strayNull => "file name contained an unexpected NUL byte"
  | other reason => reason

/-- A point in a tree with the directories that lead to it, the root last. -/
structure Place where
  node : FileTree
  above : List FileTree := []

namespace Place

/-- The root has itself for a parent. -/
def parent (p : Place) : Place :=
  match p.above with
  | [] => p
  | node :: above => ⟨node, above⟩

/-- A name has at most 255 bytes. -/
def nameLimit : Nat := 255

/-- Follows one part of a path.  An empty part stays where it is, as a dot does, so that a slash at
the end of a path asks for a directory. -/
def enter (p : Place) (name : String) : Except FileError Place :=
  match p.node with
  | .directory entries =>
    if name = "" || name = "." then .ok p
    else if name = ".." then .ok p.parent
    else if nameLimit < name.utf8ByteSize then .error .nameTooLong
    else
      match entries.find? (·.1 = name) with
      | some (_, node) => .ok ⟨node, p.node :: p.above⟩
      | none => .error .notFound
  | .text _ | .binary => .error .notDirectory

def follow (p : Place) (path : String) : Except FileError Place :=
  (path.splitOn "/").foldlM enter p

def read (p : Place) : Except FileError String :=
  match p.node with
  | .text content => .ok content
  | .binary => .error .notText
  | .directory _ => .error .isDirectory

end Place

/-- All files, and the path of the working directory. -/
structure Files where
  root : FileTree
  workingDirectory : String

namespace Files

/-- A path is shorter than this many bytes. -/
def pathLimit : Nat := 4096

def read (f : Files) (path : String) : Except FileError String := do
  if path.toList.contains '\x00' then throw .strayNull
  if path = "" then throw .notFound
  if pathLimit ≤ path.utf8ByteSize then throw .nameTooLong
  let root : Place := { node := f.root }
  let start ← if path.startsWith "/" then pure root else root.follow f.workingDirectory
  (← start.follow path).read

/-! ### A bare machine -/

/-- A directory of programs. -/
def programs : FileTree :=
  .directory [("sh", .binary), ("ls", .binary), ("cat", .binary), ("env", .binary)]

def emptyDirectories (names : List String) : List (String × FileTree) :=
  names.map (·, .directory [])

/-- The files that every machine has, with nothing in the working directory. -/
def bare : Files where
  root := .directory
    ([("bin", programs), ("sbin", .directory []),
      ("dev", .directory (("null", .text "") :: emptyDirectories ["fd", "pts", "shm"])),
      ("etc", .directory [("passwd", .text "root:x:0:0:root:/root:/bin/sh\n")]),
      ("proc", .directory
        [("self", .directory (("exe", .binary) :: emptyDirectories ["cwd", "fd", "root"]))]),
      ("usr", .directory (("bin", programs) ::
        emptyDirectories ["include", "lib", "local", "sbin", "share", "src"])),
      ("var", .directory (emptyDirectories ["cache", "lib", "log", "tmp"])),
      ("work", .directory [])] ++
      emptyDirectories
        ["boot", "home", "lib", "media", "mnt", "opt", "root", "run", "srv", "sys", "tmp"])
  workingDirectory := "work"

end Files

end ReplicatedLedger

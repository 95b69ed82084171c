import FuzzyInference.Text.Bytes
import FuzzyInference.Text.Quoted

/-!
# Directories

Files are known by the names that lead to them from the root. Paths start in a working directory,
or at the root if a slash begins them; they may go up and stay on the spot. Names and paths are
limited in their length, and hold no null character. Names are told apart by their bytes.

* `FileFault`: why a file cannot be opened;
* `Directory.find`: where a path leads;
* `Directory.read`, `Directory.writable`, `Directory.store`: the text of a file, and the directory
  with a file replaced or added.
-/

namespace FuzzyInference

/-- Why a file cannot be opened. -/
inductive FileFault where
  | missing (path : Text)
  | notDirectory (path : Text)
  | isDirectory (path : Text)
  | tooLong (path : Text)
  /-- A path with a null character, which no file can have. -/
  | nullCharacter
  /-- A path with a half that has no byte. -/
  | byteless
  deriving Repr, DecidableEq

/-- The wording of the fault. -/
def FileFault.message : FileFault → String
  | .missing path => "[Errno 2] No such file or directory: " ++ Text.quote path
  | .notDirectory path => "[Errno 20] Not a directory: " ++ Text.quote path
  | .isDirectory path => "[Errno 21] Is a directory: " ++ Text.quote path
  | .tooLong path => "[Errno 36] File name too long: " ++ Text.quote path
  | .nullCharacter => "embedded null byte"
  | .byteless => "a path has no bytes"

/-- Whether the fault is reported; a path that makes no sense ends the run. -/
def FileFault.isReported : FileFault → Bool
  | .nullCharacter | .byteless => false
  | _ => true

/-- A working directory: the names that lead to it, and the files around it with their texts.
Directories are those that paths of files go through, the working directory, and `folders`. -/
structure Directory where
  place : List Text
  folders : List (List Text)
  files : List (List Text × String)
  deriving Repr, DecidableEq

namespace Directory

/-- How many bytes a name may have. -/
def maxNameSize : Nat := 255

/-- How many bytes a path may have. -/
def maxPathSize : Nat := 4095

/-- The parts of a path between slashes. -/
def parts (path : Text) : List Text := path.splitOn '/'

/-- The steps of a path: names, and one dot or two of them. -/
def steps (path : Text) : List Text := (parts path).filter (!·.isEmpty)

/-- The path in the form in which names are known: as the text of its bytes. -/
def known (path : Text) : Except FileFault Text :=
  match path.bytes? with
  | none => .error .byteless
  | some bytes => if bytes.contains 0 then .error .nullCharacter else .ok (.ofBytes bytes)

/-- The names of a path that are no steps on the spot. -/
def names (path : Text) : List Text :=
  match known path with
  | .ok path => (steps path).filter (· != ".")
  | .error _ => []

/-- How many bytes a name or a path has. -/
def size (path : Text) : Nat := (path.bytes?.getD []).length

/-- A working directory that holds the files of the given paths, and nothing else around it. -/
def ofFiles (place : List Text) (files : List (Text × String)) : Directory :=
  ⟨place, [], files.map fun (path, text) => (place ++ names path, text)⟩

/-- The files inside the working directory with their paths. -/
def toFiles (d : Directory) : List (Text × String) :=
  (d.files.filter fun f => d.place.isPrefixOf f.1).map fun (names, text) =>
    (Text.join "/" (names.drop d.place.length), text)

/-- The text of the file that names lead to. -/
def file? (d : Directory) (names : List Text) : Option String := d.files.lookup names

/-- Whether names lead to a directory. -/
def isDirectory (d : Directory) (names : List Text) : Bool :=
  names.isPrefixOf d.place || d.folders.any (names.isPrefixOf ·) ||
    d.files.any fun (file, _) => names.isPrefixOf file && names ≠ file

/-- Where a path leads. -/
inductive Place where
  | file (names : List Text) (text : String)
  | directory
  /-- Nothing is there, but its directory is. -/
  | free (names : List Text)
  /-- The last name is too long for anything to be there. -/
  | tooLong
  | nowhere
  | throughFile
  | throughTooLong
  deriving Repr, DecidableEq

/-- Where steps lead from a directory; two dots go up, and from the root they stay there. -/
def follow (d : Directory) (here : List Text) : List Text → Place
  | [] => .directory
  | step :: rest =>
    if step = "." then follow d here rest
    else if step = ".." then follow d here.dropLast rest
    else if maxNameSize < size step then
      if rest.isEmpty then .tooLong else .throughTooLong
    else
      let next := here ++ [step]
      if d.isDirectory next then follow d next rest
      else match d.file? next, rest with
        | some text, [] => .file next text
        | some _, _ => .throughFile
        | none, [] => .free next
        | none, _ => .nowhere

/-- Where a path leads, the names of which are in the form in which they are known. -/
def find (d : Directory) (path : Text) : Place :=
  if path.isEmpty then .nowhere
  else if maxPathSize < size path then .throughTooLong
  else d.follow (if path.startsWith "/" then [] else d.place) (steps path)

/-- The text of a file; the path of a file does not end with a slash. -/
def read (d : Directory) (path : Text) : Except FileFault String :=
  match known path with
  | .error f => .error f
  | .ok here =>
    match d.find here with
    | .file _ text => if path.endsWith "/" then .error (.notDirectory path) else .ok text
    | .directory => .error (.isDirectory path)
    | .free _ | .nowhere => .error (.missing path)
    | .throughFile => .error (.notDirectory path)
    | .tooLong | .throughTooLong => .error (.tooLong path)

/-- The files with a text under the given names. -/
def put (names : List Text) (text : String) :
    List (List Text × String) → List (List Text × String)
  | [] => [(names, text)]
  | f :: rest => if f.1 = names then (names, text) :: rest else f :: put names text rest

/-- The directory with a text under the names of a place. -/
def store (d : Directory) (names : List Text) (text : String) : Directory :=
  { d with files := put names text d.files }

/-- The names under which a file can be written. A path that ends with a slash is taken for that
of a directory, whatever its last name. -/
def writable (d : Directory) (path : Text) : Except FileFault (List Text) :=
  match known path with
  | .error f => .error f
  | .ok here =>
    let unlessSlashed (r : Except FileFault (List Text)) :=
      if path.endsWith "/" then .error (.isDirectory path) else r
    match d.find here with
    | .file names _ | .free names => unlessSlashed (.ok names)
    | .tooLong => unlessSlashed (.error (.tooLong path))
    | .directory => .error (.isDirectory path)
    | .nowhere => .error (.missing path)
    | .throughFile => .error (.notDirectory path)
    | .throughTooLong => .error (.tooLong path)

end Directory

end FuzzyInference

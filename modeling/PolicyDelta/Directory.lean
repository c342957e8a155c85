import PolicyDelta.Path
import PolicyDelta.Text.Quoted

/-! Files. A program reaches files through `FileAccess`; a `Directory` is a working directory whose
files are known, below other directories of which nothing is known but that they are there. -/

namespace PolicyDelta

/-- Why a file cannot be opened. -/
inductive FileFailure where
  | missing (path : String)
  | isDirectory (path : String)
  /-- A part of the path that should be a directory is a file. -/
  | notDirectory (path : String)
  /-- The path or a part of it is longer than paths may be. -/
  | tooLong (path : String)
  /-- A path holds the character that ends paths. -/
  | nulInPath
deriving DecidableEq

/-- The message for a file that cannot be opened. -/
def FileFailure.message : FileFailure → String
  | missing path => s!"[Errno 2] No such file or directory: {Text.quoted path}"
  | isDirectory path => s!"[Errno 21] Is a directory: {Text.quoted path}"
  | notDirectory path => s!"[Errno 20] Not a directory: {Text.quoted path}"
  | tooLong path => s!"[Errno 36] File name too long: {Text.quoted path}"
  | nulInPath => "embedded null byte"

/-- Access to files by their paths. -/
structure FileAccess (m : Type → Type) where
  read : String → m (Except FileFailure ByteArray)
  /-- Makes a file that is there empty, or a new empty file. -/
  create : String → m (Except FileFailure Unit)
  /-- Adds a text to a file that has been created. -/
  append : String → String → m Unit

/-- The files of the working directory, by their names. -/
structure Directory where
  files : List (String × ByteArray)

namespace Directory

def get? (d : Directory) (name : String) : Option ByteArray :=
  (d.files.find? (·.1 = name)).map Prod.snd

/-- The files with another content of one name. -/
def putFile (name : String) (content : ByteArray) :
    List (String × ByteArray) → List (String × ByteArray)
  | [] => [(name, content)]
  | f :: fs => if f.1 = name then (name, content) :: fs else f :: putFile name content fs

/-- The directory with a file. -/
def put (d : Directory) (name : String) (content : ByteArray) : Directory :=
  ⟨putFile name content d.files⟩

/-- Where a path leads. -/
inductive Place where
  /-- The working directory. -/
  | here
  /-- A directory above the working directory. -/
  | above
  | file (name : String)
  /-- A name in the working directory that no file has. -/
  | free (name : String)
  | nowhere
  /-- Beyond a file. -/
  | beyond
  /-- A name in a directory that is longer than names may be. -/
  | overlong
deriving DecidableEq

def maxName : Nat := 255

def maxPath : Nat := 4095

/-- The place after another part of a path. -/
def step (d : Directory) (place : Place) (part : String) : Place :=
  match place with
  | .here =>
    if part = "." then .here
    else if part = ".." then .above
    else if maxName < part.utf8ByteSize then .overlong
    else if (d.get? part).isSome then .file part
    else .free part
  | .above =>
    if part = "." ∨ part = ".." then .above
    else if maxName < part.utf8ByteSize then .overlong
    else .nowhere
  | .free _ | .nowhere => .nowhere
  | .file _ | .beyond => .beyond
  | .overlong => .overlong

/-- The place where a path starts. -/
def start (path : String) : Place :=
  if path.toList.head? = some '/' then .above else if path = "" then .nowhere else .here

/-- The place of a path with its dots. -/
def locate (d : Directory) (path : String) : Place :=
  (Path.partsOf path.toList).foldl d.step (start path)

/-- The place in which the last part of a path lies. -/
def locateParent (d : Directory) (path : String) : Place :=
  (Path.partsOf path.toList).dropLast.foldl d.step (start path)

def checkPath (path : String) : Except FileFailure Unit :=
  if '\x00' ∈ path.toList then .error .nulInPath
  else if maxPath < path.utf8ByteSize then .error (.tooLong path)
  else .ok ()

def read (d : Directory) (path : String) : Except FileFailure ByteArray := do
  checkPath path
  match d.locate path with
  | .here | .above => throw (.isDirectory path)
  | .free _ | .nowhere => throw (.missing path)
  | .beyond => throw (.notDirectory path)
  | .overlong => throw (.tooLong path)
  | .file name => pure ((d.get? name).getD ByteArray.empty)

/-- The name of the file that is created at a path. A path that ends in a slash names a
directory, so its last part is not looked up. -/
def creatable (d : Directory) (path : String) : Except FileFailure String := do
  checkPath path
  if path.toList.getLast? = some '/' then
    match d.locateParent path with
    | .here | .above => throw (.isDirectory path)
    | .free _ | .nowhere => throw (.missing path)
    | .file _ | .beyond => throw (.notDirectory path)
    | .overlong => throw (.tooLong path)
  else
    match d.locate path with
    | .here | .above => throw (.isDirectory path)
    | .nowhere => throw (.missing path)
    | .beyond => throw (.notDirectory path)
    | .overlong => throw (.tooLong path)
    | .free name | .file name => pure name

def create (d : Directory) (path : String) : Except FileFailure Directory :=
  (d.creatable path).map fun name => d.put name ByteArray.empty

def append (d : Directory) (path text : String) : Directory :=
  match d.creatable path with
  | .ok name => d.put name ((d.get? name).getD ByteArray.empty ++ text.toUTF8)
  | .error _ => d

/-- Access to the files of a directory that is the state. -/
def access : FileAccess (StateM Directory) where
  read path := do pure ((← get).read path)
  create path := do
    match (← get).create path with
    | .ok d => set d; pure (.ok ())
    | .error e => pure (.error e)
  append path text := modify (·.append path text)

end Directory

end PolicyDelta

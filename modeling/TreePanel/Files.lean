import TreePanel.Path

/-!
# A store of files

Files and folders are known by their locations, the names on the way down from the root. A path is
followed step by step, and every step starts from a folder. What a path with a final separator leads
to has to be a folder as well. An operation that fails says why and, where it had already made
folders, leaves them.
-/

namespace TreePanel

/-- What a location holds. -/
inductive Files.Entry where
  | folder
  | file (content : ByteArray)

/-- A store of files; the root is always a folder. -/
structure Files where
  /-- Everything but the root, the last change first. -/
  entries : List (List String × Files.Entry)

namespace Files

/-- Why an operation failed. -/
inductive Failure where
  /-- There is nothing at a location. -/
  | missing
  /-- There is something at a location already. -/
  | occupied
  /-- A file was to be used as a folder. -/
  | notFolder
  /-- A folder was to be used as a file. -/
  | isFolder
  /-- A name is longer than 255 bytes, or a path longer than 4095. -/
  | tooLong
  /-- A path holds U+0000. -/
  | noPath
  /-- The content of a file is no UTF-8. -/
  | notText
deriving DecidableEq, Repr

/-- The wording of a failure. -/
def Failure.message : Failure → String
  | missing => "No such file or directory (os error 2)"
  | occupied => "File exists (os error 17)"
  | notFolder => "Not a directory (os error 20)"
  | isFolder => "Is a directory (os error 21)"
  | tooLong => "File name too long (os error 36)"
  | noPath => "file name contained an unexpected NUL byte"
  | notText => "stream did not contain valid UTF-8"

/-- A store that holds nothing. -/
def empty : Files := ⟨[]⟩

/-! ## Locations -/

/-- What a location holds, if it holds anything. -/
def entry? (f : Files) (location : List String) : Option Entry :=
  if location.isEmpty then some .folder else f.entries.lookup location

/-- Put something at a location. -/
def put (f : Files) (location : List String) (entry : Entry) : Files :=
  ⟨(location, entry) :: f.entries.filter fun known => known.1 != location⟩

/-- Where a step leads to. -/
def step (location : List String) (name : String) : List String :=
  if name = "." then location
  else if name = ".." then location.dropLast
  else location ++ [name]

/-- The longest name of a place, in bytes. -/
def longestName : Nat := 255

/-- The longest path, in bytes. -/
def longestPath : Nat := 4095

/-- Follow steps from a location on. All that lead further have to be folders. -/
def walk (f : Files) (location : List String) : List String → Except Failure (List String)
  | [] => .ok location
  | name :: rest =>
    match f.entry? location with
    | none => .error .missing
    | some (.file _) => .error .notFolder
    | some .folder =>
      if longestName < name.utf8ByteSize then .error .tooLong
      else f.walk (step location name) rest

/-- Follow the given steps of a path, if it is a path at all. -/
def follow (f : Files) (path : String) (steps : List String) : Except Failure (List String) :=
  if path.toList.contains '\x00' then .error .noPath
  else if longestPath < path.utf8ByteSize then .error .tooLong
  else f.walk [] steps

/-- The location that the steps of a path lead to, whether or not it holds anything. -/
def target (f : Files) (path : String) : Except Failure (List String) :=
  f.follow path (Path.steps path)

/-- The location that a path leads to. A final separator asks for a folder, as a last `.` does. -/
def locate (f : Files) (path : String) : Except Failure (List String) :=
  f.follow path (Path.steps path ++ if Path.endsInSeparator path then ["."] else [])

/-- The folder in which the last step of a path is taken. -/
def around (f : Files) (path : String) : Except Failure (List String) :=
  f.follow path ((Path.steps path).dropLast ++ ["."])

/-! ## Operations -/

/-- Whether a path leads to a folder. -/
def isFolder (f : Files) (path : String) : Bool :=
  match f.locate path with
  | .error _ => false
  | .ok location =>
    match f.entry? location with
    | some .folder => true
    | _ => false

/-- The content of a file. -/
def read (f : Files) (path : String) : Except Failure ByteArray := do
  let location ← f.locate path
  match f.entry? location with
  | none => throw .missing
  | some .folder => throw .isFolder
  | some (.file content) => return content

/-- The text of a file. -/
def readText (f : Files) (path : String) : Except Failure (List Char) := do
  let content ← f.read path
  match String.fromUTF8? content with
  | some text => return text.toList
  | none => throw .notText

/-- The store with the content of a file set. The file is made if need be, its folder is not. A
path with a final separator names no file, whatever its last step is. -/
def write (f : Files) (path : String) (content : ByteArray) : Except Failure Files := do
  if Path.endsInSeparator path then
    let _ ← f.around path
    throw .isFolder
  let location ← f.target path
  match f.entry? location with
  | some .folder => throw .isFolder
  | _ => return f.put location (.file content)

/-- The store with a new folder in a folder that exists. -/
def makeFolder (f : Files) (path : String) : Except Failure Files := do
  let location ← f.target path
  match f.entry? location with
  | some _ => throw .occupied
  | none => return f.put location .folder

/-- Make a folder in a folder that exists, unless it exists itself. Gives the store afterwards. -/
def ensureFolder (f : Files) (path : String) : Except Failure Unit × Files :=
  match f.makeFolder path with
  | .ok made => (.ok (), made)
  | .error failure => (if f.isFolder path then .ok () else .error failure, f)

/-- Make a folder, the first one, and those around it, unless they exist. What was made before a
failure stays. -/
def ensureFolders (f : Files) : List String → Except Failure Unit × Files
  | [] => (.ok (), f)
  | path :: around =>
    match f.ensureFolder path with
    | (.error .missing, f) =>
      match f.ensureFolders around with
      | (.ok (), f) => f.ensureFolder path
      | failed => failed
    | settled => settled

/-- Make a folder and those around it, unless they exist. Gives the store afterwards. -/
def makeFolders (f : Files) (path : String) : Except Failure Unit × Files :=
  f.ensureFolders (Path.ancestors path)

/-- The store without what a path leads to and all below it. -/
def remove (f : Files) (path : String) : Files :=
  match f.locate path with
  | .error _ => f
  | .ok location => ⟨f.entries.filter fun known => !location.isPrefixOf known.1⟩

end Files

end TreePanel

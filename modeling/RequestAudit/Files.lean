import RequestAudit.Text.Utf8

/-!
# Files

A store of files and folders as a program sees it, with a working folder in it. Every operation
is a function from stores to stores, so that what a program changes can be told from what it
leaves alone.
-/

namespace RequestAudit

/-- Where something stands in a store: the names from the root on. -/
abbrev Location := List String

/-- What stands at a location. -/
inductive Files.Item where
  | file (content : List UInt8)
  | folder
  /-- A device without content that takes everything. -/
  | sink
  /-- A device without content that takes nothing. -/
  | full
  deriving DecidableEq, Repr

/-- A store of files. -/
structure Files where
  /-- What there is, besides the root. -/
  items : List (Location × Files.Item)
  /-- The folder from which paths are followed. -/
  home : Location
  deriving Repr

namespace Files

/-- Why an operation on files fails. -/
inductive Fault where
  | notFound
  | exists
  | notFolder
  | isFolder
  | noSpace
  | longName
  /-- The path has a character that no path has. -/
  | badName
  /-- The content is no text. -/
  | notText
  deriving DecidableEq, Repr

/-- How the fault is worded. -/
def Fault.message : Fault → String
  | notFound => "No such file or directory (os error 2)"
  | .exists => "File exists (os error 17)"
  | notFolder => "Not a directory (os error 20)"
  | isFolder => "Is a directory (os error 21)"
  | noSpace => "No space left on device (os error 28)"
  | longName => "File name too long (os error 36)"
  | badName => "file name contained an unexpected NUL byte"
  | notText => "stream did not contain valid UTF-8"

/-- A store with an empty working folder and the devices. -/
def empty : Files where
  items := [(["home"], .folder), (["dev"], .folder), (["dev", "full"], .full),
    (["dev", "null"], .sink)]
  home := ["home"]

/-- What stands at a location, if anything does. -/
def item? (fs : Files) (l : Location) : Option Item :=
  if l = [] then some .folder else fs.items.lookup l

/-- Puts something at a location, instead of what stands there. -/
def putItem (l : Location) (i : Item) : List (Location × Item) → List (Location × Item)
  | [] => [(l, i)]
  | (k, j) :: rest => if k = l then (k, i) :: rest else (k, j) :: putItem l i rest

/-- The store with something at a location, instead of what stands there. -/
def put (fs : Files) (l : Location) (i : Item) : Files :=
  { fs with items := putItem l i fs.items }

/-- Whether a folder stands at the location. -/
def hasFolder (fs : Files) (l : Location) : Bool := fs.item? l == some .folder

/-! ## Paths -/

/-- A path: the names between its slashes, followed from the root or from the working folder. -/
structure Path where
  isAbsolute : Bool
  names : List String
  deriving DecidableEq, Repr

namespace Path

/-- The parts of a text between slashes. -/
def split : List Char → List (List Char)
  | [] => [[]]
  | c :: cs =>
    if c = '/' then [] :: split cs
    else match split cs with
      | [] => [[c]]
      | p :: ps => (c :: p) :: ps

/-- A path as it is written, with empty names where slashes meet. -/
def ofText (s : String) : Path :=
  let parts := (split s.toList).map String.ofList
  match s.toList with
  | '/' :: _ => ⟨true, parts.drop 1⟩
  | _ => ⟨false, parts⟩

/-- Names without those that lead nowhere. -/
def trimmed (names : List String) : List String :=
  names.filter fun n => n != "" && n != "."

/-- The path without names that lead nowhere; only a dot at the beginning stays. -/
def normal (p : Path) : Path :=
  match p.isAbsolute, p.names with
  | false, "." :: rest => ⟨false, "." :: trimmed rest⟩
  | a, names => ⟨a, trimmed names⟩

end Path

/-- Where a path begins. -/
def start (fs : Files) (p : Path) : Location := if p.isAbsolute then [] else fs.home

/-- The locations that names lead through from another one, whatever stands there. -/
def stations (here : Location) : List String → List Location
  | [] => []
  | name :: names =>
    let there := if name = "" || name = "." then here
      else if name = ".." then here.dropLast
      else here ++ [name]
    there :: stations there names

/-- The location that names lead to from another one. All but the last must be folders. -/
def walk (fs : Files) (here : Location) : List String → Except Fault Location
  | [] => .ok here
  | name :: names =>
    match fs.item? here with
    | none => .error .notFound
    | some .folder =>
      if name = "" || name = "." then fs.walk here names
      else if name = ".." then fs.walk here.dropLast names
      else if 255 < name.utf8ByteSize then .error .longName
      else fs.walk (here ++ [name]) names
    | some _ => .error .notFolder

/-- The location that a path leads to; something need not stand there. -/
def locate (fs : Files) (path : String) : Except Fault Location :=
  if path.toList.contains '\x00' then .error .badName
  else if path.isEmpty then .error .notFound
  else
    let p := Path.ofText path
    fs.walk (fs.start p) p.names

/-- What a path leads to. -/
def find (fs : Files) (path : String) : Except Fault Item := do
  match fs.item? (← fs.locate path) with
  | some i => .ok i
  | none => .error .notFound

/-- Whether a path leads to something. -/
def has (fs : Files) (path : String) : Bool :=
  match fs.find path with
  | .ok _ => true
  | .error _ => false

/-! ## Reading -/

/-- The bytes of something. -/
def Item.bytes : Item → Except Fault (List UInt8)
  | file content => .ok content
  | folder => .error .isFolder
  | sink => .ok []
  | full => .ok []

/-- The bytes that a path leads to. -/
def read (fs : Files) (path : String) : Except Fault (List UInt8) := do
  (← fs.find path).bytes

/-- The text that a path leads to. -/
def readText (fs : Files) (path : String) : Except Fault String := do
  match Text.Utf8.decode (← fs.read path) with
  | .ok cs => .ok (String.ofList cs)
  | .error _ => .error .notText

/-! ## Writing -/

/-- Makes a folder of the given name in the folder that the names before it lead to. -/
def makeFolder (fs : Files) (start : Location) (above : List String) (name : String) :
    Except Fault Files := do
  let here ← fs.walk start above
  match fs.item? here with
  | none => throw .notFound
  | some .folder =>
    if name = "." || name = ".." then throw .exists
    else if 255 < name.utf8ByteSize then throw .longName
    else if (fs.item? (here ++ [name])).isSome then throw .exists
    else pure (fs.put (here ++ [name]) .folder)
  | some _ => throw .notFolder

/-- Whether the names lead to a folder. -/
def leadToFolder (fs : Files) (start : Location) (names : List String) : Bool :=
  match fs.walk start names with
  | .ok l => fs.hasFolder l
  | .error _ => false

/-- Makes the folder that the names lead to, which are given in reverse, and those above it if
they are missing. What is made before a fault stays. -/
def makeFolders (fs : Files) (start : Location) : List String → Option Fault × Files
  | [] => (none, fs)
  | name :: above =>
    let settle (fs : Files) (e : Fault) : Option Fault × Files :=
      if fs.leadToFolder start (name :: above).reverse then (none, fs) else (some e, fs)
    match fs.makeFolder start above.reverse name with
    | .ok fs => (none, fs)
    | .error .notFound => match fs.makeFolders start above with
      | (some e, fs) => (some e, fs)
      | (none, fs) => match fs.makeFolder start above.reverse name with
        | .ok fs => (none, fs)
        | .error e => settle fs e
    | .error e => settle fs e

/-- Makes the folder around what a path leads to. -/
def makeParent (fs : Files) (path : String) : Option Fault × Files :=
  let p := (Path.ofText path).normal
  match p.names.reverse with
  | [] => (none, fs)
  | _ :: above =>
    if path.toList.contains '\x00' then (if above = [] then none else some .badName, fs)
    else fs.makeFolders (fs.start p) above

/-- The location of a file that is to be extended, which is made if it is missing. -/
def openEnd (fs : Files) (path : String) : Except Fault (Location × Files) :=
  let last := (Path.ofText path).names.getLast?
  let p := Path.ofText path
  if last = some "" && !path.isEmpty && !path.toList.contains '\x00' then
    -- a slash at the end asks for a folder, which cannot be extended
    match fs.walk (fs.start p) p.names.dropLast with
    | .error e => .error e
    | .ok l => match fs.item? l with
      | none => .error .isFolder
      | some .folder => .error .isFolder
      | some _ => .error .notFolder
  else match fs.locate path with
    | .error e => .error e
    | .ok l => match fs.item? l with
      | some .folder => .error .isFolder
      | some _ => .ok (l, fs)
      | none =>
        if fs.hasFolder l.dropLast then .ok (l, fs.put l (.file []))
        else match fs.item? l.dropLast with
          | none => .error .notFound
          | some _ => .error .notFolder

/-- Adds bytes at the end of what stands at a location. -/
def extend (fs : Files) (l : Location) (bytes : List UInt8) : Option Fault × Files :=
  match fs.item? l with
  | some (.file content) => (none, fs.put l (.file (content ++ bytes)))
  | some .sink => (none, fs)
  | some .full => (if bytes.isEmpty then none else some .noSpace, fs)
  | some .folder => (some .isFolder, fs)
  | none => (some .notFound, fs)

end Files

end RequestAudit

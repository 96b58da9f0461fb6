/-
# File stores

A file system in memory: directories and files by their absolute paths. There are no links, so that
every path leads to one place.
-/

import BindingRepair.FileSystem
import BindingRepair.SortedTable

namespace BindingRepair

inductive FileEntry
  | file (content : ByteArray)
  | directory

/-- What stands at which place. A place is given by the names that lead to it from the root, which is
always a directory. -/
structure FileStore where
  entries : SortedTable (List String) FileEntry := []

namespace FileStore

def empty : FileStore := {}

/-- What stands at a place. -/
def entry? (s : FileStore) (place : List String) : Option FileEntry :=
  if place.isEmpty then some .directory else s.entries.lookup place

/-- The store with an entry at a place. -/
def put (s : FileStore) (place : List String) (entry : FileEntry) : FileStore :=
  ⟨s.entries.insert Path.before place entry⟩

/-- The most bytes that a name has. -/
def maxNameSize : Nat := 255

/-- Every path has fewer bytes than this. -/
def pathSizeBound : Nat := 4096

/-- Makes sure that a name is not too long. -/
def checkName (name : String) : Except FileError Unit :=
  if maxNameSize < name.utf8ByteSize then .error .nameTooLong else .ok ()

/-- Makes sure that a path may be that of a file. -/
def checkPath (path : String) : Except FileError Unit :=
  if path.toList.contains '\x00' then .error .nulInPath
  else if path.isEmpty then .error .notFound
  else if pathSizeBound ≤ path.utf8ByteSize then .error .nameTooLong
  else .ok ()

/-- The place that the segments of a path lead to from another place. Every place on the way must be a
directory; the last one need not exist. -/
def walk (s : FileStore) (place : List String) :
    List (List Char) → Except FileError (List String)
  | [] => .ok place
  | segment :: rest =>
    match s.entry? place with
    | none => .error .notFound
    | some (.file _) => .error .notADirectory
    | some .directory =>
      match Path.Component.ofSegment? segment with
      | some (.name n) => do
        checkName n
        walk s (place ++ [n]) rest
      | some .up => walk s place.dropLast rest
      | _ => walk s place rest

/-- Where a path begins: at the root, or at `current`. -/
def origin (current : List String) (path : String) : List String :=
  if Path.isAbsolute path then [] else current

/-- The place that a path leads to from the directory at `current`. -/
def place (s : FileStore) (current : List String) (path : String) :
    Except FileError (List String) := do
  checkPath path
  s.walk (origin current path) (Path.segments path)

/-- The directory in which the last component of a path is found, and that component if it is a name.
Slashes behind it do not count. -/
def placeAround (s : FileStore) (current : List String) (path : String) :
    Except FileError (List String × Option String) := do
  checkPath path
  match (Path.segments path).reverse.dropWhile (·.isEmpty) with
  | [] => return ([], none)
  | last :: before =>
    let place ← s.walk (origin current path) before.reverse
    match s.entry? place with
    | none => throw .notFound
    | some (.file _) => throw .notADirectory
    | some .directory =>
      match Path.Component.ofSegment? last with
      | some (.name n) => return (place, some n)
      | _ => return (place, none)

/-- What a path leads to. -/
def find (s : FileStore) (current : List String) (path : String) :
    Except FileError (List String × FileEntry) := do
  let place ← s.place current path
  match s.entry? place with
  | none => throw .notFound
  | some entry => return (place, entry)

def readText (s : FileStore) (current : List String) (path : String) :
    Except FileError String := do
  match (← s.find current path).2 with
  | .directory => throw .isADirectory
  | .file content =>
    match String.fromUTF8? content with
    | none => throw .notText
    | some text => return text

def isFile (s : FileStore) (current : List String) (path : String) : Bool :=
  match s.find current path with
  | .ok (_, .file _) => true
  | _ => false

def isDirectory (s : FileStore) (current : List String) (path : String) : Bool :=
  match s.find current path with
  | .ok (_, .directory) => true
  | _ => false

def resolve (s : FileStore) (current : List String) (path : String) : Except FileError String := do
  return "/" ++ Path.ofNames (← s.find current path).1

/-- Gives a file the given bytes. A path that ends with a slash, a dot or two dots is never that of a
file. -/
def write (s : FileStore) (current : List String) (path : String) (content : ByteArray) :
    Except FileError FileStore := do
  let (around, name?) ← s.placeAround current path
  if path.toList.getLast? == some '/' then throw .isADirectory
  match name? with
  | none => throw .isADirectory
  | some name =>
    checkName name
    match s.entry? (around ++ [name]) with
    | some .directory => throw .isADirectory
    | _ => return s.put (around ++ [name]) (.file content)

/-- Makes a directory in one that exists. -/
def makeDirectory (s : FileStore) (current : List String) (path : String) :
    Except FileError FileStore := do
  let (around, name?) ← s.placeAround current path
  match name? with
  | none => throw .alreadyExists
  | some name =>
    checkName name
    match s.entry? (around ++ [name]) with
    | some _ => throw .alreadyExists
    | none => return s.put (around ++ [name]) .directory

/-- Does a change of the store, unless it fails. -/
def change (f : FileStore → Except FileError FileStore) : StateM FileStore (Except FileError Unit) :=
  modifyGet fun s =>
    match f s with
    | .error e => (.error e, s)
    | .ok changed => (.ok (), changed)

/-- The file system of a store, in which relative paths begin at `current`. -/
def fileSystem (current : List String) : FileSystem (StateM FileStore) where
  readText path := return (← get).readText current path
  isFile path := return (← get).isFile current path
  isDirectory path := return (← get).isDirectory current path
  resolve path := return (← get).resolve current path
  makeDirectory path := change (·.makeDirectory current path)
  writeText path text := change (·.write current path text.toUTF8)

/-- The text files below a place, by their paths relative to it. -/
def textsBelow (s : FileStore) (place : List String) : SortedTable String String :=
  s.entries.filterMap fun (names, entry) => do
    let inside ← place.isPrefixOf? names
    match entry with
    | .directory => none
    | .file content => return (Path.ofNames inside, ← String.fromUTF8? content)

end FileStore

end BindingRepair

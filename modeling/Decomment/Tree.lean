import Decomment.Path
import Decomment.Keyed

/-!
# Trees of files

A tree holds at most one file or directory at each location: the names on the way from the root.
A path is resolved to a location by following its pieces, and what is not the last piece must be a
directory.

**Results.**
* `find_put_self`, `find_put_of_ne`: what putting an entry at a location does.
* `find_eraseBelow_of_not_prefix`: an erasure leaves all other locations alone.
-/

namespace Decomment

/-- The names on the way from the root to a file or directory. -/
abbrev Location := List String

def Location.path (l : Location) : String :=
  "/" ++ "/".intercalate l

/-- The location and those above it, nearest first. -/
def Location.upward (l : Location) : List Location :=
  (List.range (l.length + 1)).map fun n => l.take (l.length - n)

/-- Where a command runs: its current directory, and the path of the home directory. -/
structure Place where
  cwd : Location
  home : String
deriving DecidableEq, Repr

/-- A file with its bytes, or a directory. -/
inductive Entry
  | file (content : ByteArray)
  | directory

/-- Files and directories at their locations. -/
structure Tree where
  nodes : Keyed.Map Location Entry

namespace Tree

section Locations

/-- Nothing but the root. -/
def empty : Tree :=
  ⟨.empty⟩

/-- What stands at a location.  The root is a directory. -/
def find (t : Tree) : Location → Option Entry
  | [] => some .directory
  | l => t.nodes.find? l

/-- The tree with an entry at a location. -/
def put (t : Tree) (l : Location) (e : Entry) : Tree :=
  ⟨t.nodes.insert l e⟩

/-- The tree without what stands at a location and below it. -/
def eraseBelow (t : Tree) (l : Location) : Tree :=
  ⟨t.nodes.filter (!l.isPrefixOf ·)⟩

/-- The location is that of a directory. -/
def isDirectoryAt (t : Tree) (l : Location) : Bool :=
  match t.find l with
  | some .directory => true
  | _ => false

/-- The bytes of the file at a location. -/
def fileAt (t : Tree) (l : Location) : Option ByteArray :=
  match t.find l with
  | some (.file b) => some b
  | _ => none

/-- The files below a location, with the names on the way from there. -/
def filesBelow (t : Tree) (l : Location) : List (List String × ByteArray) :=
  t.nodes.entries.filterMap fun (m, e) =>
    match e with
    | .file b => if l.isPrefixOf m && l.length < m.length then some (m.drop l.length, b) else none
    | .directory => none

/-- The entries of the directory at a location, with their names. -/
def entriesIn (t : Tree) (l : Location) : List (String × Entry) :=
  t.nodes.entries.filterMap fun (m, e) =>
    if m.dropLast = l then m.getLast?.map (·, e) else none

/-- The number of levels below the root. -/
def height (t : Tree) : Nat :=
  t.nodes.entries.foldr (fun (l, _) n => max l.length n) 0

/-- The tree with a directory at every location on the way down from `l`, where nothing stands
yet. -/
def putDirectories (t : Tree) (l : Location) : List String → Tree
  | [] => t
  | s :: rest =>
      let m := l ++ [s]
      putDirectories (if (t.find m).isSome then t else t.put m .directory) m rest

end Locations

section Paths

/-- The location after one more piece. -/
def descend (l : Location) (piece : String) : Location :=
  if piece = "" || piece = "." then l
  else if piece = ".." then l.dropLast
  else l ++ [piece]

/-- What is wrong with a location as a directory, if anything. -/
def directoryError (t : Tree) (l : Location) : Option FsError :=
  match t.find l with
  | some .directory => none
  | some (.file _) => some .notADirectory
  | none => some .notFound

/-- Follows pieces from a location.  Whatever has a piece after it must be a directory. -/
def follow (t : Tree) (l : Location) : List String → Except FsError Location
  | [] => .ok l
  | piece :: rest =>
      match t.directoryError l with
      | some e => .error e
      | none => follow t (descend l piece) rest

/-- The location of a path, where relative paths start from `cwd`.  The last name need not
exist. -/
def resolve (t : Tree) (cwd : Location) (path : String) : Except FsError Location :=
  if path = "" then .error .notFound
  else follow t (if Path.isAbsolute path then [] else cwd) (Path.pieces path)

/-- What stands at a path. -/
def stat (t : Tree) (cwd : Location) (path : String) : Except FsError (Location × Entry) := do
  let l ← t.resolve cwd path
  match t.find l with
  | some e => .ok (l, e)
  | none => .error .notFound

def holds (t : Tree) (cwd : Location) (path : String) : Bool :=
  match t.stat cwd path with
  | .ok _ => true
  | .error _ => false

/-- The location of the file at a path, if there is one. -/
def locateFile (t : Tree) (cwd : Location) (path : String) : Option Location :=
  match t.stat cwd path with
  | .ok (l, .file _) => some l
  | _ => none

/-- The location of the directory at a path, if there is one. -/
def locateDirectory (t : Tree) (cwd : Location) (path : String) : Option Location :=
  match t.stat cwd path with
  | .ok (l, .directory) => some l
  | _ => none

/-- The bytes of the file at a path. -/
def read (t : Tree) (cwd : Location) (path : String) : Except FsError ByteArray := do
  match ← t.stat cwd path with
  | (_, .file b) => .ok b
  | (_, .directory) => .error .isADirectory

/-- The text of the file at a path. -/
def readText (t : Tree) (cwd : Location) (path : String) : Except FsError Text := do
  let b ← t.read cwd path
  match String.fromUTF8? b with
  | some s => .ok s.toList
  | none => .error .notText

/-- The tree with a file at a location whose directory exists. -/
def writeAt (t : Tree) (l : Location) (b : ByteArray) : Except FsError Tree :=
  match t.find l with
  | some .directory => .error .isADirectory
  | some (.file _) => .ok (t.put l (.file b))
  | none =>
      match t.directoryError l.dropLast with
      | some e => .error e
      | none => .ok (t.put l (.file b))

/-- The tree with a text in the file at a path. -/
def writeText (t : Tree) (cwd : Location) (path : String) (s : Text) : Except FsError Tree := do
  let l ← t.resolve cwd path
  t.writeAt l (String.ofList s).toUTF8

/-- Follows pieces from a directory and makes every directory that is missing on the way.  Where a
file is in the way, the directories that were made by then stay. -/
def makeAlong (t : Tree) (l : Location) : List String → Tree × Option FsError
  | [] => (t, none)
  | piece :: rest =>
      let m := descend l piece
      match t.find m with
      | some .directory => makeAlong t m rest
      | some (.file _) => (t, some .alreadyExists)
      | none => makeAlong (t.put m .directory) m rest

/-- The tree with a directory at the path, or why there is none.  What is missing on the way to it
is made. -/
def makeDirectories (t : Tree) (cwd : Location) (path : String) : Tree × Option FsError :=
  match t.stat cwd path with
  | .ok (_, .directory) => (t, none)
  | .ok (_, .file _) => (t, some .alreadyExists)
  | .error .notFound =>
      let start := if Path.isAbsolute path then [] else cwd
      match t.directoryError start with
      | some e => (t, some e)
      | none => t.makeAlong start (Path.pieces path)
  | .error e => (t, some e)

end Paths

section Laws

@[simp]
theorem find_nil (t : Tree) : t.find [] = some .directory :=
  rfl

theorem find_of_ne_nil (t : Tree) {l : Location} (h : l ≠ []) : t.find l = t.nodes.find? l := by
  cases l with
  | nil => exact absurd rfl h
  | cons s l => rfl

theorem find_put_self (t : Tree) {l : Location} (h : l ≠ []) (e : Entry) :
    (t.put l e).find l = some e := by
  rw [find_of_ne_nil _ h]
  exact t.nodes.find?_insert_self l e

theorem find_put_of_ne (t : Tree) {l m : Location} (h : m ≠ l) (e : Entry) :
    (t.put l e).find m = t.find m := by
  cases m with
  | nil => rfl
  | cons s m => exact t.nodes.find?_insert_of_ne e h

theorem find_eraseBelow_of_not_prefix (t : Tree) {l m : Location}
    (h : l.isPrefixOf m = false) : (t.eraseBelow l).find m = t.find m := by
  cases m with
  | nil => rfl
  | cons s m => exact t.nodes.find?_filter_of_true (by rw [h, Bool.not_false])

end Laws

end Tree
end Decomment

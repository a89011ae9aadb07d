import Decomment.Ignore

/-!
# Exclude files

Version control keeps ignore rules of its own.  Those for everything stand in a file that its
settings may name; a name counts up to the end of its line, with or without quotes, and a tilde
stands for the home directory.  Those for one directory stand in the store of its repository, a
directory of a fixed name; a file of that name says where else the store is.

**Results.**
* `all_of_valueFrom`: a value that is read holds no blanks.
* `storeOf_of_not_file`: unless a file stands there, the store is where it always is.
-/

namespace Decomment
namespace Ignore

section Settings

/-- The blanks of a settings file, line feeds among them. -/
def isBlankByte (b : UInt8) : Bool :=
  (0x09 ≤ b && b ≤ 0x0D) || b = 0x20

/-- The bytes without the blanks in front. -/
def dropBlanks (bs : List UInt8) : List UInt8 :=
  bs.dropWhile isBlankByte

/-- Nothing but blanks follows up to the end of a line. -/
def endsLine (bs : List UInt8) : Bool :=
  (bs.takeWhile isBlankByte).contains 0x0A || (dropBlanks bs).isEmpty

/-- Nothing but blanks and at most one quote follow up to the end of a line. -/
def endsValue (bs : List UInt8) : Bool :=
  endsLine bs ||
    match dropBlanks bs with
    | 0x22 :: rest => endsLine rest
    | _ => false

/-- The shortest value after which the line ends. -/
def valueFrom : List UInt8 → Option (List UInt8)
  | [] => none
  | b :: bs =>
      if isBlankByte b then none
      else if endsValue bs then some [b]
      else (valueFrom bs).map (b :: ·)

/-- The value after an equals sign.  A quote in front is left out if a value follows it. -/
def valueAfter (bs : List UInt8) : Option (List UInt8) :=
  match dropBlanks bs with
  | 0x22 :: rest => (valueFrom (dropBlanks rest)).or (valueFrom (0x22 :: rest))
  | bs => valueFrom bs

/-- The key of the setting that names a file. -/
def excludesKey : List UInt8 :=
  "excludesfile".toUTF8.toList

/-- The byte of a small letter for that of the capital one. -/
def lowerByte (b : UInt8) : UInt8 :=
  if 0x41 ≤ b && b ≤ 0x5A then b + 0x20 else b

/-- The value of the setting with which a line starts.  Blanks in front of it do not count, be
they whole lines. -/
def settingAt (bs : List UInt8) : Option (List UInt8) :=
  let bs := dropBlanks bs
  if (bs.take excludesKey.length).map lowerByte = excludesKey then
    match dropBlanks (bs.drop excludesKey.length) with
    | 0x3D :: rest => valueAfter rest
    | _ => none
  else none

/-- What follows the line feeds. -/
def afterFeeds : List UInt8 → List (List UInt8)
  | [] => []
  | b :: bs => if b = 0x0A then bs :: afterFeeds bs else afterFeeds bs

/-- The file that settings name. -/
def namedFile (home : String) (bs : List UInt8) : Option String :=
  match (bs :: afterFeeds bs).findSome? settingAt with
  | none => none
  | some value =>
      (String.fromUTF8? value.toByteArray).map fun s =>
        String.ofList (s.toList.flatMap fun c => if c = '~' then home.toList else [c])

/-- The settings of the version control, those that count first in front. -/
def settingsPaths (home : String) : List String :=
  [Path.join home ".gitconfig", Path.join home ".config/git/config"]

/-- The path of the version control's ignore file for everything. -/
def excludesPath (tree : Tree) (place : Place) : String :=
  let named (path : String) : Option String :=
    match tree.read place.cwd path with
    | .ok b => namedFile place.home b.toList
    | .error _ => none
  ((settingsPaths place.home).findSome? named).getD (Path.join place.home ".config/git/ignore")

theorem all_of_valueFrom : ∀ {bs value : List UInt8}, valueFrom bs = some value →
    ∀ b ∈ value, isBlankByte b = false
  | [], _, h => by cases h
  | b :: bs, value, h => by
      rw [valueFrom] at h
      split at h
      · cases h
      · rename_i hb
        split at h
        · cases h
          simpa using hb
        · obtain ⟨rest, hr, rfl⟩ := Option.map_eq_some_iff.1 h
          intro c hc
          rcases List.mem_cons.1 hc with rfl | hc
          · simpa using hb
          · exact all_of_valueFrom hr c hc

end Settings

section Stores

/-- The name of the store of a repository. -/
def storeName : String :=
  ".git"

/-- Where the ignore rules of a repository stand in its store. -/
def storedName : String :=
  "info/exclude"

/-- The names by which the directory of a repository is known. -/
def repositoryMarks : List String :=
  [storeName, ".jj"]

/-- The directory at a path is that of a repository. -/
def isRepository (tree : Tree) (cwd : Location) (directory : String) : Bool :=
  repositoryMarks.any fun name => tree.holds cwd (Path.join directory name)

/-- The first line of the file at a path, if there is one. -/
def firstLine (tree : Tree) (cwd : Location) (path : String) : Except FsError (Option Text) := do
  match (byteLines (← tree.read cwd path)).head? with
  | none => .ok none
  | some none => .error .notText
  | some (some t) => .ok (some t)

/-- The first line of a file that decides where a store is.  It need not exist. -/
def pointer (tree : Tree) (cwd : Location) (path : String) : Except Fault (Option Text) :=
  match firstLine tree cwd path with
  | .ok t => .ok t
  | .error .isADirectory => .error (.file path .isADirectory)
  | .error .notText => .error (.file path .notText)
  | .error _ => .ok none

/-- The store of a worktree: the store itself, or where it says that it shares one. -/
def sharedStore (tree : Tree) (cwd : Location) (store : String) : Except Fault (Option String) :=
  match pointer tree cwd (Path.join store "commondir") with
  | .error e => .error e
  | .ok none => .ok none
  | .ok (some t) =>
      .ok (some (if t.head? = some '.' then Path.join store (String.ofList t) else String.ofList t))

/-- The store for a directory, if it can be found. -/
def storeOf (tree : Tree) (cwd : Location) (directory : String) : Except Fault (Option String) :=
  let path := Path.join directory storeName
  match tree.locateFile cwd path with
  | none => .ok (some path)
  | some _ =>
      match pointer tree cwd path with
      | .error e => .error e
      | .ok none => .ok none
      | .ok (some t) =>
          match dropStart "gitdir: ".toList t with
          | none => .ok none
          | some t => sharedStore tree cwd (String.ofList t)

theorem storeOf_of_not_file {tree : Tree} {cwd : Location} {directory : String}
    (h : tree.locateFile cwd (Path.join directory storeName) = none) :
    storeOf tree cwd directory = .ok (some (Path.join directory storeName)) := by
  rw [storeOf]
  simp only [h]

end Stores

end Ignore
end Decomment

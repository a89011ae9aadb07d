import Decomment.Text.Blank

/-!
# TOML documents

A document is a table.  A table remembers how it came about, since that decides what may still be
added to it: the table of a header is complete, but for tables below it; a table that only stands
between the names of a header may get a header of its own; a table made by a dotted key may get
further dotted keys; a table written inline is closed.

**Results.**
* `insertAt_nil`: a plain key may be inserted exactly if it is new.
-/

namespace Decomment
namespace Toml

/-- How a table came about. -/
inductive TableKind
  | header
  | implied
  | dotted
  | inline
deriving DecidableEq, Repr

/-- A value of a document.  Of numbers with a fraction and of dates and times only the text is
kept. -/
inductive Node
  | string (s : String)
  | integer (n : Int)
  | boolean (b : Bool)
  | float (written : Text)
  | moment (written : Text)
  | array (elements : List Node)
  | table (kind : TableKind) (members : List (String × Node))
  /-- The tables of the headers in double brackets. -/
  | tables (each : List (List (String × Node)))
deriving Repr

/-- The members of a table, in the order of the text. -/
abbrev Table := List (String × Node)

namespace Table

/-- The members with another value for a name that is among them. -/
def replace (k : String) (v : Node) : Table → Table
  | [] => []
  | e :: es => if e.1 = k then (k, v) :: es else e :: replace k v es

/-- The members with one more, if its name is new. -/
def insertNew (k : String) (v : Node) (t : Table) : Option Table :=
  if (t.lookup k).isSome then none else some (t ++ [(k, v)])

/-- The members with a value at the end of a dotted key.  The tables on the way are made where
they are missing; the last of them must come from dotted keys. -/
def insertAt (k : String) (v : Node) : (path : List String) → Table → Option Table
  | [], t => insertNew k v t
  | first :: path, t =>
      match t.lookup first with
      | none => (insertAt k v path []).map fun new => t ++ [(first, .table .dotted new)]
      | some (.table kind old) =>
          if kind = .header || kind = .inline || (path.isEmpty && kind ≠ .dotted) then none
          else (insertAt k v path old).map fun new => replace first (.table kind new) t
      | some (.tables each) =>
          if path.isEmpty then none
          else
            match each.getLast? with
            | some old => (insertAt k v path old).map fun new =>
                replace first (.tables (each.dropLast ++ [new])) t
            | none => none
      | some _ => none

/-- Changes the table that the names of a header lead to.  The tables on the way are made where
they are missing; of tables in double brackets the last is meant. -/
def changeAt (f : Table → Option Table) : (path : List String) → Table → Option Table
  | [], t => f t
  | first :: path, t =>
      match t.lookup first with
      | none => (changeAt f path []).map fun new => t ++ [(first, .table .implied new)]
      | some (.table kind old) =>
          if kind = .inline then none
          else (changeAt f path old).map fun new => replace first (.table kind new) t
      | some (.tables each) =>
          match each.getLast? with
          | some old => (changeAt f path old).map fun new =>
              replace first (.tables (each.dropLast ++ [new])) t
          | none => none
      | some _ => none

theorem insertAt_nil (k : String) (v : Node) (t : Table) :
    insertAt k v [] t = if (t.lookup k).isSome then none else some (t ++ [(k, v)]) := rfl

end Table

/-- A dotted key, as the names before the last and the last, with its value. -/
structure Pair where
  path : List String
  key : String
  value : Node
deriving Repr

/-- A header, in single or in double brackets. -/
structure Header where
  path : List String
  key : String
  isRepeated : Bool
deriving Repr

/-- A header, unless it is the start of the document, and the pairs under it. -/
structure Part where
  header : Option Header
  pairs : List Pair
deriving Repr

namespace Table

/-- The members with some pairs. -/
def insertPairs (t : Table) (pairs : List Pair) : Option Table :=
  pairs.foldlM (fun t p => insertAt p.key p.value p.path t) t

/-- The members with the table of a header. -/
def addTable (key : String) (pairs : List Pair) (t : Table) : Option Table :=
  match t.lookup key with
  | none => (insertPairs [] pairs).map fun new => t ++ [(key, .table .header new)]
  | some (.table .implied old) =>
      (insertPairs old pairs).map fun new => replace key (.table .header new) t
  | some _ => none

/-- The members with one more table of a header in double brackets. -/
def addRepeated (key : String) (pairs : List Pair) (t : Table) : Option Table :=
  match t.lookup key with
  | none => (insertPairs [] pairs).map fun new => t ++ [(key, .tables [new])]
  | some (.tables each) =>
      (insertPairs [] pairs).map fun new => replace key (.tables (each ++ [new])) t
  | some _ => none

/-- The members with a part of the document. -/
def addPart (t : Table) (p : Part) : Option Table :=
  match p.header with
  | none => insertPairs t p.pairs
  | some h =>
      changeAt (if h.isRepeated then addRepeated h.key p.pairs else addTable h.key p.pairs) h.path t

/-- The table of a document in parts. -/
def ofParts (ps : List Part) : Option Table :=
  ps.foldlM addPart []

end Table
end Toml
end Decomment

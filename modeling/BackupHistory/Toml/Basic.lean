namespace BackupHistory

/-!
# TOML documents

A document is a table of keys, built from statements: headers that name the
table that follows and entries that put a value under a dotted key. How a table
came about decides what may be added to it later, so it is kept with the table.
-/

/-- How a table came about. -/
inductive Toml.Origin where
  /-- By a header of its own, or as the whole document. -/
  | header
  /-- By a header of a table inside it. -/
  | implied
  /-- By a dotted key. -/
  | dotted
  /-- As a value, which is complete. -/
  | inline
  deriving Repr, DecidableEq

/--
A TOML value.

Of numbers with a fraction and of dates only that they are valid is kept.
-/
inductive Toml where
  | string (text : String)
  | integer (number : Int)
  | measure
  | bool (value : Bool)
  | moment
  | array (elements : List Toml)
  | table (origin : Toml.Origin) (members : List (String × Toml))
  /-- The tables that repeated headers have begun. -/
  | sections (tables : List Toml)
  deriving Repr

namespace Toml

/-- A key that may be dotted. -/
abbrev Path :=
  List String

def find? (members : List (String × Toml)) (key : String) : Option Toml :=
  (members.find? fun entry => entry.1 == key).map Prod.snd

/-- Members with a value under a key, in the place of one that was there. -/
def put (key : String) (value : Toml) :
    List (String × Toml) → List (String × Toml)
  | [] => [(key, value)]
  | entry :: rest =>
      if entry.1 = key then
        (key, value) :: rest
      else
        entry :: put key value rest

/-- Whether later statements may add to a table of this origin. -/
def Origin.isOpen : Origin → Bool
  | .implied
  | .dotted => true
  | .header
  | .inline => false

/-- Whether a path of the given kind may lead through a table. -/
def Origin.admits (origin : Origin) (dotted : Bool) : Bool :=
  if dotted then
    origin.isOpen
  else
    origin != .inline

/--
Change the table that a path leads to, tables on the way being made as needed.

A path leads into the last of the tables that repeated headers have begun.
-/
def alter (dotted : Bool) (change : Toml → Option Toml) :
    Path → Toml → Option Toml
  | [], here => change here
  | key :: rest, .table origin members => do
      let value ←
        match find? members key with
        | none =>
            alter dotted change rest
              (.table (if dotted then .dotted else .implied) [])
        | some (.table inner innerMembers) =>
            if inner.admits dotted then
              alter dotted change rest (.table inner innerMembers)
            else
              none
        | some (.sections tables) =>
            match tables.getLast? with
            | none => none
            | some last =>
                (alter dotted change rest last).map fun changed =>
                  .sections (tables.dropLast ++ [changed])
        | some _ => none
      some (.table origin (put key value members))
  | _ :: _, _ => none

/-- A step in the writing of a document. -/
inductive Statement where
  /-- The entries that follow belong to a table. -/
  | header (path : Path) (key : String)
  /-- The entries that follow belong to one more table of a list. -/
  | repeatedHeader (path : Path) (key : String)
  /-- A value is put under a key. -/
  | entry (path : Path) (key : String) (value : Toml)
  deriving Repr

/-- Begin a table under a key; one that was only implied becomes it. -/
def beginTable (key : String) : Toml → Option Toml
  | .table origin members =>
      match find? members key with
      | none => some (.table origin (put key (.table .header []) members))
      | some (.table .implied inner) =>
          some (.table origin (put key (.table .header inner) members))
      | some _ => none
  | _ => none

/-- Begin one more table of the list under a key. -/
def beginRepeated (key : String) : Toml → Option Toml
  | .table origin members =>
      match find? members key with
      | none =>
          some (.table origin
            (put key (.sections [.table .header []]) members))
      | some (.sections tables) =>
          some (.table origin
            (put key (.sections (tables ++ [.table .header []])) members))
      | some _ => none
  | _ => none

/--
Put a value under a key that has none.

A table made by dotted keys takes entries by dotted keys only, and any other
table takes none by them.
-/
def addEntry (viaPath : Bool) (key : String) (value : Toml) :
    Toml → Option Toml
  | .table origin members =>
      if (origin == .dotted) == viaPath ∧ (find? members key).isNone then
        some (.table origin (put key value members))
      else
        none
  | _ => none

/-- Put a value under a dotted key of a table. -/
def insert (path : Path) (key : String) (value : Toml) :
    Toml → Option Toml :=
  alter true (addEntry (!path.isEmpty) key value) path

/-- A document in the middle of its statements. -/
structure Draft where
  document : Toml
  /-- The table that entries belong to. -/
  current : Path

namespace Draft

def start : Draft :=
  ⟨.table .header [], []⟩

/-- Carry out a statement, if it is consistent with the ones before it. -/
def step (draft : Draft) : Statement → Option Draft
  | .header path key => do
      let document ← alter false (beginTable key) path draft.document
      some ⟨document, path ++ [key]⟩
  | .repeatedHeader path key => do
      let document ← alter false (beginRepeated key) path draft.document
      some ⟨document, path ++ [key]⟩
  | .entry path key value => do
      let document ←
        alter false (insert path key value) draft.current draft.document
      some ⟨document, draft.current⟩

end Draft

/-- The document that statements write, if they are consistent. -/
def ofStatements? (statements : List Statement) : Option Toml :=
  (statements.foldlM Draft.step .start).map Draft.document

/-- The table that is written as a value with the given entries. -/
def inlineTable? (entries : List (Path × String × Toml)) : Option Toml := do
  let filled ←
    entries.foldlM
      (fun table (path, key, value) => insert path key value table)
      (.table .header [])
  match filled with
  | .table _ members => some (.table .inline members)
  | _ => none

/-- The value under a key of the document. -/
def get? (document : Toml) (key : String) : Option Toml :=
  match document with
  | .table _ members => find? members key
  | _ => none

end Toml

end BackupHistory

/-!
TOML documents as trees of tables. Each table remembers how it came to be, because that
decides who may still add to it. `Table.define` and `Table.openTable` are the two ways a document
grows: a key with a value, and a header.
-/

namespace CertificateAudit.Toml

/-- How a table came to be: by a header of its own, also as one table of an array; as the parent of
a header; by the front of a dotted key; or between braces, where nothing can be added to it. -/
inductive Origin where
  | header
  | implied
  | dotted
  | inline
deriving DecidableEq

/-- A TOML value. Numbers with a fraction and times are told apart from the rest, but their
values are not kept. -/
inductive Value where
  | text (content : String)
  | integer (n : Int)
  | float
  | boolean (value : Bool)
  | time
  | array (items : List Value)
  | table (origin : Origin) (entries : List (String × Value))
  | tables (items : List (List (String × Value)))

abbrev Table := List (String × Value)

namespace Table

def lookup? (key : String) (table : Table) : Option Value :=
  (table.find? fun entry => entry.1 == key).map Prod.snd

def replace (key : String) (value : Value) (table : Table) : Table :=
  table.map fun entry => if entry.1 == key then (key, value) else entry

/-- Change the table at the end of a path. Tables that are missing on the way are made with
the given origin; of an array of tables the last one counts. A dotted key may not lead through
a table that has a header of its own. -/
def changeAt (made : Origin) (change : Origin → Table → Option Table) :
    (path : List String) → Origin → Table → Option Table
  | [], origin, table => change origin table
  | key :: path, _, table =>
      match table.lookup? key with
      | none => do
          let inner ← changeAt made change path made []
          pure (table ++ [(key, .table made inner)])
      | some (.table origin entries) =>
          if origin = .inline ∨ (made = .dotted ∧ origin = .header) then none
          else do
            let inner ← changeAt made change path origin entries
            pure (table.replace key (.table origin inner))
      | some (.tables items) => do
          let inner ← changeAt made change path .header (← items.getLast?)
          pure (table.replace key (.tables (items.dropLast ++ [inner])))
      | some _ => none

def insert? (key : String) (value : Value) (table : Table) : Option Table :=
  match table.lookup? key with
  | none => some (table ++ [(key, value)])
  | some _ => none

/-- Put a value under a dotted key. Only tables made by dotted keys can be added to from
outside. -/
def define (path : List String) (key : String) (value : Value) (table : Table) :
    Option Table :=
  changeAt .dotted
    (fun origin inner =>
      if path.isEmpty || origin == .dotted then insert? key value inner else none)
    path .header table

def openTable (path : List String) (key : String) (root : Table) : Option Table :=
  changeAt .implied
    (fun _ parent =>
      match parent.lookup? key with
      | none => some (parent ++ [(key, .table .header [])])
      | some (.table .implied entries) => some (parent.replace key (.table .header entries))
      | some _ => none)
    path .header root

def openNext (path : List String) (key : String) (root : Table) : Option Table :=
  changeAt .implied
    (fun _ parent =>
      match parent.lookup? key with
      | none => some (parent ++ [(key, .tables [[]])])
      | some (.tables items) => some (parent.replace key (.tables (items ++ [[]])))
      | some _ => none)
    path .header root

def defineIn (header : List String) (path : List String) (key : String) (value : Value)
    (root : Table) : Option Table :=
  changeAt .implied (fun _ table => define path key value table) header .header root

end Table

end CertificateAudit.Toml

/-!
# Values of a configuration text

Tables are written in several ways, and what was written one way cannot be extended in another, so
each table keeps how it came about.
-/
namespace PluginLint.Toml

/-- How a table came about. -/
inductive TableOrigin where
  /-- In braces; nothing is ever added. -/
  | braces
  /-- By a heading of its own. -/
  | heading
  /-- On the way to the table of a heading. -/
  | implied
  /-- On the way along a dotted key. -/
  | dotted
  deriving DecidableEq, Repr

/-- A value. The text of fractions and of dates is all that is kept of them. -/
inductive Value where
  | text (s : String)
  | integer (n : Int)
  | fraction (s : String)
  | boolean (b : Bool)
  | date (s : String)
  | list (items : List Value)
  | table (origin : TableOrigin) (fields : List (String × Value))
  /-- A list of tables, one for each heading in double brackets. -/
  | tables (rows : List (List (String × Value)))
  deriving Repr

/-- The fields of a table in the order in which they were written. -/
abbrev Fields := List (String × Value)

namespace Fields

def find? (fields : Fields) (key : String) : Option Value :=
  (List.find? (fun (k, _) => k == key) fields).map Prod.snd

/-- The value of a key put in its place, or at the end. -/
def set (key : String) (value : Value) : Fields → Fields
  | [] => [(key, value)]
  | (k, v) :: fields =>
    if k == key then (key, value) :: fields else (k, v) :: set key value fields

/-- A change to the last of several tables. -/
def changeLast (change : Fields → Option Fields) : List Fields → Option (List Fields)
  | [] => none
  | [row] => (change row).map ([·])
  | row :: rows => (changeLast change rows).map (row :: ·)

/-- The change of a table along a path. Tables that are not there yet are added with the given
origin. The change also learns how the table at the end of the path came about. A dotted path does
not pass through a table with a heading; no path passes through braces or through a value; the
last of several tables stands for them. -/
def change (origin : TableOrigin) (act : TableOrigin → Fields → Option Fields) :
    List String → TableOrigin → Fields → Option Fields
  | [], here, fields => act here fields
  | key :: path, _, fields =>
    match find? fields key with
    | none => do
      let inner ← change origin act path origin []
      return fields.set key (.table origin inner)
    | some (.table there inner) => do
      guard (there != .braces && (origin != .dotted || there != .heading))
      let inner ← change origin act path there inner
      return fields.set key (.table there inner)
    | some (.tables rows) => do
      let rows ← changeLast (change origin act path .heading) rows
      return fields.set key (.tables rows)
    | some _ => none

/-- A field under a dotted key. The table that receives it must have come about along a dotted key
too, unless the key is a single word. -/
def insert (fields : Fields) (path : List String) (key : String) (value : Value) : Option Fields :=
  change .dotted (fun here inner => do
      guard ((here == .dotted) != path.isEmpty)
      guard (inner.find? key).isNone
      return inner.set key value)
    path .heading fields

/-- The fields of a table from its dotted keys. -/
def insertAll (fields : Fields) (entries : List (List String × String × Value)) : Option Fields :=
  entries.foldlM (fun fields (path, key, value) => fields.insert path key value) fields

end Fields

end PluginLint.Toml

import PluginLint.Files.Path

/-!
# Trees of files

The files of a machine as a value. Paths are followed piece by piece, as the machine does it: every
piece but the last must lead to a folder.
-/
namespace PluginLint.Files

/-- A file with its bytes, or a folder with its entries. -/
inductive FileTree where
  | file (content : ByteArray)
  | folder (entries : List (String × FileTree))

/-- Why a file cannot be used. -/
inductive FileError where
  | notFound
  | notFolder
  | isFolder
  | notText
  deriving DecidableEq, Repr

namespace FileError

def message : FileError → String
  | .notFound => "No such file or directory (os error 2)"
  | .notFolder => "Not a directory (os error 20)"
  | .isFolder => "Is a directory (os error 21)"
  | .notText => "stream did not contain valid UTF-8"

end FileError

namespace FileTree

/-- The entries of a folder. A file has none. -/
def entries : FileTree → List (String × FileTree)
  | .file _ => []
  | .folder entries => entries

def isFolder : FileTree → Bool
  | .file _ => false
  | .folder _ => true

def isFile (t : FileTree) : Bool := !t.isFolder

def entry? (t : FileTree) (name : String) : Option FileTree :=
  (t.entries.find? fun (n, _) => n == name).map Prod.snd

/-- The tree at the end of a list of names. -/
def get? (t : FileTree) : List String → Option FileTree
  | [] => some t
  | name :: names => (t.entry? name).bind fun inner => inner.get? names

/-- An entry put in its place, or at the end. -/
def setEntry (name : String) (inner : FileTree) :
    List (String × FileTree) → List (String × FileTree)
  | [] => [(name, inner)]
  | (n, t) :: rest => if n == name then (name, inner) :: rest else (n, t) :: setEntry name inner rest

/-- A tree put at the end of a list of names. Folders on the way are made; a file on the way gives
way to a folder. -/
def put (t : FileTree) (new : FileTree) : List String → FileTree
  | [] => new
  | name :: names =>
    .folder (setEntry name (((t.entry? name).getD (.folder [])).put new names) t.entries)

/-- The names that lead from the top to where a path leads, one piece after the other. `here` is
where we are, innermost first. -/
def follow (top : FileTree) (here : List String) : List String → Except FileError (List String)
  | [] => .ok here.reverse
  | piece :: pieces =>
    match top.get? here.reverse with
    | none => .error .notFound
    | some (.file _) => .error .notFolder
    | some (.folder _) =>
      if piece.isEmpty || piece == "." then follow top here pieces
      else if piece == ".." then follow top here.tail pieces
      else if (top.get? (piece :: here).reverse).isSome then follow top (piece :: here) pieces
      else .error .notFound

/-- The names that lead from the top to where a path leads that is seen from a base. The empty path
leads nowhere. -/
def locate (top : FileTree) (base path : String) : Except FileError (List String) :=
  if path.isEmpty then .error .notFound else follow top [] (Path.pieces (Path.join base path))

/-- What a path leads to. -/
def find? (top : FileTree) (base path : String) : Option FileTree :=
  (top.locate base path).toOption.bind top.get?

def existsAt (top : FileTree) (base path : String) : Bool := (top.find? base path).isSome

def isFileAt (top : FileTree) (base path : String) : Bool := (top.find? base path).any isFile

/-- The bytes of a file as text. -/
def decode (content : ByteArray) : Except FileError String :=
  match String.fromUTF8? content with
  | some s => .ok s
  | none => .error .notText

/-- The text of a file. -/
def readText (top : FileTree) (base path : String) : Except FileError String := do
  match top.get? (← top.locate base path) with
  | some (.file content) => decode content
  | some (.folder _) => throw .isFolder
  | none => throw .notFound

end FileTree

end PluginLint.Files

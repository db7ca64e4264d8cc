import PluginLint.Text.Search

/-!
# Paths

Paths are texts with slashes between their parts. Empty parts say nothing, and neither does a dot
except at the beginning; paths are ordered by their parts.
-/
namespace PluginLint.Files

/-- A part of a path. -/
inductive PathPart where
  | root
  | current
  | parent
  | name (s : String)
  deriving DecidableEq, Repr

namespace PathPart

def rank : PathPart → Nat
  | .root => 0
  | .current => 1
  | .parent => 2
  | .name _ => 3

def text : PathPart → String
  | .root => "/"
  | .current => "."
  | .parent => ".."
  | .name s => s

/-- Roots come first, then dots, then names in the order of their text. -/
def compare : PathPart → PathPart → Ordering
  | .name s, .name t => Ord.compare s t
  | p, q => Ord.compare p.rank q.rank

end PathPart

namespace Path

/-- The texts between slashes. -/
def pieces (s : String) : List String := Text.splitOn '/' s

def isAbsolute (path : String) : Bool := path.toList.head? == some '/'

/-- The parts of a path. -/
def parts (path : String) : List PathPart :=
  let all := pieces path
  let start : List PathPart :=
    if isAbsolute path then [.root] else if all.head? == some "." then [.current] else []
  start ++ all.filterMap fun s =>
    if s.isEmpty || s == "." then none else if s == ".." then some .parent else some (.name s)

/-- The order of lists of parts. -/
def compareParts : List PathPart → List PathPart → Ordering
  | [], [] => .eq
  | [], _ :: _ => .lt
  | _ :: _, [] => .gt
  | p :: ps, q :: qs => (p.compare q).then (compareParts ps qs)

/-- The order of paths. -/
def compare (a b : String) : Ordering := compareParts (parts a) (parts b)

/-- The same path, perhaps written otherwise. -/
def same (a b : String) : Bool := parts a == parts b

/-- A path seen from a base. An absolute path does not depend on the base. -/
def join (base path : String) : String :=
  if isAbsolute path || base.isEmpty then path
  else if Text.endsWith base "/" then base ++ path
  else base ++ "/" ++ path

/-- A piece says something: it is a name or two dots, or it is a dot at the beginning. -/
def isPart (first : Bool) (piece : String) : Bool :=
  !piece.isEmpty && (first || piece != ".")

/-- The pieces, last first, without those at the end that say nothing. -/
def dropSilent : List String → List String
  | [] => []
  | piece :: before =>
    if isPart before.isEmpty piece then piece :: before else dropSilent before

/-- The path without its last part, if it has one. The rest stays as it is written. -/
def parent? (path : String) : Option String :=
  match dropSilent (pieces path).reverse with
  | [] => none
  | _ :: before =>
    let text := Text.join "/" (dropSilent before).reverse
    if text.isEmpty && isAbsolute path then some "/" else some text

/-- The path, its parent, and so on, at most `n` paths. -/
def ancestorsUpTo : Nat → String → List String
  | 0, _ => []
  | n + 1, path => path :: (parent? path).elim [] (ancestorsUpTo n)

/-- The path, its parent, and so on. Each parent has fewer pieces. -/
def ancestors (path : String) : List String := ancestorsUpTo ((pieces path).length + 1) path

/-- The text behind the last dot of a name, unless the name begins with it. -/
def extension? (name : String) : Option String :=
  match name.toList.reverse.span (· != '.') with
  | (_, []) | (_, [_]) => none
  | (ending, _ :: _ :: _) =>
    if name == ".." then none else some (.ofList ending.reverse)

end Path

end PluginLint.Files

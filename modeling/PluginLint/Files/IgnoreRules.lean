import PluginLint.Files.FileTree
import PluginLint.Files.IgnorePattern
import PluginLint.Text.Blank

/-!
# Ignore files

A folder may hold files that list what is to be skipped in it. Each line is a rule; the last rule
that fits decides, and a rule behind an exclamation mark keeps what it fits.
-/
namespace PluginLint.Files

/-- What a rule says about a path that fits it. -/
inductive Verdict where
  | skip
  | keep
  deriving DecidableEq, Repr

/-- A line of an ignore file. -/
structure IgnoreRule where
  tokens : List IgnoreToken
  verdict : Verdict := .skip
  onlyFolders : Bool := false
  deriving Repr

namespace IgnoreRule

/-- The pattern behind the marks of a line. A pattern without a slash fits at any depth, and one
that ends with two stars does not fit the folder itself. -/
def fullPattern (anchored : Bool) (body : List Char) : String :=
  let s := String.ofList body
  let s :=
    if anchored || body.contains '/' || s == "**" then s else "**/" ++ s
  if Text.endsWith s "/**" then s ++ "/*" else s

/-- A line without the white space at its end, unless that is escaped. -/
def trimLine (line : List Char) : List Char :=
  if [' ', '\\'].isPrefixOf line.reverse then line
  else (line.reverse.dropWhile Text.isBlank).reverse

/-- The marks at the two ends of a line, and the pattern between them. -/
def ofTrimmed (line : List Char) : Except IgnorePatternError IgnoreRule := do
  let (verdict, anchored, body) : Verdict × Bool × List Char :=
    match line with
    | '\\' :: '!' :: _ | '\\' :: '#' :: _ => (.skip, false, line.tail)
    | '!' :: '/' :: body => (.keep, true, body)
    | '!' :: body => (.keep, false, body)
    | '/' :: body => (.skip, true, body)
    | body => (.skip, false, body)
  let (onlyFolders, body) : Bool × List Char :=
    match body.reverse with
    | '/' :: '\\' :: before => (true, before.reverse)
    | '/' :: before => (true, before.reverse)
    | _ => (false, body)
  return { tokens := ← IgnorePattern.parse (fullPattern anchored body), verdict, onlyFolders }

/-- The rule of a line. Comments and empty lines have none. -/
def ofLine (line : List Char) : Except IgnorePatternError (Option IgnoreRule) :=
  let trimmed := trimLine line
  if line.head? == some '#' || trimmed.isEmpty then .ok none
  else (ofTrimmed trimmed).map some

/-- What the rules say about a path: the last that fits decides. -/
def verdict? (rules : List IgnoreRule) (path : String) (folder : Bool) : Option Verdict :=
  (rules.reverse.find? fun r =>
    (!r.onlyFolders || folder) && IgnorePattern.accepts r.tokens path).map (·.verdict)

end IgnoreRule

/-- A line of an ignore file that is no rule. -/
structure IgnoreLineError where
  path : String
  line : Nat
  text : String
  reason : IgnorePatternError
  deriving DecidableEq, Repr

namespace IgnoreLineError

def message (e : IgnoreLineError) : String :=
  e.path ++ ": line " ++ toString e.line ++ ": error parsing glob '" ++ e.text ++ "': " ++
    e.reason.message

end IgnoreLineError

/-- An ignore file: its rules, and the lines that are none. -/
structure IgnoreFile where
  rules : List IgnoreRule := []
  errors : List IgnoreLineError := []
  deriving Repr

namespace IgnoreFile

/-- The bytes between line breaks. -/
def byteLines (taken : List UInt8) : List UInt8 → List (List UInt8)
  | [] => [taken.reverse]
  | b :: s => if b == 10 then taken.reverse :: byteLines [] s else byteLines (b :: taken) s

/-- The lines of a file, up to the first that is no text. -/
def textLines : List (List UInt8) → List (List Char)
  | [] => []
  | bytes :: rest =>
    match String.fromUTF8? ⟨bytes.toArray⟩ with
    | none => []
    | some s =>
      let line := s.toList
      let line :=
        if !rest.isEmpty && line.getLast? == some '\r' then line.dropLast else line
      line :: textLines rest

/-- The rules of a list of lines, each with its number. -/
def ofLines (path : String) : List (List Char × Nat) → IgnoreFile
  | [] => {}
  | (line, number) :: rest =>
    let others := ofLines path rest
    match IgnoreRule.ofLine line with
    | .ok none => others
    | .ok (some rule) => { others with rules := rule :: others.rules }
    | .error reason =>
      let text := String.ofList (IgnoreRule.trimLine line)
      { others with errors := ⟨path, number, text, reason⟩ :: others.errors }

/-- The rules of a file. Byte order marks at its beginning do not count. -/
def ofBytes (path : String) (content : ByteArray) : IgnoreFile :=
  let lines := match textLines (byteLines [] content.toList) with
    | [] => []
    | first :: rest => first.dropWhile (· == '\uFEFF') :: rest
  ofLines path (lines.zipIdx 1)

/-- The ignore file at the end of some names below a folder, if it is there. -/
def ofFolder (path : String) (folder : FileTree) (names : List String) : IgnoreFile :=
  match folder.get? names with
  | some (.file content) => ofBytes (Path.join path (Text.join "/" names)) content
  | _ => {}

end IgnoreFile

/-- The ignore files of one folder. -/
structure IgnoreLevel where
  /-- The number of folders above. -/
  depth : Nat
  ignore : IgnoreFile := {}
  gitignore : IgnoreFile := {}
  exclude : IgnoreFile := {}
  deriving Repr

namespace IgnoreLevel

/-- The ignore files of the folder at the end of some names. The last two kinds count only on
demand. -/
def ofFolder (git : Bool) (names : List String) (folder : FileTree) : IgnoreLevel :=
  let path := "/" ++ Text.join "/" names
  let read := IgnoreFile.ofFolder path folder
  { depth := names.length
    ignore := read [".ignore"]
    gitignore := if git then read [".gitignore"] else {}
    exclude := if git then read [".git", "info", "exclude"] else {} }

def errors (l : IgnoreLevel) : List IgnoreLineError :=
  l.ignore.errors ++ l.gitignore.errors ++ l.exclude.errors

/-- The first answer of ignore files of one kind, the innermost folder first. Each sees the part of
the path that lies below it. -/
def firstVerdict? (levels : List IgnoreLevel) (file : IgnoreLevel → IgnoreFile)
    (names : List String) (folder : Bool) : Option Verdict :=
  levels.findSome? fun l =>
    IgnoreRule.verdict? (file l).rules (Text.join "/" (names.drop l.depth)) folder

/-- Something is to be skipped. The three kinds of ignore files are asked one after the other. -/
def skips (levels : List IgnoreLevel) (names : List String) (folder : Bool) : Bool :=
  let ask file := firstVerdict? levels file names folder
  (((ask ignore).or (ask gitignore)).or (ask exclude)) == some .skip

end IgnoreLevel

end PluginLint.Files

import PluginLint.Files.Pattern
import PluginLint.Files.Walk
import PluginLint.Grammar.Parse
import PluginLint.Project.Check
import PluginLint.Project.Config

/-!
# Analyzing the files below a folder

An analyzer knows where to look, which files to leave out and which rules to run. It finds the files,
reads and parses them, and checks them together.
-/
namespace PluginLint

open Files

/-- Why there is no result. -/
inductive AnalysisError where
  | unreadable (path : String) (why : FileError)
  | rootNotFound (path : String)
  | badIgnoreFile (errors : List IgnoreLineError)
  | badPattern (why : PatternError)
  | cancelled
  /-- A text cannot be read. -/
  | noTokens (why : Panic)
  /-- A file is no whole file. -/
  | noUnit (message : String)

namespace AnalysisError

/-- What happened, and then what made it happen, down to the first cause. -/
def causes : AnalysisError → List String
  | .unreadable path why => ["Failed to read " ++ path ++ ": " ++ why.message, why.message]
  | .rootNotFound path => ["Root path does not exist: " ++ path]
  | .badIgnoreFile errors =>
    let text := Text.join "\n" (errors.map IgnoreLineError.message)
    ["Walk error: " ++ text, text]
  | .badPattern why => ["Invalid glob pattern: " ++ why.message, why.message]
  | .cancelled => ["analysis cancelled"]
  | .noTokens _ => []
  | .noUnit message => [message]

def ofDispatch : DispatchError → AnalysisError
  | .cancelled => .cancelled
  | e => .noUnit e.message

end AnalysisError

/-- What is asked of an analyzer beside its configuration. -/
structure AnalysisRequest where
  /-- Where to look instead of the root of the configuration. -/
  root? : Option String := none
  /-- Patterns in front of those of the configuration. -/
  exclude : List String := []
  included : List String := []
  parallelism? : Option Nat := none
  cancelled : Bool := false
  deriving DecidableEq, Repr

/-- What to look at, and with which rules. -/
structure Analyzer where
  /-- An absolute path. -/
  root : String
  catalog : Catalog
  exclude : List Pattern
  included : List Pattern
  respectGitignore : Bool
  parallelism? : Option Nat
  cancelled : Bool

namespace Analyzer

/-- The language of the files. -/
def language : String := "csharp"

/-- The patterns of texts. -/
def patterns (texts : List String) : Except AnalysisError (List Pattern) :=
  texts.mapM fun s => (Pattern.parse s).mapError .badPattern

/-- An analyzer for files as seen from the folder `here`. -/
def build (top : FileTree) (here : String) (catalog : Catalog) (request : AnalysisRequest)
    (config : Config) : Except AnalysisError Analyzer := do
  let root := Path.join here (request.root?.getD config.analyzer.root)
  if !top.existsAt here root then throw (.rootNotFound root)
  let exclude ← patterns (request.exclude ++ config.analyzer.exclude)
  let included ← patterns (request.included ++ config.analyzer.included)
  return {
    root
    catalog
    exclude
    included
    respectGitignore := config.analyzer.respectGitignore
    parallelism? := request.parallelism?.or config.analyzer.parallelism?
    cancelled := request.cancelled }

/-- A file name has the ending of the language. -/
def isSource (name : String) : Bool :=
  (Path.extension? name).any fun e => Text.eqIgnoreCase e "cs"

/-- A path below the root is left out: a pattern fits it, or what a pattern says beside its double
stars occurs in it and is longer than two bytes. -/
def excludes (a : Analyzer) (relative : String) : Bool :=
  a.exclude.any fun p =>
    p.matches? relative ||
      (let core := Text.replaceAll ['*', '*'] [] p.text.toList
       2 < Text.byteLength core && Text.hasInfix core ('/' :: relative.toList))

/-- A path below the root is among those to look at. -/
def includes (a : Analyzer) (relative : String) : Bool :=
  a.included.isEmpty || a.included.any fun p => p.matches? relative

/-- The names below the root as a path for patterns. -/
def relativePath (names : List String) : String :=
  String.ofList ((Text.join "/" names).toList.map fun c => if c == '\\' then '/' else c)

/-- The files to look at, in the order of their paths. -/
def discover (a : Analyzer) (top : FileTree) : Except AnalysisError (List String) := do
  let place ← (top.locate "" a.root).mapError fun _ => .rootNotFound a.root
  let found ← (top.filesBelow a.respectGitignore place).mapError .badIgnoreFile
  let wanted := found.filter fun names =>
    isSource ((place ++ names).getLast?.getD "") && !a.excludes (relativePath names) &&
      a.includes (relativePath names)
  let paths := wanted.map fun names => names.foldl Path.join a.root
  return paths.mergeSort fun p q => (Path.compare p q).isLE

/-- A file, read and parsed. -/
def loadFile (a : Analyzer) (top : FileTree) (path : String) : Except AnalysisError SourceFile := do
  if a.cancelled then throw .cancelled
  let text ← (top.readText "" path).mapError (.unreadable path)
  (SourceFile.parse path text).mapError .noTokens

/-- The files, read and parsed. -/
def load (a : Analyzer) (top : FileTree) (paths : List String) :
    Except AnalysisError (List SourceFile) :=
  paths.mapM (a.loadFile top)

/-- What the rules find in files that belong together. -/
def check (a : Analyzer) (files : List SourceFile) : Except AnalysisError LintResult :=
  (checkFiles a.catalog files a.cancelled).mapError .ofDispatch

/-- Finds, reads, parses and checks all files. -/
def analyze (a : Analyzer) (top : FileTree) : Except AnalysisError LintResult := do
  let files ← a.load top (← a.discover top)
  return (← a.check files).sort

/-- Checks one text on its own. -/
def checkSource (a : Analyzer) (path text : String) : Except AnalysisError LintResult := do
  let file ← (SourceFile.parse path text).mapError .noTokens
  return (← a.check [file]).sort

/-- The analyzer for people to look at. -/
def describe (a : Analyzer) : String :=
  "Analyzer \x7b root: " ++ Text.quotedPath a.root ++ ", frontend: " ++ Text.quoted language ++
    ", catalog: " ++ a.catalog.describe ++ ", exclude: [" ++
    Text.join ", " (a.exclude.map fun p => Text.quoted p.text) ++ "], parallelism: " ++
    (a.parallelism?.elim "None" fun n => "Some(" ++ toString n ++ ")") ++ ", .. \x7d"

end Analyzer

end PluginLint

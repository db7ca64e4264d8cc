import PluginLint.Cli.World

/-!
# The configuration of a run

The configuration file is the one given, or else the nearest one in the folder to be checked or a
folder above it, or else the one of the user. The search upwards ends at the root of the solution.
-/
namespace PluginLint.Cli

open Files

namespace World

/-- The configuration file in a folder. -/
def configIn? (w : World) (folder : String) : Option String :=
  (Config.fileNames.map (Path.join folder)).find? w.isFile

/-- A folder is the root of a solution: it holds a solution file or a repository. -/
def isSolutionRoot (w : World) (folder : String) : Bool :=
  w.hasPath (Path.join folder ".git") ||
    (w.entryNames folder).any fun name => Path.extension? name == some "sln"

/-- The first configuration file in a list of folders, up to the root of the solution. -/
def configAmong? (w : World) : List String → Option String
  | [] => none
  | folder :: folders =>
    match w.configIn? folder with
    | some path => some path
    | none => if w.isSolutionRoot folder then none else configAmong? w folders

/-- The nearest configuration file at a path or above it. -/
def projectConfig? (w : World) (target : String) : Option String := do
  let start ← if w.isFile target then Path.parent? target else some target
  w.configAmong? (Path.ancestors start)

/-- The configuration file of the user. -/
def userConfig? (w : World) : Option String := do
  let folder ← w.configFolder?.or (w.home?.map fun home => Path.join home ".dataverse-lint")
  let path := Path.join folder "config.toml"
  if w.isFile path then some path else none

/-- The configuration file for a run over a path. -/
def configFile? (w : World) (target : String) (given? : Option String) : Option String :=
  (given?.or (w.projectConfig? target)).or w.userConfig?

/-- The configuration in a file. -/
def readConfig (w : World) (path : String) : Except Failure Config :=
  let fail := Failure.failed ("Failed to load config: " ++ path)
  match w.readText path with
  | .error why =>
    .error (fail ["Failed to read config file " ++ path ++ ": " ++ why.message, why.message])
  | .ok text =>
    match Config.parse? text with
    | some config => .ok config
    | none => .error (fail ["Failed to parse config: TOML parse error"])

/-- The configuration for a run over a path. -/
def config (w : World) (target : String) (given? : Option String) : Except Failure Config :=
  match w.configFile? target given? with
  | some path => w.readConfig path
  | none => .ok {}

end World

end PluginLint.Cli

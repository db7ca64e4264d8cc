import PluginLint.Cli.ConfigFile
import PluginLint.Cli.Output
import PluginLint.Project.Analyzer

/-!
# Commands

Each command is a function of what it sees. Nothing is written before everything else has worked.
-/
namespace PluginLint.Cli

open Files

/-- A step of an analysis within a command. -/
def attempt (what : String) (r : Except AnalysisError α) : Except Failure α :=
  r.mapError fun e =>
    match e with
    | .noTokens _ | .noUnit _ => .broken
    | e => .failed what e.causes

/-- The rules with the codes or names between commas; all rules if nothing is said. -/
def selectRules (rules? : Option String) : Except Failure Catalog :=
  match rules? with
  | none => .ok Catalog.all
  | some rules =>
    let selectors := ((Text.splitOn ',' rules).map Text.trim).filter fun s => !s.isEmpty
    (Catalog.all.select selectors).mapError fun e =>
      .failed ("Invalid --rules value '" ++ rules ++ "'") [e.message]

/-- An analyzer for a path. -/
def analyzerFor (w : World) (catalog : Catalog) (request : AnalysisRequest) (config : Config) :
    Except Failure Analyzer :=
  attempt "Failed to build analyzer" (Analyzer.build w.files w.here catalog request config)

/-- Checks the files below a path. The run fails if some finding is serious enough. -/
def check (w : World) (path : String) (options : CheckOptions) (config : Config) :
    Except Failure Outcome := do
  let catalog ← selectRules options.rules?
  let request : AnalysisRequest :=
    { root? := some path, exclude := options.exclude, parallelism? := options.jobs? }
  let analyzer ← analyzerFor w catalog request config
  let result ← attempt "Analysis failed" (analyzer.analyze w.files)
  return {
    exitCode := if result.hasAtLeast config.threshold then 1 else 0
    output := resultText result options.format }

/-- Repairs the files below a path, or says what would be repaired. -/
def fix (w : World) (path : String) (rules? : Option String) (dryRun : Bool) (config : Config) :
    Except Failure Outcome := do
  let catalog := (← selectRules rules?).restrict fun r => r.fix?.isSome
  if catalog.rules.isEmpty then
    throw (.failed "None of the selected rules has an automatic fix" [])
  let analyzer ← analyzerFor w catalog { root? := some path } config
  let paths ← attempt "File discovery failed" (analyzer.discover w.files)
  let files ← attempt "Failed to read sources" (analyzer.load w.files paths)
  let repaired ← attempt "Analysis failed"
    (Repair.run analyzer.check Repair.passes (files.map fun f => { file := f }))
  return {
    output := repairText dryRun repaired
    writes :=
      if dryRun then []
      else (repaired.filter RepairedFile.isChanged).map fun r => (r.file.path, r.file.text) }

/-- Writes a configuration file, but not over another one unless forced to. -/
def init (w : World) (force : Bool) : Except Failure Outcome := do
  let path := "dataverse-lint.toml"
  if w.hasPath path && !force then
    throw (.failed ("Configuration file already exists at " ++ path ++
      ". Use --force to overwrite.") [])
  if w.hasPath path && !w.isFile path then throw (.failed FileError.isFolder.message [])
  return { output := newConfigMessage path, writes := [(path, newConfigText)] }

/-- Runs a command. -/
def runCommand (w : World) (i : Invocation) : Except Failure Outcome :=
  match i.command with
  | .check path options => do check w path options (← w.config path i.config?)
  | .fix path rules? dryRun => do fix w path rules? dryRun (← w.config path i.config?)
  | .listRules => .ok { output := rulesText }
  | .init force => init w force

/-- Runs a command line. -/
def run (w : World) (args : List String) : Outcome :=
  match parseArguments args with
  | .error .usage =>
    { exitCode := 2, errors := ["error: invalid command line", "", "For more information, try '--help'."] }
  | .error .help => { output := helpText }
  | .error .version => { output := versionText }
  | .ok invocation =>
    match runCommand w invocation with
    | .ok outcome => outcome
    | .error failure => failure.outcome

end PluginLint.Cli

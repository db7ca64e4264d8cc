import PluginLint.Cli.Arguments
import PluginLint.Project.Repair
import PluginLint.Rules.Presets

/-!
# What commands print
-/
namespace PluginLint.Cli

/-- Lines, each with a line break at its end. -/
def lines (all : List String) : String := String.join (all.map fun l => l ++ "\n")

/-- A text in a colour of the terminal. -/
def coloured (code : Nat) (text : String) : String :=
  "\x1b[" ++ toString code ++ "m" ++ text ++ "\x1b[0m"

def red : Nat := 31

def green : Nat := 32

def yellow : Nat := 33

def severityColour : Severity → Nat
  | .error => red
  | .warning => yellow

/-- How much was found. -/
def summary (r : LintResult) : String :=
  "Found " ++ toString r.errorCount ++ " error(s), " ++ toString r.warningCount ++
    " warning(s) in " ++ toString r.filesChecked ++ " file(s)"

/-- A finding with what could be done, and an empty line. -/
def findingLines (d : Diagnostic) : List String :=
  [d.code ++ " " ++ d.rule ++ " at " ++ d.place,
    "  " ++ coloured (severityColour d.severity) d.severity.text ++ ": " ++ d.message] ++
  (d.suggestion?.map fun s => "  = help: " ++ s.message).toList ++ [""]

/-- The colour of the summary is that of the worst finding. -/
def summaryColour (r : LintResult) : Nat :=
  if 0 < r.errorCount then red else if 0 < r.warningCount then yellow else green

/-- What was found, in a format. The rich format shows the findings elsewhere. -/
def resultText (r : LintResult) : Format → String
  | .text =>
    lines (r.diagnostics.flatMap findingLines ++ [coloured (summaryColour r) (summary r)] ++
      (if r.failures.isEmpty then []
       else [toString r.failures.length ++ " rule evaluation(s) failed"]))
  | .json => lines [r.toJson.pretty 0]
  | .compact => lines (r.diagnostics.map Diagnostic.render)
  | .rich => lines [summary r]

/-- A text filled up with blanks. -/
def padded (width : Nat) (s : String) : String :=
  s ++ String.ofList (List.replicate (width - s.length) ' ')

/-- A row of the table of rules. -/
def ruleRow (code name category severity fix : String) : String :=
  padded 8 code ++ " " ++ padded 34 name ++ " " ++ padded 14 category ++ " " ++
    padded 9 severity ++ " " ++ fix

/-- All rules in a table. -/
def rulesText : String :=
  lines (
    ["Available rules:", "", ruleRow "Code" "Name" "Category" "Severity" "Fix",
      String.ofList (List.replicate 90 '-')] ++
    (Rules.all.map fun r =>
      ruleRow r.code r.name r.category.name r.severity.text (r.fix?.elim "-" Fix.title)) ++
    ["", "Automatic fixes: " ++ Text.join ", " Catalog.fixable.codes, "",
      "Use --rules to select specific rules, e.g.:",
      "  dataverse-lint check --rules CT0001,CT0004",
      "  dataverse-lint check --rules entity-contains",
      "  dataverse-lint fix --rules braces-for-control-flow"])

/-- What was changed in a file. -/
def repairLines (verb : String) (r : RepairedFile) : List String :=
  (verb ++ " " ++ r.file.path) ::
    r.sortedChanges.map fun c => "  line " ++ toString c.line ++ ": " ++ c.fix.title

/-- What was changed, or would be. -/
def repairText (dryRun : Bool) (files : List RepairedFile) : String :=
  let changed := files.filter RepairedFile.isChanged
  lines (changed.flatMap (repairLines (if dryRun then "Would fix" else "Fixed")) ++
    [(if dryRun then "Would apply " else "Applied ") ++ toString (Repair.changeCount files) ++
      " fix(es) in " ++ toString changed.length ++ " file(s)"])

def versionText : String := lines ["dataverse-lint 0.3.0"]

def helpText : String :=
  lines ["Linter for C# Dataverse plugin code", "", "Usage: dataverse-lint [OPTIONS] <COMMAND>", "",
    "Commands:", "  check       Run lint checks",
    "  fix         Apply automatic fixes (CT0001, CT0004)", "  list-rules  List available rules",
    "  init        Initialize configuration file",
    "  help        Print this message or the help of the given subcommand(s)", "", "Options:",
    "  -v, --verbose          Enable verbose output",
    "  -c, --config <CONFIG>  Path to configuration file", "  -h, --help             Print help",
    "  -V, --version          Print version"]

/-- The configuration file that is written for a new project. -/
def newConfigText : String :=
  lines ["# dataverse-lint configuration",
    "# Rules run with fixed severities; this file shapes the run itself.", "",
    "# Lowest severity that makes `dataverse-lint check` exit non-zero",
    "# (\"error\" or \"warning\", default: \"error\")", "fail_on = \"error\"", "", "[analyzer]",
    "# Root directory to analyze (default: current directory)", "# root = \"./src\"", "",
    "# Glob patterns to exclude from analysis", "exclude = [", "    \"**/bin/**\",",
    "    \"**/obj/**\",", "]", "", "# Respect .gitignore files", "respect_gitignore = true", "",
    "# Maximum number of worker threads (default: one per core)", "# parallelism = 4"]

/-- What to do next in a new project. -/
def newConfigMessage (path : String) : String :=
  lines ["Created " ++ path, "", "Next steps:",
    "  1. Edit " ++ path ++ " to adjust excludes and the failure threshold",
    "  2. Run: dataverse-lint check"]

end PluginLint.Cli

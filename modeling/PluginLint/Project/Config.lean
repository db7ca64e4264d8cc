import PluginLint.Findings.LintResult
import PluginLint.Toml.Document

/-!
# Configuration

A configuration says which files are looked at and when a run counts as failed. What it does not say
keeps its default, and what it says beyond that does not count.
-/
namespace PluginLint

/-- Which files are looked at. -/
structure AnalyzerConfig where
  root : String := "."
  /-- Patterns of paths that are left out. -/
  exclude : List String := ["**/bin/**", "**/obj/**"]
  /-- Patterns of paths that are looked at. With none, all are. -/
  included : List String := []
  respectGitignore : Bool := true
  parallelism? : Option Nat := none
  deriving DecidableEq, Repr

/-- The configuration of a run. -/
structure Config where
  failOn? : Option Severity := none
  analyzer : AnalyzerConfig := {}
  deriving DecidableEq, Repr

open Toml (Value Fields)

namespace Config

/-- The names of configuration files, the preferred one first. -/
def fileNames : List String := ["dataverse-lint.toml", ".dataverse-lint.toml"]

/-- The least severity that makes a run fail. -/
def threshold (c : Config) : Severity := c.failOn?.getD .error

/-- The configuration says the same as the default one. The root may be written otherwise. -/
def isDefault (c : Config) : Bool :=
  let standard : Config := {}
  Files.Path.same c.analyzer.root standard.analyzer.root &&
    { c with analyzer := { c.analyzer with root := standard.analyzer.root } } == standard

def text? : Value → Option String
  | .text s => some s
  | _ => none

def boolean? : Value → Option Bool
  | .boolean b => some b
  | _ => none

def natural? : Value → Option Nat
  | .integer n => if 0 ≤ n then some n.toNat else none
  | _ => none

/-- The items of a list, or the tables of a list of tables. -/
def items? : Value → Option (List Value)
  | .list items => some items
  | .tables rows => some (rows.map (Value.table .heading))
  | _ => none

def texts? (v : Value) : Option (List String) := do (← items? v).mapM text?

/-- A table or a list without anything in it. -/
def isBare : Value → Bool
  | .table _ [] | .list [] => true
  | _ => false

/-- A severity is a word, or a table that has only this word, for nothing. -/
def severity? : Value → Option Severity
  | .text s => Severity.ofText? s
  | .table _ [(word, inner)] => if isBare inner then Severity.ofText? word else none
  | _ => none

/-- The value of a field, or a default if there is no such field. -/
def field (fields : Fields) (key : String) (default : α) (read? : Value → Option α) : Option α :=
  match fields.find? key with
  | none => some default
  | some v => read? v

/-- The fields that say which files are looked at, in their order. -/
def analyzerKeys : List String :=
  ["root", "exclude", "include", "respect_gitignore", "parallelism"]

def analyzerOfFields? (fields : Fields) : Option AnalyzerConfig := do
  let standard : AnalyzerConfig := {}
  return {
    root := ← field fields "root" standard.root text?
    exclude := ← field fields "exclude" standard.exclude texts?
    included := ← field fields "include" standard.included texts?
    respectGitignore :=
      ← field fields "respect_gitignore" standard.respectGitignore boolean?
    parallelism? :=
      ← field fields "parallelism" standard.parallelism? fun v => (natural? v).map some }

/-- The settings are a table, or a list of the first values in their order. A date counts as a table
without any of the fields. -/
def analyzer? : Value → Option AnalyzerConfig
  | .table _ fields => analyzerOfFields? fields
  | .date _ => some {}
  | v => do analyzerOfFields? (analyzerKeys.zip (← items? v))

/-- The configuration that a text describes. -/
def parse? (s : String) : Option Config := do
  let fields ← Toml.parse? s
  return {
    failOn? := ← field fields "fail_on" none fun v => (severity? v).map some
    analyzer := ← field fields "analyzer" {} analyzer? }

end Config

end PluginLint

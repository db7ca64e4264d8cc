import PluginLint.Edit.Fix
import PluginLint.Findings.Json
import PluginLint.Syntax.File
import PluginLint.Text.Search

/-!
# Findings of rules
-/
namespace PluginLint

/-- How much a finding matters. -/
inductive Severity where
  | warning
  | error
  deriving DecidableEq, Repr, Inhabited

namespace Severity

def text : Severity → String
  | .warning => "warning"
  | .error => "error"

def rank : Severity → Nat
  | .warning => 0
  | .error => 1

/-- At least as serious. -/
def atLeast (s threshold : Severity) : Bool := threshold.rank ≤ s.rank

/-- Why a text names no severity. -/
structure Unknown where
  /-- The text in lower case. -/
  text : String
  deriving DecidableEq, Repr

def Unknown.message (e : Unknown) : String := "unknown severity '" ++ e.text ++ "'"

/-- Reads a severity, in upper or lower case. -/
def parse (s : String) : Except Unknown Severity :=
  match Text.toLowerAscii s with
  | "warning" | "warn" => .ok .warning
  | "error" => .ok .error
  | other => .error ⟨other⟩

/-- The severity with exactly this text. -/
def ofText? (s : String) : Option Severity := [warning, error].find? fun v => v.text == s

end Severity

/-- What a rule is about. -/
inductive Category where
  | style
  | usage
  | documentation
  | naming
  deriving DecidableEq, Repr, Inhabited

namespace Category

def name : Category → String
  | .style => "Style"
  | .usage => "Usage"
  | .documentation => "Documentation"
  | .naming => "Naming"

end Category

/-- What could be done about a finding. -/
structure Suggestion where
  message : String
  fix? : Option Fix := none
  deriving DecidableEq, Repr, Inhabited

namespace Suggestion

def ofFix (fix : Fix) : Suggestion := ⟨fix.title, some fix⟩

end Suggestion

/-- A finding of a rule. -/
structure Diagnostic where
  code : String
  rule : String
  severity : Severity
  location : Location
  message : String
  /-- The arguments of the message. -/
  arguments : List String := []
  suggestion? : Option Suggestion := none
  deriving DecidableEq, Repr, Inhabited

/-- A sum left the range of words. -/
structure Overflow where
  deriving DecidableEq, Repr

namespace Diagnostic

def fix? (d : Diagnostic) : Option Fix := d.suggestion?.bind Suggestion.fix?

/-- The edit that fixes the finding, if there is a fix. -/
def edit? (d : Diagnostic) : Except Overflow (Option Edit) :=
  match d.fix? with
  | none => .ok none
  | some fix =>
    match d.location.span? with
    | some span => .ok (some ⟨span, fix⟩)
    | none => .error ⟨⟩

/-- The place of the finding, as file, line and column. -/
def place (d : Diagnostic) : String :=
  d.location.file ++ ":" ++ toString d.location.line ++ ":" ++ toString d.location.column

/-- The finding on one line. -/
def render (d : Diagnostic) : String :=
  d.place ++ ": " ++ d.severity.text ++ " [" ++ d.code ++ "] " ++ d.message

/-- The finding on several lines, with what could be done. -/
def explain (d : Diagnostic) : String :=
  d.code ++ " " ++ d.rule ++ " at " ++ d.place ++ "\n  " ++ d.severity.text ++ ": " ++ d.message ++
    "\n" ++
    match d.suggestion? with
    | some s => "  = help: " ++ s.message ++ "\n"
    | none => ""

/-- The headline of a report on the finding. -/
def headline (d : Diagnostic) : String := "[" ++ d.code ++ "] " ++ d.message

end Diagnostic

/-- A rule that broke down at one node. -/
structure RuleFailure where
  code : String
  location : Location
  message : String
  deriving DecidableEq, Repr, Inhabited

/-! ### Findings as data -/

namespace Location

def toJson (l : Location) : Json :=
  .obj [("file", .str l.file), ("line", .num l.line), ("column", .num l.column),
    ("offset", .num l.offset), ("length", .num l.length)]

def ofJson? (j : Json) : Option Location := do
  let j ← j.record? ["file", "line", "column", "offset", "length"]
  let file ← (← j.field? "file").str?
  let line ← (← j.field? "line").num?
  let column ← (← j.field? "column").num?
  let offset ← (← j.field? "offset").num?
  let length ← (← j.field? "length").num?
  return ⟨file, line, column, offset, length⟩

end Location

namespace Suggestion

def toJson (s : Suggestion) : Json :=
  .obj [("message", .str s.message),
    ("fix", (s.fix?.map fun f => Json.str f.key).getD .null)]

/-- A list has to give both fields; in an object the fix may be missing. -/
def ofJson? (j : Json) : Option Suggestion := do
  if (j.items?).any fun items => items.length < 2 then none
  let j ← j.record? ["message", "fix"]
  let message ← (← j.field? "message").str?
  match (j.field? "fix").getD .null with
  | .null => return ⟨message, none⟩
  | fix => return ⟨message, some (← Fix.ofKey? (← fix.choice?))⟩

end Suggestion

namespace Diagnostic

/-- Arguments and suggestions are left out if there are none. -/
def toJson (d : Diagnostic) : Json :=
  .obj (
    [("code", .str d.code), ("rule", .str d.rule), ("severity", .str d.severity.text),
      ("location", d.location.toJson), ("message", .str d.message)] ++
    (if d.arguments.isEmpty then [] else [("args", .arr (d.arguments.map .str))]) ++
    (d.suggestion?.map fun s => ("suggestion", s.toJson)).toList)

/-- Arguments and suggestions may be missing. -/
def ofJson? (j : Json) : Option Diagnostic := do
  let j ← j.record? ["code", "rule", "severity", "location", "message", "args", "suggestion"]
  let code ← (← j.field? "code").str?
  let rule ← (← j.field? "rule").str?
  let severity ← Severity.ofText? (← (← j.field? "severity").choice?)
  let location ← Location.ofJson? (← j.field? "location")
  let message ← (← j.field? "message").str?
  let arguments ← match j.field? "args" with
    | none => some []
    | some items => do (← items.items?).mapM Json.str?
  let suggestion? ← match (j.field? "suggestion").getD .null with
    | .null => some none
    | s => (Suggestion.ofJson? s).map some
  return { code, rule, severity, location, message, arguments, suggestion? }

end Diagnostic

namespace RuleFailure

def toJson (f : RuleFailure) : Json :=
  .obj [("code", .str f.code), ("location", f.location.toJson), ("message", .str f.message)]

end RuleFailure

end PluginLint

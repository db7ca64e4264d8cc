import PluginLint.Files.IgnoreRules

/-!
# Walking through folders

All files below a folder, without those that an ignore file skips. What lies in a skipped folder is
not looked at.
-/
namespace PluginLint.Files

namespace FileTree

mutual

/-- The names of the files in a tree. `levels` are the ignore files of the folders above, the
innermost first. -/
def walk (git : Bool) (levels : List IgnoreLevel) (here : List String) :
    FileTree → List (List String)
  | .file _ => [here]
  | .folder entries =>
    walkEntries git (.ofFolder git here (.folder entries) :: levels) here entries

/-- The names of the files in the entries of a folder. -/
def walkEntries (git : Bool) (levels : List IgnoreLevel) (here : List String) :
    List (String × FileTree) → List (List String)
  | [] => []
  | (name, inner) :: rest =>
    let names := here ++ [name]
    let others := walkEntries git levels here rest
    if IgnoreLevel.skips levels names inner.isFolder then others
    else walk git levels names inner ++ others

end

/-- The ignore files of the folders above the end of some names, the innermost first. -/
def levelsAbove (top : FileTree) (git : Bool) (names : List String) : List IgnoreLevel :=
  ((List.range names.length).filterMap fun n =>
    (top.get? (names.take n)).map (IgnoreLevel.ofFolder git (names.take n))).reverse

/-- The files below the end of some names, each with the names from there on. A line above that is
no rule stops the walk. -/
def filesBelow (top : FileTree) (git : Bool) (names : List String) :
    Except (List IgnoreLineError) (List (List String)) :=
  match top.get? names with
  | none => .ok []
  | some (.file _) => .ok [[]]
  | some (.folder entries) =>
    let levels := top.levelsAbove git names
    let errors := levels.reverse.flatMap IgnoreLevel.errors
    if errors.isEmpty then
      .ok ((walk git levels names (.folder entries)).map (·.drop names.length))
    else .error errors

end FileTree

end PluginLint.Files

import PluginLint.Cli.Commands

/-!
# The program

Reads the part of the machine that a command can see, runs the command, and does what it says.
-/
namespace PluginLint.Cli

open Files

/-- The names in an absolute path. -/
def namesIn (path : String) : List String := (Path.pieces path).filter fun s => !s.isEmpty

/-- A file whose text may matter. -/
def mayMatter (name : String) : Bool :=
  Analyzer.isSource name || Config.fileNames.contains name ||
    [".gitignore", ".ignore", "exclude", "config.toml"].contains name

/-- A file. What does not matter is left empty. -/
def readFile (name path : String) : IO FileTree := do
  if mayMatter name then
    try return .file (← IO.FS.readBinFile path) catch _ => return .file .empty
  else return .file .empty

/-- A folder with all that is in it. Links to other folders are not followed. -/
partial def readFolder (path : String) : IO FileTree := do
  let entries ← (← IO.FS.realPath path).readDir
  let read ← entries.toList.mapM fun e => do
    let inner := Path.join path e.fileName
    if !(← e.path.isDir) then return (e.fileName, ← readFile e.fileName inner)
    else if (← e.path.symlinkMetadata).type == .symlink then return (e.fileName, .folder [])
    else return (e.fileName, ← readFolder inner)
  return .folder read

/-- A folder with its files, and with no more than the names of its folders. -/
def readEntries (path : String) : IO FileTree := do
  let entries ← (← IO.FS.realPath path).readDir
  let read ← entries.toList.mapM fun e => do
    if ← e.path.isDir then return (e.fileName, FileTree.folder [])
    else return (e.fileName, ← readFile e.fileName (Path.join path e.fileName))
  return .folder read

/-- Where a path leads, as names from the top, if it leads anywhere. -/
def realNames? (path : String) : IO (Option (List String)) := do
  try return some (namesIn (← IO.FS.realPath path).toString) catch _ => return none

/-- The folders at a path and above it. -/
def foldersAbove (path : String) : IO (List (List String)) := do
  let found ← (Path.ancestors path).filterMapM realNames?
  return found.flatMap fun names => (List.range (names.length + 1)).map names.take

/-- The text of a list of names from the top. -/
def textOf (names : List String) : String := "/" ++ Text.join "/" names

/-- The entries of the folders at some paths and above them. -/
def readAround (paths : List String) : IO FileTree := do
  let folders := (← paths.mapM foldersAbove).flatten.eraseDups
  let mut top := FileTree.folder []
  for names in folders.mergeSort fun a b => a.length ≤ b.length do
    let path ← IO.FS.realPath (textOf names)
    if ← path.isDir then
      top := top.put (← readEntries (textOf names)) names
      let exclude := names ++ [".git", "info", "exclude"]
      if (← realNames? (textOf exclude)).isSome then
        top := top.put (← readFile "exclude" (textOf exclude)) exclude
  return top

/-- All that lies in a folder, put in its place. -/
def addFolder (top : FileTree) (path : String) : IO FileTree := do
  match ← realNames? path with
  | none => return top
  | some names =>
    let place ← IO.FS.realPath path
    if ← place.isDir then return top.put (← readFolder (textOf names)) names
    else return top

/-- A file, put in its place. -/
def addFile (top : FileTree) (path : String) : IO FileTree := do
  match ← realNames? path with
  | none => return top
  | some names =>
    let place ← IO.FS.realPath path
    if ← place.isDir then return top
    else return top.put (.file (← IO.FS.readBinFile place)) names

/-- The path that a command looks at. -/
def targetOf? : Command → Option String
  | .check path _ | .fix path _ _ => some path
  | .listRules | .init _ => none

/-- What a command line can see: all that lies in its target, and the entries of the folders above
the target and above the places of configuration files. -/
def readWorld (args : List String) : IO World := do
  let here := (← IO.currentDir).toString
  let configFolder? ← IO.getEnv "DATAVERSE_LINT_CONFIG_DIR"
  let home? ← IO.getEnv "HOME"
  match parseArguments args with
  | .error _ => return { files := .folder [], here, configFolder?, home? }
  | .ok i =>
    let target? := (targetOf? i.command).map (Path.join here)
    let config? := i.config?.map (Path.join here)
    let user? := (configFolder?.map (Path.join here)).or
      (home?.map fun home => Path.join home ".dataverse-lint")
    let around ← readAround (here :: (target?.toList ++ config?.toList ++ user?.toList))
    let withTarget ← target?.elim (pure around) (addFolder around)
    let files ← config?.elim (pure withTarget) (addFile withTarget)
    return { files, here, configFolder?, home? }

end PluginLint.Cli

open PluginLint.Cli in
/-- Runs the command line. -/
def main (args : List String) : IO UInt32 := do
  let outcome := run (← readWorld args) args
  for (path, text) in outcome.writes do
    IO.FS.writeFile path text
  IO.print outcome.output
  for line in outcome.errors do
    IO.eprintln line
  return outcome.exitCode.toUInt32

import PluginLint.Text.Bytes
import PluginLint.Text.Search

/-!
# Command lines

Arguments are read from left to right. An option begins with one or two dashes; its value follows it
or is attached to it. The first other argument is the command, and whatever follows belongs to that
command, except that some options are known everywhere.
-/
namespace PluginLint.Cli

/-- How findings are shown. -/
inductive Format where
  | text
  | json
  | compact
  | rich
  deriving DecidableEq, Repr

namespace Format

def name : Format → String
  | .text => "text"
  | .json => "json"
  | .compact => "compact"
  | .rich => "rich"

def ofName? (s : String) : Option Format := [text, json, compact, rich].find? fun f => f.name == s

end Format

/-- What the command `check` is asked for. -/
structure CheckOptions where
  format : Format := .text
  /-- The rules to run, with commas between them. -/
  rules? : Option String := none
  exclude : List String := []
  jobs? : Option Nat := none
  deriving DecidableEq, Repr

/-- A command. -/
inductive Command where
  | check (path : String) (options : CheckOptions)
  | fix (path : String) (rules? : Option String) (dryRun : Bool)
  | listRules
  | init (force : Bool)
  deriving DecidableEq, Repr

/-- A command line. -/
structure Invocation where
  command : Command
  /-- The configuration file to use. -/
  config? : Option String := none
  verbose : Bool := false
  deriving DecidableEq, Repr

/-- Why no command is run. -/
inductive NoCommand where
  /-- The command line makes no sense. -/
  | usage
  | help
  | version
  deriving DecidableEq, Repr

/-- The names of commands. -/
inductive CommandName where
  | check
  | fix
  | listRules
  | init
  | help
  deriving DecidableEq, Repr

namespace CommandName

def text : CommandName → String
  | .check => "check"
  | .fix => "fix"
  | .listRules => "list-rules"
  | .init => "init"
  | .help => "help"

def all : List CommandName := [check, fix, listRules, init, help]

def ofText? (s : String) : Option CommandName := all.find? fun n => n.text == s

/-- The number of arguments that are no options. -/
def positionals : CommandName → Nat
  | .check | .fix => 1
  | _ => 0

end CommandName

/-- An option of the command line. -/
structure OptionSpec where
  name : String
  short? : Option Char := none
  /-- The values that are allowed; a flag has none. -/
  allows? : Option (String → Bool) := none
  repeatable : Bool := false

namespace OptionSpec

def isFlag (o : OptionSpec) : Bool := o.allows?.isNone

/-- A number of workers: digits, perhaps behind a plus sign, in the range of a word. -/
def jobs? (s : String) : Option Nat :=
  let digits := match s.toList with
    | '+' :: rest => rest
    | all => all
  if digits.isEmpty || !digits.all Char.isDigit then none
  else
    let n := digits.foldl (fun n c => 10 * n + (c.toNat - '0'.toNat)) 0
    if n < Text.wordLimit then some n else none

/-- The options that are known everywhere. -/
def shared : List OptionSpec :=
  [{ name := "verbose", short? := some 'v' },
   { name := "config", short? := some 'c', allows? := some fun s => !s.isEmpty },
   { name := "help", short? := some 'h' }]

/-- The options in front of the command. -/
def leading : List OptionSpec := shared ++ [{ name := "version", short? := some 'V' }]

/-- The options behind a command. -/
def behind : CommandName → List OptionSpec
  | .check => shared ++
    [{ name := "format", short? := some 'f', allows? := some fun s => (Format.ofName? s).isSome },
     { name := "rules", allows? := some fun _ => true },
     { name := "exclude", short? := some 'e', allows? := some fun _ => true, repeatable := true },
     { name := "jobs", short? := some 'j', allows? := some fun s => (jobs? s).isSome }]
  | .fix => shared ++ [{ name := "rules", allows? := some fun _ => true }, { name := "dry-run" }]
  | .init => shared ++ [{ name := "force" }]
  | .listRules => shared
  | .help => []

end OptionSpec

/-- The options given so far and the other arguments, in their order. A flag has an empty value. -/
structure Given where
  options : List (String × String) := []
  others : List String := []

namespace Given

def has (g : Given) (name : String) : Bool := g.options.any fun (n, _) => n == name

def all (g : Given) (name : String) : List String :=
  (g.options.filter fun (n, _) => n == name).map Prod.snd

def first? (g : Given) (name : String) : Option String := (g.all name).head?

end Given

/-- What has been read of a command line. -/
structure Reading where
  /-- What stands in front of the command. -/
  front : Given := {}
  command? : Option CommandName := none
  /-- What stands behind the command. -/
  back : Given := {}
  /-- An option that still waits for its value. -/
  waiting? : Option OptionSpec := none
  /-- Two dashes alone were met; what follows is no option. -/
  onlyOthers : Bool := false

namespace Reading

def specs (r : Reading) : List OptionSpec :=
  r.command?.elim OptionSpec.leading OptionSpec.behind

def given (r : Reading) : Given := if r.command?.isSome then r.back else r.front

def setGiven (r : Reading) (g : Given) : Reading :=
  if r.command?.isSome then { r with back := g } else { r with front := g }

/-- Takes an option. Most must not be given twice. -/
def addOption (r : Reading) (o : OptionSpec) (value : String) : Except NoCommand Reading :=
  if o.name == "help" then .error .help
  else if o.name == "version" then .error .version
  else if !o.repeatable && r.given.has o.name then .error .usage
  else if (o.allows?.any fun allows => !allows value) then .error .usage
  else
    .ok { r.setGiven { r.given with options := r.given.options ++ [(o.name, value)] } with
          waiting? := none }

/-- Takes an argument that is no option: the command, or one for the command. An empty one makes no
sense. -/
def addOther (r : Reading) (s : String) : Except NoCommand Reading :=
  match r.command? with
  | none =>
    if r.onlyOthers then .error .usage
    else
      match CommandName.ofText? s with
      | some name => .ok { r with command? := some name }
      | none => .error .usage
  | some name =>
    if s.isEmpty || name.positionals ≤ r.back.others.length then .error .usage
    else .ok (r.setGiven { r.given with others := r.given.others ++ [s] })

/-- Takes an option by its name, with a value attached to it or not. -/
def addNamed (r : Reading) (name : String) (value? : Option String) : Except NoCommand Reading :=
  match r.specs.find? fun o => o.name == name with
  | none => .error .usage
  | some o =>
    match value? with
    | some value => if o.isFlag then .error .usage else r.addOption o value
    | none => if o.isFlag then r.addOption o "" else .ok { r with waiting? := some o }

/-- Takes letters behind one dash: flags, and then perhaps an option with its value, which may have
an equals sign in front of it. -/
def addLetters (r : Reading) : List Char → Except NoCommand Reading
  | [] => .ok r
  | c :: rest =>
    match r.specs.find? fun o => o.short? == some c with
    | none => .error .usage
    | some o =>
      if o.isFlag then do
        let next ← r.addOption o ""
        next.addLetters rest
      else
        match rest with
        | [] => .ok { r with waiting? := some o }
        | '=' :: value => r.addOption o (.ofList value)
        | value => r.addOption o (.ofList value)

/-- Takes the next argument. -/
def add (r : Reading) (s : String) : Except NoCommand Reading :=
  if r.command? == some .help then
    .ok (r.setGiven { r.given with others := r.given.others ++ [s] })
  else if r.onlyOthers then r.addOther s
  else
    match s.toList with
    | '-' :: c :: rest =>
      if r.waiting?.isSome then .error .usage
      else if c == '-' then
        if rest.isEmpty then .ok { r with onlyOthers := true }
        else
          match rest.span (· != '=') with
          | (name, []) => r.addNamed (.ofList name) none
          | (name, _ :: value) => r.addNamed (.ofList name) (some (.ofList value))
      else r.addLetters (c :: rest)
    | _ =>
      match r.waiting? with
      | some o => r.addOption o s
      | none => r.addOther s

/-- The command that was read. Help may be asked for one command. -/
def finish (r : Reading) : Except NoCommand Invocation := do
  if r.waiting?.isSome then throw .usage
  let g := r.back
  let path := g.others.head?.getD "."
  let command ← match r.command? with
    | none => throw .usage
    | some .check =>
      pure (.check path
        { format := ((g.first? "format").bind Format.ofName?).getD .text
          rules? := g.first? "rules"
          exclude := g.all "exclude"
          jobs? := (g.first? "jobs").bind OptionSpec.jobs? })
    | some .fix => pure (.fix path (g.first? "rules") (g.has "dry-run"))
    | some .listRules => pure .listRules
    | some .init => pure (.init (g.has "force"))
    | some .help =>
      match g.others with
      | [] => throw .help
      | [name] => throw (if (CommandName.ofText? name).isSome then .help else .usage)
      | _ => throw .usage
  return {
    command
    config? := (g.first? "config").or (r.front.first? "config")
    verbose := g.has "verbose" || r.front.has "verbose" }

end Reading

/-- The command that a command line asks for. -/
def parseArguments (args : List String) : Except NoCommand Invocation := do
  (← args.foldlM Reading.add {}).finish

end PluginLint.Cli

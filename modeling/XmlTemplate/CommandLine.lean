import XmlTemplate.Workspace.Command

/-!
# Command line

Requests are read from arguments, and a request is run on a workspace and its files. The response
says what to print and how to exit; files change only in the tree that comes back.
-/

namespace XmlTemplate

/-- What a command line asks for. -/
inductive Command where
  | render (template : String) (data language output : Option String)
  | check (folder : Option String)
  | compile (folder : Option String)
  | clean
  | version
  deriving Repr, DecidableEq

/-- A command with the folder and the configuration of the workspace. -/
structure Request where
  base : Option String
  config : Option String
  command : Command
  deriving Repr, DecidableEq

/-- What a command comes to. -/
structure Response where
  /-- Text for the standard output. -/
  output : String
  /-- Text for the error output; a command without one has succeeded. -/
  problem : Option String
  deriving Repr, DecidableEq

namespace Request

-- ---------------------------------------------------------------------------
-- Reading arguments
-- ---------------------------------------------------------------------------

/-- An option that takes a value, by its names. -/
def option? (name : String) : Option String :=
  [("-c", "cwd"), ("--cwd", "cwd"), ("--config", "config"), ("--data", "data"), ("-l", "lang"),
    ("--lang", "lang"), ("-o", "output"), ("--output", "output")].lookup name

/-- Options with their values, and the other arguments; none if a value is missing. -/
def sort? : List String → Option (Table String × List String)
  | [] => some ([], [])
  | "-d" :: rest => sort? rest
  | "--debug" :: rest => sort? rest
  | name :: rest =>
    match option? name, rest with
    | some key, value :: rest =>
      (sort? rest).map fun (options, words) => ((key, value) :: options, words)
    | some _, [] => none
    | none, rest => (sort? rest).map fun (options, words) => (options, name :: words)

/-- The command that words and options ask for. -/
def command? (options : Table String) : List String → Option Command
  | ["render", template] | ["r", template] =>
    some (.render template (options.get? "data") (options.get? "lang") (options.get? "output"))
  | ["check"] => some (.check none)
  | ["check", folder] => some (.check (some folder))
  | ["compile"] => some (.compile none)
  | ["compile", folder] => some (.compile (some folder))
  | ["clean"] => some .clean
  | ["version"] => some .version
  | _ => none

/-- The request of a list of arguments. -/
def ofArguments? (args : List String) : Option Request := do
  let (options, words) ← sort? args
  let command ← command? options words
  return ⟨options.get? "cwd", options.get? "config", command⟩

/-- How requests are written. -/
def usage : String :=
  "usage: figdice [-c DIR] [--config FILE] COMMAND\n" ++
  "  render TEMPLATE [--data FILE] [-l LANGUAGE] [-o FILE]\n" ++
  "  check [FOLDER]\n  compile [FOLDER]\n  clean\n  version"

end Request

namespace Response

/-- A command that succeeds with some lines of output. -/
def ofLines (lines : List String) : Response := ⟨String.join (lines.map (· ++ "\n")), none⟩

def ofTrouble (trouble : Trouble) : Response := ⟨"", some trouble.message⟩

end Response

namespace Workspace

/-- Lines on problems of files. -/
def problemLines (problems : List (String × String)) : List String :=
  problems.map fun (file, message) => file ++ ": " ++ message

/-- The response to a check. -/
def checkResponse (r : CheckReport) : Response :=
  let lines :=
    r.duplicates.map (fun (file, key) => file ++ ": duplicate key \"" ++ key ++ "\"")
      ++ problemLines r.errors
      ++ ["Checked " ++ toString r.files ++ " dictionaries (" ++ toString r.entries ++ " entries)"]
  { Response.ofLines lines with
    problem :=
      if r.isClean then none
      else some (toString r.duplicates.length ++ " duplicate key(s), "
        ++ toString r.errors.length ++ " unreadable file(s)") }

/-- The response to a compilation. -/
def compileResponse (r : CompileReport) : Response :=
  let lines := problemLines r.failures ++ ["Compiled " ++ toString r.compiled ++ " templates"]
  { Response.ofLines lines with
    problem :=
      if r.failures.isEmpty then none
      else some (toString r.failures.length ++ " template(s) failed to compile") }

/-- Run a command. `now` is the time of files that it writes. -/
def run (w : Workspace) (now : Nat) (m : Memory) : Command → Response × Memory
  | .render template data language none =>
    match w.render template data language m with
    | (.ok rendered, m) => (⟨rendered.output, none⟩, m)
    | (.error trouble, m) => (.ofTrouble trouble, m)
  | .render template data language (some output) =>
    match w.renderTo template data language output now m with
    | (.ok _, m) => (.ofLines [], m)
    | (.error trouble, m) => (.ofTrouble trouble, m)
  | .check folder => (checkResponse (w.check folder m.files), m)
  | .compile folder =>
    let (report, m) := w.compile folder m
    (compileResponse report, m)
  | .clean =>
    match w.clean m with
    | (.ok (), m) => (.ofLines ["Cleaned successfully!"], m)
    | (.error trouble, m) => (.ofTrouble trouble, m)
  | .version => (.ofLines ["figdice version 0.1.0"], m)

end Workspace

/-- Run a request on a tree of files. -/
def Request.run (r : Request) (now : Nat) (files : Files) : Response × Files :=
  match Workspace.start (r.base.getD "") r.config now files with
  | .error trouble => (.ofTrouble trouble, files)
  | .ok w =>
    let (response, m) := w.run now (.ofFiles files) r.command
    (response, m.files)

/-- The files of a tree that are not in an older one, or that have another text there. -/
def Files.written (files older : Files) : List (String × String) :=
  files.nodes.filterMap fun
    | (place, .file content _) =>
      match older.nodes.get? place with
      | some (.file before _) =>
        if before.shown == content.shown then none else some (place, content.shown)
      | _ => some (place, content.shown)
    | _ => none

/-- The files of an older tree that are no more. -/
def Files.removed (files older : Files) : List String :=
  older.nodes.filterMap fun
    | (place, .file ..) => if (files.nodes.get? place).isNone then some place else none
    | _ => none

end XmlTemplate

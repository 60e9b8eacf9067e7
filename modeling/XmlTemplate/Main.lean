import Std.Time.DateTime.Timestamp
import XmlTemplate.CommandLine

/-!
Command line of the template engine. Reads the tree of files below the current folder, and below
the base folder if that is elsewhere, runs the request of the arguments on it, and writes the
files that have changed.
-/

namespace XmlTemplate

/-- Read the folder at a place into a tree, down to a depth. Files that are no text are left out. -/
def readFolder (depth : Nat) (place : String) (files : Files) : IO Files := do
  match depth with
  | 0 => return files
  | depth + 1 =>
    let mut files := files
    for entry in ← ((← IO.currentDir) / place).readDir do
      let inner := Files.child place entry.fileName
      if ← entry.path.isDir then
        files ← readFolder depth inner (files.addFolder inner)
      else
        try
          let text ← IO.FS.readFile entry.path
          let modified := (← entry.path.metadata).modified.sec.toNat
          files := (files.write? inner (.text text) modified).getD files
        catch _ => pure ()
    return files

/-- Write the files that differ between two trees. -/
def writeChanges (older newer : Files) : IO Unit := do
  let folder ← IO.currentDir
  for (place, text) in newer.written older do
    let path := folder / place
    if let some parent := path.parent then IO.FS.createDirAll parent
    IO.FS.writeFile path text
  for place in newer.removed older do
    IO.FS.removeFile (folder / place)

/-- The trees of files that a request may need. -/
def readFiles (request : Request) : IO Files := do
  let files ← readFolder 64 "" .empty
  match request.base with
  | none => return files
  | some base =>
    if Path.isAbsolute base then
      let place := "/" ++ Path.normalize base
      readFolder 64 place ((files.makeFolders? place).getD files)
    else return files

end XmlTemplate

/-- Answer the request of the arguments. -/
def main (args : List String) : IO UInt32 := do
  match XmlTemplate.Request.ofArguments? args with
  | none =>
    IO.eprintln XmlTemplate.Request.usage
    return 2
  | some request =>
    let now := (← Std.Time.Timestamp.now).toSecondsSinceUnixEpoch.val.toNat
    let files ← XmlTemplate.readFiles request
    let (response, changed) := request.run now files
    XmlTemplate.writeChanges files changed
    IO.print response.output
    match response.problem with
    | none => return 0
    | some message =>
      IO.eprintln ("Error: " ++ message)
      return 1

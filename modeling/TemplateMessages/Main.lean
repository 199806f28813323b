import TemplateMessages.Command.Run

/-!
# The command line program

The program copies what a command can look at from the disk into a file system,
runs the command in it, and carries the entries that have changed back to the
disk.
-/

namespace TemplateMessages.Main

def localeVariable : String := "TRANSCAT_LOCALE"

def help : String :=
  "Usage: transcat [COMMAND]\n\n" ++
    "Commands:\n" ++
    "  extract  Extract translatable messages into POT files\n" ++
    "  init     Initialize a new .transcatrc.json configuration file\n" ++
    "  help     Print this message\n"

def usageText : Command.UsageError → String
  | .help => help
  | .version => "transcat\n"
  | .missingArgument => "error: a required argument is missing\n"
  | .invalidSubcommand => "error: unrecognized command\n"
  | .unknownArgument => "error: unexpected argument\n"
  | .invalidValue => "error: a value is missing or empty\n"
  | .argumentConflict => "error: an argument is given more than once\n"
  | .tooManyValues => "error: a value is given to an option that takes none\n"

/-! ## Reading the disk -/

/-- Content that is no text, in the place of content that cannot be read. -/
def unreadableContent : ByteArray := ⟨#[0xff]⟩

def readContent (location : Location) : IO ByteArray := do
  try IO.FS.readBinFile (Location.text location)
  catch _ => return unreadableContent

/-- Copies one entry of the disk, with links followed. -/
def copyEntry (files : FileSystem) (location : Location) : IO FileSystem := do
  if location.isEmpty || (files.entry? location).isSome then return files
  try
    match (← ((← IO.currentDir) / Location.text location).metadata).type with
    | .dir => return files.putEntry location .directory
    | .file => return files.putEntry location (.file (← readContent location))
    | _ => return files
  catch _ => return files

/-- Copies the entries that the names of a path lead to, and gives the last
location. -/
def copyAlong (files : FileSystem) (location : Location) :
    List (List Char) → IO (FileSystem × Location)
  | [] => return (files, location)
  | piece :: rest => do
      let location :=
        if Path.isVoid piece then location
        else if piece = ['.', '.'] then location.dropLast
        else location ++ [String.ofList piece]
      let files ← copyEntry files location
      copyAlong files location rest

def copyPath (files : FileSystem) (path : String) : IO (FileSystem × Location) :=
  copyAlong files (files.origin path) (Path.pieces path.toList)

/-- Copies what is in a directory, and in the directories below it down to a
depth.  A link is not followed. -/
def copyBelow (files : FileSystem) (location : Location) : Nat → IO FileSystem
  | 0 => return files
  | depth + 1 => do
      if !files.isDirectoryAt location then return files
      let entries ← try ((← IO.currentDir) / Location.text location).readDir catch _ => pure #[]
      entries.foldlM (fun files entry => do
        let location := location ++ [entry.fileName]
        try
          match (← entry.path.symlinkMetadata).type with
          | .dir => copyBelow (files.putEntry location .directory) location depth
          | .file => return files.putEntry location (.file (← readContent location))
          | _ => return files
        catch _ => return files) files

/-- Names that a disk can nest. -/
def deepest : Nat := 4096

/-- Copies the working directory and what tells where a project is configured. -/
def copySurroundings (working : Location) : IO FileSystem :=
  (List.range (working.length + 1)).foldlM (fun files depth => do
      let directory := working.take depth
      let files ← copyEntry files (directory ++ [Config.fileName])
      copyEntry files (directory ++ [Config.boundaryName]))
    (FileSystem.bare working)

/-- Copies what a command can look at. -/
def copyFor (command : Command) (working : Location) : IO FileSystem := do
  let files ← copySurroundings working
  match command with
  | .init => return files
  | .extract options => do
      let (files, resource) ← copyPath files options.resource
      let files ← copyBelow files resource deepest
      match Config.load files files.workingPath with
      | .error _ => return files
      | .ok loaded => do
          let directory := options.output.getD
            (Path.join loaded.base loaded.config.outputDirectory)
          let (files, output) ← copyPath files directory
          copyBelow files output 1

/-! ## Writing the disk -/

def sameEntry : FileEntry → FileEntry → Bool
  | .directory, .directory => true
  | .file left, .file right => left == right
  | _, _ => false

/-- Carries an entry to the disk, unless it has been there. -/
def carryEntry (before : FileSystem) (entry : Location × FileEntry) : IO Unit := do
  let same := match before.entry? entry.1 with
    | some present => sameEntry present entry.2
    | none => false
  if !same then
    match entry.2 with
    | .directory => IO.FS.createDirAll (Location.text entry.1)
    | .file content => IO.FS.writeBinFile (Location.text entry.1) content

def runCommand (command : Command) : IO UInt32 := do
  let directory := (← IO.currentDir).toString
  let working := ((Path.pieces directory.toList).filter fun piece => !Path.isVoid piece).map
    String.ofList
  let before ← copyFor command working
  let (after, outcome) := Command.run command before
  after.entries.forM (carryEntry before)
  match outcome with
  | .error error => do
      IO.eprintln ("Error: " ++ error.message)
      return 2
  | .ok printed => do
      IO.print printed.output
      IO.eprint printed.errors
      return if printed.failed then 1 else 0

end TemplateMessages.Main

open TemplateMessages in
/-- Runs the command of a command line and tells how it ended: 0 for success, 1
when some files failed, 2 when there is no result. -/
def main (arguments : List String) : IO UInt32 := do
  let locale ← IO.getEnv Main.localeVariable
  match Command.parse arguments locale with
  | .ok none => do
      IO.print Main.help
      return 0
  | .ok (some command) => Main.runCommand command
  | .error .help => do
      IO.print Main.help
      return 0
  | .error .version => do
      IO.print (Main.usageText .version)
      return 0
  | .error error => do
      IO.eprint (Main.usageText error)
      return 2

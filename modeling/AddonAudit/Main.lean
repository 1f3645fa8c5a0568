import AddonAudit.CommandLine.Run
import AddonAudit.Json.Printer

/-!
# The program

Reads what a run has to see from the disk, runs it, and prints its result.
-/

namespace AddonAudit.CommandLine

def usage : String :=
  "Static analyzer for browser extension packages\n\n" ++
  "Usage: xpilint [-v]... validate [OPTIONS] <PATH>\n\n" ++
  "Options:\n" ++
  "  -c, --config <CONFIG>            Path to configuration YAML file (default: auto-discover)\n" ++
  "  -f, --format <FORMAT>            Output format: pretty or json [default: pretty]\n" ++
  "  -t, --type <EXPECTED_TYPE>       Expected package type (extension, theme, dictionary, " ++
    "langpack, search, multi)\n" ++
  "      --for-firefox <FOR_FIREFOX>  Only report compatibility findings for this Firefox " ++
    "version window, as FROM:TO\n" ++
  "      --determined                 Continue to later tiers after a failing one\n" ++
  "      --strict                     Abort on internal engine faults instead of " ++
    "reporting them\n" ++
  "      --timeout <TIMEOUT>          Overall time limit in seconds (0 disables)\n" ++
  "      --ignore-empty-name          Do not require an add-on name in install.rdf\n" ++
  "      --ignore-warnings            Pass even when warnings were reported\n" ++
  "  -v, --verbose...                 Increase log verbosity (-v debug, -vv trace)\n" ++
  "  -h, --help                       Print help\n" ++
  "  -V, --version                    Print version"

def UsageError.message : UsageError → String
  | .help | .nothing => usage
  | .version => "xpilint " ++ Terminal.version
  | .missingCommand => "error: a subcommand is required but one was not provided"
  | .unknownCommand => "error: unrecognized subcommand"
  | .unknownArgument => "error: unexpected argument found"
  | .missingPackage => "error: the required argument <PATH> was not provided"
  | .missingValue => "error: a value is required but none was supplied"
  | .badValue => "error: invalid value"
  | .extraValue => "error: unexpected value for an option without one"
  | .repeated => "error: an option cannot be used multiple times"

def reasonOf : IO.Error → String
  | .permissionDenied .. => "Permission denied (os error 13)"
  | .inappropriateType .. => "Not a directory (os error 20)"
  | _ => Package.noSuchFile

/-- The files below a folder, down to a depth, with names after a given text. Links are not
followed. -/
def filesBelow : Nat → String → IO.FS.DirEntry → IO (List (String × Bytes))
  | 0, _, _ => return []
  | depth + 1, name, entry => do
    match (← entry.path.symlinkMetadata).type with
    | .file => return [(name, (← IO.FS.readBinFile entry.path).toList)]
    | .dir =>
      let inner ← entry.path.readDir
      let files ← inner.toList.mapM fun e =>
        filesBelow depth (if name = "" then e.fileName else name ++ "/" ++ e.fileName) e
      return files.flatten
    | _ => return []

def placeOf (path : String) : IO Place := do
  let folder : IO.FS.DirEntry := ⟨path, "."⟩
  if ← folder.root.isDir then
    return .folder (Dict.ofEntries (← filesBelow 1000 "" folder))
  try
    return .file (← IO.FS.readBinFile path).toList
  catch e =>
    return .missing (reasonOf e)

def settingsFolder : IO (Option String) := do
  match ← IO.getEnv "XDG_CONFIG_HOME", ← IO.getEnv "HOME" with
  | some folder, home =>
    return if "/".toList.isPrefixOf folder.toList then some folder else home.map (· ++ "/.config")
  | none, home => return home.map (· ++ "/.config")

def hostFor (a : Arguments) : IO Host := do
  let folder ← settingsFolder
  let candidates := Settings.candidates ⟨fun _ => .missing Package.noSuchFile, folder⟩
  let places ← (a.path :: a.config.toList ++ candidates).mapM fun path => do
    return (path, ← placeOf path)
  let look (path : String) :=
    ((places.find? (·.1 = path)).map Prod.snd).getD (.missing Package.noSuchFile)
  return ⟨look, folder⟩

/-- Wait for a task, for a number of hundredths of a second; whether it has finished. -/
def waitFor {α : Type} (task : Task α) : Nat → IO Bool
  | 0 => IO.hasFinished task
  | n + 1 => do
    if ← IO.hasFinished task then return true
    IO.sleep 10
    waitFor task n

/-- Run the program until the limit of its configuration. -/
def runWithin (host : Host) (colours : Bool) (a : Arguments) : IO Run := do
  let task := Task.spawn fun _ => run host none colours a
  match (Settings.load host a).toOption.bind Config.limit? with
  | none => return task.get
  | some seconds =>
    if ← waitFor task (100 * seconds) then return task.get
    else return run host (some 0) colours a

def recordName (uid : Nat) : String :=
  let digits := Nat.toDigits 16 uid
  String.ofList (List.replicate (32 - digits.length) '0' ++ digits)

def printRun (r : Run) : IO Nat := do
  match r.output with
  | .nothing => pure ()
  | .terminal text => IO.print text
  | .data b failOnWarnings => IO.println (Report.ofBundle recordName b failOnWarnings).pretty
  IO.eprint r.problems
  match r.ending with
  | .exit code => return code
  | .failure e =>
    IO.eprintln ("Error: " ++ e.message)
    return Run.problem

end AddonAudit.CommandLine

open AddonAudit CommandLine in
def main (arguments : List String) : IO UInt32 := do
  match CommandLine.parse arguments with
  | .error e =>
    if e = .help || e = .version then
      IO.println e.message
      return 0
    IO.eprintln e.message
    return UInt32.ofNat Run.problem
  | .ok a =>
    let colours := (← (← IO.getStdout).isTty) && (← IO.getEnv "NO_COLOR").isNone
    return UInt32.ofNat (← printRun (← runWithin (← hostFor a) colours a))

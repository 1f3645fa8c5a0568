import AddonAudit.Audit
import AddonAudit.CommandLine.Settings
import AddonAudit.Report.Data
import AddonAudit.Report.Terminal

/-!
# Runs

A run of the program for arguments that were read: it loads the configuration, audits the package
and gives what is to be printed.
-/

namespace AddonAudit.CommandLine

/-- What a run prints as its result. -/
inductive Output where
  | nothing
  | terminal (text : String)
  | data (b : Bundle) (failOnWarnings : Bool)

inductive Ending where
  | exit (code : Nat)
  /-- The audit could not be completed. -/
  | failure (e : AuditError)
  deriving DecidableEq, Repr

structure Run where
  output : Output := .nothing
  problems : String := ""
  ending : Ending

namespace Run

def passed : Nat := 0

def failed : Nat := 1

def problem : Nat := 2

def ofProblem (text : String) : Run :=
  { problems := text ++ "\n", ending := .exit problem }

/-- A path between double quotes, with single quotes escaped too. -/
def quotedPath (path : String) : String :=
  let quote (c : Char) := if c = '\'' then ['\\', '\''] else Text.quoteChar c
  String.ofList ('"' :: path.toList.flatMap quote ++ ['"'])

def ofBundle (colours : Bool) (a : Arguments) (b : Bundle) : Run :=
  let failOnWarnings := !a.ignoreWarnings
  { output :=
      if a.format = "json" then .data b failOnWarnings
      else .terminal (Terminal.render colours a.path b failOnWarnings)
    ending := .exit (if b.failed failOnWarnings then failed else passed) }

def auditPath (host : Host) (clock : Clock) (config : Config) (path : String) :
    Except AuditError Bundle :=
  match (host.look path).package path with
  | .ok p => audit config clock p
  | .error e => .error (.package e)

end Run

def run (host : Host) (clock : Clock) (colours : Bool) (a : Arguments) : Run :=
  if a.format ≠ "pretty" && a.format ≠ "json" then
    .ofProblem ("Error: invalid format " ++ Text.quoted a.format ++ ", must be 'pretty' or 'json'")
  else
    match Settings.load host a with
    | .error e => .ofProblem ("Error loading configuration: " ++ e.message)
    | .ok config =>
      if !(host.look a.path).isPresent then
        .ofProblem ("Error: cannot access path " ++ Run.quotedPath a.path)
      else
        match Run.auditPath host clock config a.path with
        | .ok b => .ofBundle colours a b
        | .error .timeout =>
          .ofProblem ("Error: validation timed out after " ++ toString config.timeout ++ "s")
        | .error e => { ending := .failure e }

end AddonAudit.CommandLine

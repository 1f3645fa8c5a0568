import AddonAudit.CommandLine.Arguments
import AddonAudit.Config.Yaml
import AddonAudit.FileTree

/-!
# Settings of a run

The configuration of a run: that of a file, with what the arguments say in its place. The file is
named by an argument, or looked for in the present folder and then among the files of the user.
-/

namespace AddonAudit.CommandLine

/-- What a run can see of the machine. -/
structure Host where
  /-- What stands under a path. -/
  look : String → Place
  settingsFolder : Option String := none

/-- Why there is no configuration. -/
inductive SettingsError where
  | unreadable (reason : String)
  | notText
  | invalid (e : Config.FileError)
  /-- A text that does not give two versions. -/
  | badWindow (text : String)

def SettingsError.message : SettingsError → String
  | .unreadable reason => reason
  | .notText => "stream did not contain valid UTF-8"
  | .invalid e => e.message
  | .badWindow text => "--for-firefox expects FROM:TO, got " ++ Text.quoted text

namespace Settings

def read (host : Host) (path : String) : Except SettingsError Config :=
  match (host.look path).content with
  | .error reason => .error (.unreadable reason)
  | .ok bytes =>
    match Text.ofBytes? bytes with
    | none => .error .notText
    | some source => (Config.ofYaml source).mapError .invalid

/-- Where configuration files are looked for, in this order. -/
def candidates (host : Host) : List String :=
  ["xpilint.yaml", ".xpilint.yaml"] ++
    (host.settingsFolder.map (· ++ "/xpilint/config.yaml")).toList

/-- The configuration of the file that the arguments name, of the first one that is found, or the
usual one. -/
def base (host : Host) (a : Arguments) : Except SettingsError Config :=
  match a.config with
  | some path => read host path
  | none =>
    match (candidates host).find? fun path => (host.look path).isPresent with
    | some path => read host path
    | none => .ok {}

/-- The versions before and after the first colon of a text. -/
def window (text : String) : Except SettingsError VersionSpec :=
  let cs := text.toList
  let first := cs.takeWhile (· ≠ ':')
  match cs.drop first.length with
  | [] => .error (.badWindow text)
  | _ :: last => .ok (.range (String.ofList first) (String.ofList last))

def addWindow (text : Option String) (c : Config) : Except SettingsError Config :=
  match text with
  | none => .ok c
  | some text => do
    let spec ← window text
    return { c with forVersions := Dict.insert "firefox" spec c.forVersions }

def refine (a : Arguments) (c : Config) : Config :=
  { c with
    timeout := a.timeout.getD c.timeout
    determined := c.determined || a.determined
    strict := c.strict || a.strict
    expectedType := a.type <|> c.expectedType
    overrides := { c.overrides with
      ignoreEmptyName := c.overrides.ignoreEmptyName || a.ignoreEmptyName } }

def load (host : Host) (a : Arguments) : Except SettingsError Config := do
  let c ← base host a
  return refine a (← addWindow a.forFirefox c)

end Settings

end AddonAudit.CommandLine

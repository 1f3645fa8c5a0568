import AddonAudit.Check.Location
import AddonAudit.Script.Analysis
import AddonAudit.Text.Replace

/-!
# Checks of markup

Scripts inside of a document and the values of its event attributes are analysed as scripts. They
are padded, so that their lines and columns are those of the document.
-/

namespace AddonAudit.Markup

open Pattern in
/-- A script element: the first group is its attributes, the second one its body. -/
def scriptTag : Pattern :=
  all [textAnyCase "<script", .boundary, .group 1 (.many false (noneOf ">")),
    .alt (text "/>")
      (all [char '>', .group 2 (.many false (.one fun _ => true)), textAnyCase "</script",
        star blank, char '>'])]

open Pattern in
/-- The address of a script; it is the first group. -/
def scriptSource : Pattern :=
  all [.boundary, textAnyCase "src", star blank, char '=', star blank, oneOf "\"'",
    .group 1 (star (noneOf "\"'")), oneOf "\"'"]

open Pattern in
/-- An event attribute: its value is the second or the third group. -/
def eventAttribute : Pattern :=
  all [blank, .group 1 (.seq (textAnyCase "on") (plus letter)), star blank, char '=', star blank,
    .alt (all [char '"', .group 2 (star (noneOf "\"")), char '"'])
      (all [char '\'', .group 3 (star (noneOf "'")), char '\''])]

open Pattern in
def sectionMark : Pattern :=
  .alt (text "<![CDATA[") (text "]]>")

def withoutSections (code : List Char) : List Char :=
  sectionMark.replaceAll (fun cs => List.replicate (Text.utf8Length cs) ' ') code

def decodeEntities (value : List Char) : List Char :=
  Text.replace "&amp;" "&" <| Text.replace "&gt;" ">" <| Text.replace "&lt;" "<" <|
    Text.replace "&apos;" "'" <| Text.replace "&quot;" "\"" value

/-- Code after so much blank space that it stands at a line and a column. -/
def padded (line column : Nat) (code : List Char) : List Char :=
  List.replicate (line - 1) '\n' ++ List.replicate column ' ' ++ code

structure Document where
  file : String
  lines : Text.Lines
  options : Script.Options

/-- Analyse code that stands at an offset; blank code is left out. -/
def checkCode (d : Document) (offset : Nat) (code : List Char) (s : Session) :
    Except Script.Fault Unit × Session :=
  if (Text.trimChars code).isEmpty then (.ok (), s)
  else
    let source := padded (d.lines.lineAt offset) (d.lines.columnAt offset) code
    Script.analyse d.file source { d.options with snippet := true } s

def checkSource (d : Document) (offset : Nat) (url : List Char) (s : Session) : Session :=
  if isRemote (Text.trimChars url) then
    let f :=
      Finding.atOffset ["markup", "script", "remote_src"] "Script loaded from a remote source"
      d.file d.lines offset
    s.add .warning { f with
      description := ["\x60" ++ String.ofList url ++ "\x60 is loaded over the network."]
      signing := some .high }
  else s

/-- Check a script element: its address, or its body if it has no address. -/
def checkScript (d : Document) (m : Pattern.Match) (s : Session) :
    Except Script.Fault Unit × Session :=
  let attributes := ((m.group? 1).map (·.text)).getD []
  match (scriptSource.find? attributes).bind (·.group? 1) with
  | some url => (.ok (), checkSource d m.offset url.text s)
  | none =>
    match m.group? 2 with
    | none => (.ok (), s)
    | some body => checkCode d body.offset (withoutSections body.text) s

def isInBody (offset : Nat) (m : Pattern.Match) : Bool :=
  (m.group? 2).any fun body =>
    body.offset ≤ offset && offset < body.offset + Text.utf8Length body.text

def checkEvent (d : Document) (scripts : List Pattern.Match) (m : Pattern.Match) (s : Session) :
    Except Script.Fault Unit × Session :=
  if scripts.any (isInBody m.offset) then (.ok (), s)
  else
    match m.group? 2 <|> m.group? 3 with
    | none => (.ok (), s)
    | some value => checkCode d value.offset (decodeEntities value.text) s

/-- Run a check for every match, up to the first fault. -/
def checkEach (step : Pattern.Match → Session → Except Script.Fault Unit × Session) :
    List Pattern.Match → Session → Except Script.Fault Unit × Session
  | [], s => (.ok (), s)
  | m :: rest, s =>
    match step m s with
    | (.ok _, s) => checkEach step rest s
    | (.error e, s) => (.error e, s)

def check (file : String) (source : List Char) (options : Script.Options) (s : Session) :
    Except Script.Fault Unit × Session :=
  let d : Document := ⟨file, .ofChars source, options⟩
  let scripts := scriptTag.findAll source
  match checkEach (checkScript d) scripts s with
  | (.ok _, s) => checkEach (checkEvent d scripts) (eventAttribute.findAll source) s
  | (.error e, s) => (.error e, s)

end AddonAudit.Markup

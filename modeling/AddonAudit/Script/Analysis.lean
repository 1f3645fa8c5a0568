import AddonAudit.Script.Catalogue
import AddonAudit.Script.Engine.Run
import AddonAudit.Script.Reader
import AddonAudit.Text.Path

/-!
# Analysis of a script

All checks of one script: the patterns for its lines, a notice if its source cannot be read
completely, and the walk over its tree.
-/

namespace AddonAudit.Script

def exportsName : String := "EXPORTED_SYMBOLS"

def declaresExports (n : Node) : Bool :=
  let target := match n.kind with
    | .assignmentExpression => n.child? .left
    | .variableDeclarator => n.child? .name
    | _ => none
  target.any fun c => c.kind = .identifier && c.text = exportsName

def hasModuleName (file : String) : Bool :=
  (Path.extension? file).any fun e => ["jsm", "mjs"].contains (Text.lower e)

def isModule (file : String) (t : Tree) : Bool :=
  hasModuleName file || (t.root.first? declaresExports).isSome

/-- A source without the marks of byte order at its front. -/
def withoutMarks (source : List Char) : List Char :=
  source.dropWhile (· = '\ufeff')

/-- Note that a source could not be read completely. -/
def noteError (file : String) (lines : Text.Lines) (t : Tree) (b : Bundle) : Bundle :=
  match t.firstError? with
  | none => b
  | some n =>
    let line := n.start.row + 1
    b.add .notice {
      id := ["javascript", "parse", "syntax_error"]
      message := "JavaScript syntax error"
      description := ["The file could not be parsed completely; analysis continued over the " ++
        "recoverable parts."]
      file := some file
      line := some line
      column := some n.start.column
      context := some (lines.excerpt line n.start.column) }

def walk (env : Env) (t : Tree) (s : Session) : Except Fault Unit × Session :=
  let (result, state) :=
    Engine.runFrom env (Engine.initial env.registry t s.clock s.bundle) (Engine.run t)
  (result, ⟨state.bundle, state.clock⟩)

def analyseTree (file : String) (source : List Char) (t : Tree) (options : Options) (s : Session) :
    Except Fault Unit × Session :=
  let lines := Text.Lines.ofChars source
  let s := if options.snippet then s else s.update (Battery.checkScript file source)
  let options := { options with isModule := options.isModule || isModule file t }
  let s := s.update (noteError file lines t)
  walk { registry := Catalogue.standard, file, lines, options } t s

def analyse (file : String) (source : List Char) (options : Options) (s : Session) :
    Except Fault Unit × Session :=
  let source := withoutMarks source
  analyseTree file source (Tree.ofSource source) options s

end AddonAudit.Script

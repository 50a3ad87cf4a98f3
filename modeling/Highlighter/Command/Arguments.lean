import Highlighter.Display.Output

/-! # Command-line arguments

Arguments are taken one after the other, and the first that offends ends the reading.  Only at
the end does it show whether an input was named at all. -/

set_option autoImplicit false

namespace Highlighter.Command

inductive Source where
  | stdin
  | file (path : String)
deriving DecidableEq, Repr

inductive UsageFault where
  | unknownOption (argument : String)
  | noThemePath
  | secondInput
  | noInput
  | unexpected (argument : String)
deriving DecidableEq, Repr

def UsageFault.message : UsageFault → String
  | unknownOption argument => s!"unknown option `{argument}`"
  | noThemePath => "`--theme=` needs a path"
  | secondInput => "only one input may be given"
  | noInput => "missing input file (use `-` for stdin)"
  | unexpected argument => s!"unexpected argument `{argument}`"

def themeOption : String := "--theme="

/-- What follows the theme option in an argument; none if it is another argument. -/
def themePath? (argument : String) : Option String :=
  let option := themeOption.toList
  if option.isPrefixOf argument.toList then some (String.ofList (argument.toList.drop option.length))
  else none

def checkThemePath (path : String) : Except UsageFault String :=
  if path.isEmpty then .error .noThemePath else .ok path

structure Options where
  source : Source
  format : Format
  theme : Option String
deriving DecidableEq, Repr

namespace Options

structure Draft where
  source : Option Source
  format : Format
  theme : Option String
deriving DecidableEq, Repr

namespace Draft

def start : Draft := ⟨none, .ansi, none⟩

def setSource (draft : Draft) (source : Source) : Except UsageFault Draft :=
  match draft.source with
  | none => .ok { draft with source := some source }
  | some _ => .error .secondInput

def take (draft : Draft) (argument : String) : Except UsageFault Draft :=
  if argument = "--json" then .ok { draft with format := .json }
  else match themePath? argument with
    | some path => (checkThemePath path).map fun path => { draft with theme := some path }
    | none =>
      if argument = "-" then draft.setSource .stdin
      else if argument.toList.head? = some '-' then .error (.unknownOption argument)
      else draft.setSource (.file argument)

def finish (draft : Draft) : Except UsageFault Options :=
  match draft.source with
  | some source => .ok ⟨source, draft.format, draft.theme⟩
  | none => .error .noInput

end Draft

def parse (arguments : List String) : Except UsageFault Options := do
  (← arguments.foldlM Draft.take Draft.start).finish

end Options

/-- Takes one argument where only a theme may be named; the last path counts. -/
def takeTheme (_ : Option String) (argument : String) : Except UsageFault (Option String) :=
  match themePath? argument with
  | some path => (checkThemePath path).map some
  | none => .error (.unexpected argument)

def parseTheme (arguments : List String) : Except UsageFault (Option String) :=
  arguments.foldlM takeTheme none

end Highlighter.Command

import Highlighter.Command.Arguments
import Highlighter.Command.Files
import Highlighter.Text.Utf8
import Highlighter.Theme.Document

/-! # Commands

A command takes its arguments, then its theme, then its input, and stops at the first that
fails; what it writes is written only after all three were had.  The files and the standard
input are the host's, so that the same program runs on a computer and on a described
directory. -/

set_option autoImplicit false

namespace Highlighter.Command

structure Host (m : Type → Type) where
  readFile : String → m (Except ReadFault ByteArray)
  readStdin : m (Except ReadFault ByteArray)

def Files.host (files : Files) (stdin : ByteArray) : Host Id where
  readFile path := files.read path
  readStdin := .ok stdin

inductive Fault where
  | usage (fault : UsageFault)
  | read (path : String) (fault : ReadFault)
  | theme (path : String) (fault : ThemeFault)
  | output (fault : OutputFault)

def Fault.message : Fault → String
  | usage fault => fault.message
  | read path fault => s!"cannot read `{path}`: {fault.message}"
  | theme path fault => s!"cannot load theme `{path}`: {fault.message}"
  | output fault => fault.message

variable {m : Type → Type} [Monad m]

def themeOfBytes (path : String) (bytes : ByteArray) : Except Fault Theme :=
  match String.fromUTF8? bytes with
  | none => .error (.read path .notText)
  | some document =>
    match Theme.parse document with
    | .ok theme => .ok theme
    | .error fault => .error (.theme path fault)

def fetchTheme (host : Host m) : Option String → m (Except Fault Theme)
  | none => return .ok .standard
  | some path => do
    match ← host.readFile path with
    | .ok bytes => return themeOfBytes path bytes
    | .error fault => return .error (.read path fault)

def fetchText (host : Host m) (source : Source) : m (Except Fault String) := do
  let (path, bytes) ← match source with
    | .stdin => do pure ("<stdin>", ← host.readStdin)
    | .file path => do pure (path, ← host.readFile path)
  match bytes with
  | .ok bytes => return .ok (Text.decode bytes)
  | .error fault => return .error (.read path fault)

def outputBytes (output : EStateM OutputFault Sink Unit) : Except Fault ByteArray :=
  match output (Sink.ofRoom none) with
  | .ok _ sink => .ok sink.written
  | .error fault _ => .error (.output fault)

def highlight (host : Host m) (options : Options) : m (Except Fault ByteArray) := do
  match ← fetchTheme host options.theme with
  | .error fault => return .error fault
  | .ok theme =>
    match ← fetchText host options.source with
    | .error fault => return .error fault
    | .ok text => return outputBytes (theme.write text options.format)

def showTheme (host : Host m) (path : Option String) : m (Except Fault ByteArray) := do
  match ← fetchTheme host path with
  | .error fault => return .error fault
  | .ok theme => return outputBytes theme.spec.toJson.writeLine

structure Outcome where
  code : UInt32
  stdout : ByteArray
  stderr : String

namespace Outcome

def success (stdout : ByteArray) : Outcome := ⟨0, stdout, ""⟩

def failure (fault : Fault) (hint : String) : Outcome :=
  ⟨1, .empty, s!"error: {fault.message}\n" ++ hint⟩

def ofResult : Except Fault ByteArray → Outcome
  | .ok stdout => success stdout
  | .error fault => failure fault ""

end Outcome

def help : String := "CodeNotes snippet highlighter

Usage: codenotes <command> [options]

Commands:
  highlight <file|->   Highlight a snippet (`-` reads stdin)
  theme                Print the effective theme as JSON
  help                 Show this message

Options:
  --json               Write runs as JSON instead of ANSI color
  --theme=<path>       Load colors and keywords from a JSON theme

Logging: RUST_LOG=cn_highlight=debug (CN_LOG_TREE=1 for a span tree)
"

def highlightHint : String :=
  "\nUsage: codenotes highlight <file|-> [--json] [--theme=<path>]\n"

def themeHint : String := "\nUsage: codenotes theme [--theme=<path>]\n"

def run (host : Host m) : List String → m Outcome
  | [] => return .success help.toUTF8
  | name :: arguments =>
    if name = "highlight" then
      match Options.parse arguments with
      | .error fault => return .failure (.usage fault) highlightHint
      | .ok options => Outcome.ofResult <$> highlight host options
    else if name = "theme" then
      match parseTheme arguments with
      | .error fault => return .failure (.usage fault) themeHint
      | .ok path => Outcome.ofResult <$> showTheme host path
    else if name = "help" ∨ name = "--help" ∨ name = "-h" then return .success help.toUTF8
    else return ⟨1, help.toUTF8, s!"Unknown command: {name}\n\n"⟩

end Highlighter.Command

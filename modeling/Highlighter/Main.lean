import Highlighter.Command.Run

/-! # The program

The commands on a computer: files and the standard input are read where a command asks for
them, and the outcome is written out. -/

set_option autoImplicit false

namespace Highlighter.Command

/-- The number of a failure, which some parts of the system report with its sign turned. -/
def faultNumber (code : UInt32) : Nat :=
  if code.toNat < 0x80000000 then code.toNat else 0x100000000 - code.toNat

def systemFault : IO.Error → ReadFault
  | .alreadyExists _ code details | .interrupted _ code details
  | .noFileOrDirectory _ code details | .invalidArgument _ code details
  | .permissionDenied _ code details | .resourceExhausted _ code details
  | .inappropriateType _ code details | .noSuchThing _ code details
  | .otherError code details | .resourceBusy code details | .resourceVanished code details
  | .unsupportedOperation code details | .hardwareFault code details
  | .unsatisfiedConstraints code details | .illegalOperation code details
  | .protocolError code details | .timeExpired code details =>
    match faultNumber code with
    | 2 => .missing
    | 20 => .notDirectory
    | 21 => .isDirectory
    | code => .system code details
  | error => .system 0 error.toString

def attempt (action : IO ByteArray) : IO (Except ReadFault ByteArray) := do
  match ← action.toBaseIO with
  | .ok bytes => return .ok bytes
  | .error error => return .error (systemFault error)

def computer : Host IO where
  readFile path := attempt (IO.FS.readBinFile path)
  readStdin := attempt do (← IO.getStdin).readBinToEnd

end Highlighter.Command

def main (arguments : List String) : IO UInt32 := do
  let outcome ← Highlighter.Command.run Highlighter.Command.computer arguments
  let stdout ← IO.getStdout
  stdout.write outcome.stdout
  stdout.flush
  IO.eprint outcome.stderr
  return outcome.code

/-! # Sinks

A sink takes bytes.  It may have room for only so many of them: a write that does not fit leaves
the part that does, and fails. -/

set_option autoImplicit false

namespace Highlighter

/-- The bytes written so far and, if the sink is bounded, the number of bytes that still fit. -/
structure Sink where
  written : ByteArray
  room : Option Nat

inductive SinkFault where
  | full
deriving DecidableEq, Repr

def SinkFault.message : SinkFault → String
  | full => "failed to write whole buffer"

namespace Sink

def ofRoom (room : Option Nat) : Sink := ⟨.empty, room⟩

def write (text : String) : EStateM SinkFault Sink Unit := fun sink =>
  let bytes := text.toUTF8
  match sink.room with
  | none => .ok () ⟨sink.written ++ bytes, none⟩
  | some room =>
    if bytes.size ≤ room then .ok () ⟨sink.written ++ bytes, some (room - bytes.size)⟩
    else .error .full ⟨sink.written ++ bytes.extract 0 room, some 0⟩

end Sink

end Highlighter

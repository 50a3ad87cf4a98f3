import Highlighter.Run.Highlight

/-! # Displays and previews

A display shows the runs that it was last given.  It may refuse a list of runs, and only then can
a change of the previewed text fail; whatever the outcome, the display that results from it goes
on. -/

set_option autoImplicit false

namespace Highlighter

/-- A state that can show runs, and may fail with an `ε`. -/
class Display (σ : Type) (ε : outParam Type) where
  draw : List Run → EStateM ε σ Unit

structure Screen where
  runs : List Run.Detached
  draws : Nat
deriving DecidableEq, Repr, Inhabited

namespace Screen

def blank : Screen := ⟨[], 0⟩

def text (screen : Screen) : String := String.join (screen.runs.map (·.text))

def withRuns (screen : Screen) (runs : List Run) : Screen :=
  ⟨runs.map Run.detach, screen.draws + 1⟩

end Screen

instance : Display Screen Empty where
  draw runs := fun screen => .ok () (screen.withRuns runs)

/-- A screen behind a gate that may refuse a list of runs; then the content stays. -/
structure GatedScreen (ε : Type) where
  refusal? : List Run → Option ε
  screen : Screen

instance {ε : Type} : Display (GatedScreen ε) ε where
  draw runs := fun gated =>
    match gated.refusal? runs with
    | some refusal => .error refusal gated
    | none => .ok () { gated with screen := gated.screen.withRuns runs }

structure Preview (σ : Type) where
  theme : Theme
  display : σ

def Preview.update {σ ε : Type} [Display σ ε] (text : String) : EStateM ε (Preview σ) Nat :=
  fun preview =>
    let runs := preview.theme.render text
    match Display.draw runs preview.display with
    | .ok _ display => .ok runs.length { preview with display }
    | .error error display => .error error { preview with display }

end Highlighter

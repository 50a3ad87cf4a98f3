import Mathlib
import Highlighter.Proofs.Display.Output
import Highlighter.Proofs.Run.Limit

/-! # Previews over time

A preview is drawn anew for each change of its text.  What its display accepted last is all that
can be seen of the past: what came before is gone, and what was refused has left no trace.  Only a
terminal keeps everything, one drawing after the other. -/

set_option autoImplicit false

namespace Highlighter

/-- A display with a screen behind it.  A list of runs that it accepts is drawn on the screen; one
that it refuses leaves the screen as it was. -/
structure Display.Guards {σ ε : Type} [Display σ ε] (screen : σ → Screen) : Prop where
  accepted : ∀ {runs : List Run} {display after : σ}, draw runs display = .ok () after →
    draw runs (screen display) = .ok () (screen after)
  refused : ∀ {runs : List Run} {display after : σ} {fault : ε},
    draw runs display = .error fault after → screen after = screen display

theorem GatedScreen.guards (ε : Type) :
    Display.Guards (GatedScreen.screen : GatedScreen ε → Screen) := by
  constructor
  · intro runs gated after drawn
    simp only [Display.draw] at drawn ⊢
    split at drawn
    · contradiction
    · cases drawn
      rfl
  · intro runs gated after fault drawn
    simp only [Display.draw] at drawn
    split at drawn
    · cases drawn
      rfl
    · contradiction

/-- What a screen is like that has shown these texts one after the other. -/
structure Screen.HasShown (theme : Theme) (texts : List String) (screen : Screen) : Prop where
  runs : screen.runs =
    (texts.getLast?.map fun text => (theme.render text).map Run.detach).getD []
  text : screen.text = texts.getLast?.getD ""
  draws : screen.draws = texts.length

namespace Screen

variable {theme : Theme} {texts : List String}

theorem hasShown_blank (theme : Theme) : blank.HasShown theme [] := ⟨rfl, rfl, rfl⟩

/-- Nothing of the former content is left by a drawing. -/
theorem HasShown.draw {screen next : Screen} (shown : screen.HasShown theme texts) {text : String}
    (drawn : Display.draw (theme.render text) screen = .ok () next) :
    next.HasShown theme (texts ++ [text]) := by
  cases drawn
  constructor
  · rw [List.getLast?_concat]
    rfl
  · rw [List.getLast?_concat, Option.getD_some, Screen.text, withRuns, List.map_map]
    exact theme.join_render text
  · rw [List.length_append, ← shown.draws]
    rfl

theorem HasShown.length_runs {screen : Screen} {text : String}
    (shown : screen.HasShown theme (texts ++ [text])) :
    screen.runs.length = (theme.render text).length := by
  rw [shown.runs, List.getLast?_concat, Option.map_some, Option.getD_some, List.length_map]

end Screen

namespace Preview

section Updates

variable {σ ε : Type} [Display σ ε]

/-- The preview after a text has changed again and again. -/
def afterUpdates (preview : Preview σ) : List String → Preview σ
  | [] => preview
  | text :: rest =>
    match update text preview with
    | .ok _ next => next.afterUpdates rest
    | .error _ next => next.afterUpdates rest

/-- The texts that were not refused. -/
def accepted (preview : Preview σ) : List String → List String
  | [] => []
  | text :: rest =>
    match update text preview with
    | .ok _ next => text :: next.accepted rest
    | .error _ next => next.accepted rest

variable {preview : Preview σ} {text : String} {after : σ}

theorem update_of_ok
    (drawn : Display.draw (preview.theme.render text) preview.display = .ok () after) :
    update text preview = .ok (preview.theme.render text).length ⟨preview.theme, after⟩ := by
  simp only [update, drawn]

theorem update_of_error {fault : ε}
    (drawn : Display.draw (preview.theme.render text) preview.display = .error fault after) :
    update text preview = .error fault ⟨preview.theme, after⟩ := by
  simp only [update, drawn]

/-- Step by step, the screen has shown the texts that were accepted. -/
theorem hasShown_afterUpdates {screen : σ → Screen} (guards : Display.Guards screen)
    (texts : List String) : ∀ (preview : Preview σ) {past : List String},
      (screen preview.display).HasShown preview.theme past →
        (preview.afterUpdates texts).theme = preview.theme ∧
          (screen (preview.afterUpdates texts).display).HasShown preview.theme
            (past ++ preview.accepted texts) := by
  induction texts with
  | nil =>
      intro preview past shown
      rw [accepted, List.append_nil]
      exact ⟨rfl, shown⟩
  | cons text rest ih =>
      intro preview past shown
      cases drawn : Display.draw (preview.theme.render text) preview.display with
      | ok answer after =>
          have next := ih ⟨preview.theme, after⟩ (shown.draw (guards.accepted drawn))
          rw [List.append_assoc] at next
          simp only [afterUpdates, accepted, update_of_ok drawn]
          exact next
      | error fault after =>
          -- The past is the same for the screen that is left.
          rw [← guards.refused drawn] at shown
          simp only [afterUpdates, accepted, update_of_error drawn]
          exact ih ⟨preview.theme, after⟩ shown

end Updates

/-! ## Terminals -/

/-- A terminal behind a sink without bounds refuses nothing and keeps what was written before. -/
theorem exists_afterUpdates_terminal (theme : Theme) (texts : List String) :
    ∀ written : ByteArray, ∃ drawings : List ByteArray,
      List.Forall₂ (fun text drawing =>
        theme.write text .ansi (.ofRoom none) = .ok () ⟨drawing, none⟩) texts drawings ∧
      (Preview.mk theme (Terminal.mk ⟨written, none⟩)).accepted texts = texts ∧
      (Preview.mk theme (Terminal.mk ⟨written, none⟩)).afterUpdates texts =
        ⟨theme, ⟨⟨drawings.foldl (· ++ ·) written, none⟩⟩⟩ := by
  induction texts with
  | nil =>
      intro written
      exact ⟨[], .nil, rfl, rfl⟩
  | cons text rest ih =>
      intro written
      obtain ⟨drawings, alone, all, last⟩ :=
        ih (written ++ (Terminal.encode (theme.render text)).toUTF8)
      exact ⟨_ :: drawings, .cons (theme.write_ansi_unbounded text) alone,
        congrArg (text :: ·) all, last⟩

end Preview

/-- Whatever texts a preview was given, the display behind it shows the last one that was not
refused and nothing else: two pasts that end in the same accepted text look the same.  A further
text is answered with the number of its runs, or with the display's own fault.  A terminal has
printed of each text what is written of it alone. -/
theorem hasShown_afterUpdates_blank {σ ε : Type} [Display σ ε] {screen : σ → Screen}
    (guards : Display.Guards screen) (start : Preview σ) (blank : screen start.display = .blank)
    (texts : List String) :
    (screen (start.afterUpdates texts).display).HasShown start.theme (start.accepted texts) ∧
      (∀ text,
        (∃ after, Display.draw (start.theme.render text) (start.afterUpdates texts).display =
            .ok () after ∧
          Preview.update text (start.afterUpdates texts) =
            .ok (screen after).runs.length ⟨start.theme, after⟩) ∨
        (∃ fault after, Display.draw (start.theme.render text)
            (start.afterUpdates texts).display = .error fault after ∧
          Preview.update text (start.afterUpdates texts) = .error fault ⟨start.theme, after⟩)) ∧
      (∀ (other : Preview σ) (texts' : List String), other.theme = start.theme →
        screen other.display = .blank →
        (other.accepted texts').getLast? = (start.accepted texts).getLast? →
        (screen (other.afterUpdates texts').display).runs =
            (screen (start.afterUpdates texts).display).runs ∧
          (screen (other.afterUpdates texts').display).text =
            (screen (start.afterUpdates texts).display).text) ∧
      ∃ drawings : List ByteArray,
        List.Forall₂ (fun text drawing =>
          start.theme.write text .ansi (.ofRoom none) = .ok () ⟨drawing, none⟩) texts drawings ∧
        (Preview.mk start.theme (Terminal.mk (.ofRoom none))).afterUpdates texts =
          ⟨start.theme, ⟨⟨drawings.foldl (· ++ ·) .empty, none⟩⟩⟩ := by
  have fresh : ∀ (other : Preview σ) (texts' : List String), screen other.display = .blank →
      (other.afterUpdates texts').theme = other.theme ∧
        (screen (other.afterUpdates texts').display).HasShown other.theme
          (other.accepted texts') := by
    intro other texts' blank
    exact Preview.hasShown_afterUpdates guards texts' other
      (blank ▸ Screen.hasShown_blank other.theme)
  obtain ⟨theme, shown⟩ := fresh start texts blank
  refine ⟨shown, ?_, ?_, ?_⟩
  · intro text
    cases drawn : Display.draw (start.theme.render text) (start.afterUpdates texts).display with
    | ok answer after =>
        have next := (shown.draw (guards.accepted drawn)).length_runs
        rw [← theme] at drawn
        refine .inl ⟨after, rfl, ?_⟩
        rw [Preview.update_of_ok drawn, theme, next]
    | error fault after =>
        rw [← theme] at drawn
        refine .inr ⟨fault, after, rfl, ?_⟩
        rw [Preview.update_of_error drawn, theme]
  · intro other texts' same blank' last
    obtain ⟨_, shown'⟩ := fresh other texts' blank'
    rw [same] at shown'
    rw [shown'.runs, shown'.text, shown.runs, shown.text, last]
    exact ⟨rfl, rfl⟩
  · obtain ⟨drawings, alone, _, last⟩ :=
      Preview.exists_afterUpdates_terminal start.theme texts .empty
    exact ⟨drawings, alone, last⟩

/-- Of three texts the second has two runs and is refused; the third is empty and clears the
screen. -/
theorem hasShown_afterUpdates_blank_of_refusal :
    let gate : GatedScreen Nat :=
      ⟨fun runs => if 1 < runs.length then some runs.length else none, .blank⟩
    let start : Preview (GatedScreen Nat) := ⟨⟨.empty, .standard⟩, gate⟩
    Display.Guards (GatedScreen.screen : GatedScreen Nat → Screen) ∧ start.display.screen = .blank ∧
      start.accepted ["a", "a 'b'", ""] = ["a", ""] ∧
      (start.afterUpdates ["a", "a 'b'", ""]).display.screen.HasShown ⟨.empty, .standard⟩
        ["a", ""] := by
  intro gate start
  have guards := GatedScreen.guards Nat
  have accepted : start.accepted ["a", "a 'b'", ""] = ["a", ""] := by cbv
  obtain ⟨shown, _⟩ := hasShown_afterUpdates_blank guards start rfl ["a", "a 'b'", ""]
  rw [accepted] at shown
  exact ⟨guards, rfl, accepted, shown⟩

end Highlighter

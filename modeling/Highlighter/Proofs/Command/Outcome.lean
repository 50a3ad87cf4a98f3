import Mathlib.Logic.Basic
import Highlighter.Command.Run
import Highlighter.Proofs.Display.Records
import Highlighter.Proofs.Text.Decoding

/-! # How a command ends

A command has to make sense of its arguments, to find a theme and to read an input.  What can go
wrong on the way is told here by what the files and the standard input hold, without the order in
which the program looks at them; several things can be wrong at once.  A run ends well exactly if
nothing is wrong, and then all that was asked for is written.  Otherwise nothing is written but
the message of what is wrong first. -/

set_option autoImplicit false

namespace Highlighter.Command

/-- The commands that take a theme. -/
inductive Task where
  | highlight
  | theme
deriving DecidableEq, Repr

namespace Task

def name : Task → String
  | highlight => "highlight"
  | theme => "theme"

/-- How to use the command. -/
def hint : Task → String
  | highlight => highlightHint
  | theme => themeHint

/-- The path of the theme, if the arguments name one. -/
def themePath : Task → List String → Except UsageFault (Option String)
  | highlight, arguments => (Options.parse arguments).map Options.theme
  | theme, arguments => parseTheme arguments

end Task

namespace Source

/-- What messages call the source. -/
def label : Source → String
  | stdin => "<stdin>"
  | file path => path

def content (host : Host Id) : Source → Except ReadFault ByteArray
  | stdin => host.readStdin
  | file path => host.readFile path

end Source

/-- Where something can be wrong. -/
inductive Step where
  | arguments
  | themeFile
  | themeDocument
  | themeGroups
  | input
deriving DecidableEq, Repr

/-- The steps in order. -/
def Step.place : Step → Nat
  | arguments => 0
  | themeFile => 1
  | themeDocument => 2
  | themeGroups => 3
  | input => 4

/-- Why there is no theme at a path. -/
inductive ThemeFails (host : Host Id) (path : String) : Step → Fault → Prop
  | unread {fault : ReadFault} (unread : host.readFile path = .error fault) :
      ThemeFails host path .themeFile (.read path fault)
  | notText {bytes : ByteArray} (had : host.readFile path = .ok bytes)
      (broken : ∀ document : String, document.toUTF8 ≠ bytes) :
      ThemeFails host path .themeFile (.read path .notText)
  | document {document : String} {error : Json.ReadError}
      (had : host.readFile path = .ok document.toUTF8)
      (invalid : ThemeSpec.parse document = .error error) :
      ThemeFails host path .themeDocument (.theme path (.json error))
  | groups {document : String} {spec : ThemeSpec} {fault : GroupFault}
      (had : host.readFile path = .ok document.toUTF8)
      (means : ThemeSpec.parse document = .ok spec) (refused : Theme.ofSpec spec = .error fault) :
      ThemeFails host path .themeGroups (.theme path (.group fault))

/-- The theme at a path; the standard one if there is no path. -/
inductive Selects (host : Host Id) : Option String → Theme → Prop
  | standard : Selects host none .standard
  | document {path document : String} {spec : ThemeSpec} {theme : Theme}
      (had : host.readFile path = .ok document.toUTF8)
      (means : ThemeSpec.parse document = .ok spec) (admitted : Theme.ofSpec spec = .ok theme) :
      Selects host (some path) theme

/-- What is wrong at a step.  The input is looked at even if there is no theme. -/
inductive Fails (host : Host Id) (task : Task) (arguments : List String) : Step → Fault → Prop
  | arguments {fault : UsageFault} (wrong : task.themePath arguments = .error fault) :
      Fails host task arguments .arguments (.usage fault)
  | theme {path : String} {step : Step} {fault : Fault}
      (named : task.themePath arguments = .ok (some path))
      (fails : ThemeFails host path step fault) : Fails host task arguments step fault
  | input {options : Options} {fault : ReadFault} (draws : task = .highlight)
      (taken : Options.parse arguments = .ok options)
      (unread : options.source.content host = .error fault) :
      Fails host task arguments .input (.read options.source.label fault)

/-- This is wrong, and nothing is at a step before. -/
structure FailsFirst (host : Host Id) (task : Task) (arguments : List String) (step : Step)
    (fault : Fault) : Prop where
  fails : Fails host task arguments step fault
  first : ∀ {other : Step} {fault' : Fault}, Fails host task arguments other fault' →
    step.place ≤ other.place

/-- All that was asked for, if nothing is wrong. -/
inductive Completes (host : Host Id) : Task → List String → ByteArray → Prop
  | highlight {arguments : List String} {options : Options} {theme : Theme}
      {bytes stdout : ByteArray} (taken : Options.parse arguments = .ok options)
      (selects : Selects host options.theme theme)
      (had : options.source.content host = .ok bytes)
      (written : theme.write (Text.decodeLossy bytes) options.format (.ofRoom none) =
        .ok () ⟨stdout, none⟩) :
      Completes host .highlight arguments stdout
  | theme {arguments : List String} {path : Option String} {theme : Theme}
      (taken : parseTheme arguments = .ok path) (selects : Selects host path theme) :
      Completes host .theme arguments (theme.spec.toJson.pretty ++ "\n").toUTF8

variable {host : Host Id} {task : Task} {arguments : List String} {step step' : Step}
  {fault fault' : Fault} {path : String} {theme : Theme} {stdout : ByteArray}

/-! ## Themes -/

theorem fetchTheme_some (host : Host Id) (path : String) :
    fetchTheme host (some path) =
      match host.readFile path with
      | .ok bytes => themeOfBytes path bytes
      | .error fault => .error (.read path fault) := rfl

theorem themeOfBytes_toUTF8 (path document : String) :
    themeOfBytes path document.toUTF8 = (Theme.parse document).mapError (Fault.theme path) := by
  rw [themeOfBytes, Text.fromUTF8?_eq_some_iff.mpr rfl]
  simp only
  cases Theme.parse document <;> rfl

theorem Selects.fetchTheme_eq {path : Option String} (selects : Selects host path theme) :
    fetchTheme host path = .ok theme := by
  cases selects with
  | standard => rfl
  | document had means admitted =>
      rw [fetchTheme_some, had]
      simp only [themeOfBytes_toUTF8, Theme.parse, means, admitted]
      rfl

theorem ThemeFails.fetchTheme_eq (fails : ThemeFails host path step fault) :
    fetchTheme host (some path) = .error fault := by
  cases fails with
  | unread unread => rw [fetchTheme_some, unread]
  | @notText bytes had broken =>
      have undecoded : String.fromUTF8? bytes = none := by
        rw [Option.eq_none_iff_forall_ne_some]
        intro document decoded
        exact broken document (Text.fromUTF8?_eq_some_iff.mp decoded)
      rw [fetchTheme_some, had]
      simp only [themeOfBytes, undecoded]
  | document had invalid =>
      rw [fetchTheme_some, had]
      simp only [themeOfBytes_toUTF8, Theme.parse, invalid]
      rfl
  | groups had means refused =>
      rw [fetchTheme_some, had]
      simp only [themeOfBytes_toUTF8, Theme.parse, means, refused]
      rfl

theorem selects_or_themeFails (host : Host Id) (path : Option String) :
    (∃ theme, Selects host path theme) ∨
      ∃ named, path = some named ∧ ∃ step fault, ThemeFails host named step fault := by
  cases path with
  | none => exact .inl ⟨_, .standard⟩
  | some path =>
      cases read : host.readFile path with
      | error fault => exact .inr ⟨path, rfl, _, _, .unread read⟩
      | ok bytes =>
          by_cases text : ∃ document : String, document.toUTF8 = bytes
          · obtain ⟨document, rfl⟩ := text
            cases means : ThemeSpec.parse document with
            | error error => exact .inr ⟨path, rfl, _, _, .document read means⟩
            | ok spec =>
                cases made : Theme.ofSpec spec with
                | error fault => exact .inr ⟨path, rfl, _, _, .groups read means made⟩
                | ok theme => exact .inl ⟨theme, .document read means made⟩
          · exact .inr ⟨path, rfl, _, _, .notText read (not_exists.mp text)⟩

theorem Selects.not_themeFails (selects : Selects host (some path) theme) :
    ¬ ThemeFails host path step fault := by
  intro fails
  have other := fails.fetchTheme_eq
  rw [selects.fetchTheme_eq] at other
  contradiction

theorem ThemeFails.unique_step (fails : ThemeFails host path step fault)
    (fails' : ThemeFails host path step' fault') : step' = step := by
  have same := fails.fetchTheme_eq
  rw [fails'.fetchTheme_eq] at same
  obtain rfl := Except.error.inj same
  cases fails <;> cases fails' <;> rfl

theorem ThemeFails.place_lt (fails : ThemeFails host path step fault) :
    step.place < Step.input.place := by
  cases fails <;> decide

/-! ## What is wrong first -/

theorem Task.themePath_highlight_eq_ok_iff {path : Option String} :
    highlight.themePath arguments = .ok path ↔
      ∃ options, Options.parse arguments = .ok options ∧ options.theme = path := by
  rw [themePath]
  cases Options.parse arguments <;> simp [Except.map]

theorem Task.themePath_highlight_eq_error_iff {fault : UsageFault} :
    highlight.themePath arguments = .error fault ↔ Options.parse arguments = .error fault := by
  rw [themePath]
  cases Options.parse arguments <;> simp [Except.map]

/-- Where there is a theme, only the input can be wrong. -/
theorem Selects.input_fails {path : Option String} (selects : Selects host path theme)
    (named : task.themePath arguments = .ok path) (fails : Fails host task arguments step fault) :
    task = .highlight ∧ step = .input ∧ ∃ options unread,
      Options.parse arguments = .ok options ∧ options.source.content host = .error unread := by
  cases fails with
  | arguments wrong =>
      rw [named] at wrong
      contradiction
  | theme named' fails =>
      rw [named] at named'
      cases named'
      exact absurd fails selects.not_themeFails
  | input draws taken unread => exact ⟨draws, rfl, _, _, taken, unread⟩

theorem failsFirst_of_arguments {fault : UsageFault}
    (wrong : task.themePath arguments = .error fault) :
    FailsFirst host task arguments .arguments (.usage fault) :=
  ⟨.arguments wrong, fun _ => Nat.zero_le _⟩

theorem ThemeFails.failsFirst (fails : ThemeFails host path step fault)
    (named : task.themePath arguments = .ok (some path)) :
    FailsFirst host task arguments step fault := by
  refine ⟨.theme named fails, ?_⟩
  intro other fault' fails'
  cases fails' with
  | arguments wrong =>
      rw [named] at wrong
      contradiction
  | theme named' fails' =>
      rw [named] at named'
      cases named'
      rw [fails.unique_step fails']
  | input draws taken unread => exact Nat.le_of_lt fails.place_lt

theorem Selects.failsFirst {options : Options} {fault : ReadFault}
    (selects : Selects host options.theme theme) (taken : Options.parse arguments = .ok options)
    (unread : options.source.content host = .error fault) :
    FailsFirst host .highlight arguments .input (.read options.source.label fault) := by
  refine ⟨.input rfl taken unread, ?_⟩
  intro other fault' fails'
  have named := Task.themePath_highlight_eq_ok_iff.mpr ⟨options, taken, rfl⟩
  obtain ⟨_, rfl, _⟩ := selects.input_fails named fails'
  exact Nat.le_refl _

theorem Completes.not_fails (completes : Completes host task arguments stdout) :
    ¬ Fails host task arguments step fault := by
  intro fails
  cases completes with
  | highlight taken selects had written =>
      have named := Task.themePath_highlight_eq_ok_iff.mpr ⟨_, taken, rfl⟩
      obtain ⟨_, _, _, _, taken', unread⟩ := selects.input_fails named fails
      rw [taken] at taken'
      cases taken'
      rw [had] at unread
      contradiction
  | theme taken selects =>
      have named : Task.theme.themePath arguments = .ok _ := taken
      obtain ⟨draws, _⟩ := selects.input_fails named fails
      contradiction

theorem completes_or_failsFirst (host : Host Id) (task : Task) (arguments : List String) :
    (∃ stdout, Completes host task arguments stdout) ∨
      ∃ step fault, FailsFirst host task arguments step fault := by
  cases named : task.themePath arguments with
  | error fault => exact .inr ⟨_, _, failsFirst_of_arguments named⟩
  | ok path =>
      rcases selects_or_themeFails host path with ⟨theme, selects⟩ | ⟨_, rfl, _, _, fails⟩
      · cases task with
        | theme => exact .inl ⟨_, .theme named selects⟩
        | highlight =>
            obtain ⟨options, taken, rfl⟩ := Task.themePath_highlight_eq_ok_iff.mp named
            cases read : options.source.content host with
            | error fault => exact .inr ⟨_, _, selects.failsFirst taken read⟩
            | ok bytes =>
                obtain ⟨stdout, written⟩ :=
                  theme.exists_write_unbounded (Text.decodeLossy bytes) options.format
                exact .inl ⟨stdout, .highlight taken selects read written⟩
      · exact .inr ⟨_, _, fails.failsFirst named⟩

/-! ## What a run leaves behind -/

theorem fetchText_eq (host : Host Id) (source : Source) :
    fetchText host source =
      match source.content host with
      | .ok bytes => .ok (Text.decodeLossy bytes)
      | .error fault => .error (.read source.label fault) := by
  have same := funext Text.decode_eq_decodeLossy
  cases source <;> simp only [fetchText, same] <;> rfl

theorem run_highlight {options : Options} (taken : Options.parse arguments = .ok options) :
    run host ("highlight" :: arguments) = .ofResult (highlight host options) := by
  simp only [run, taken]
  rfl

theorem run_theme {path : Option String} (taken : parseTheme arguments = .ok path) :
    run host ("theme" :: arguments) = .ofResult (showTheme host path) := by
  simp only [run, taken]
  rfl

theorem run_of_arguments {fault : UsageFault} (wrong : task.themePath arguments = .error fault) :
    run host (task.name :: arguments) = .failure (.usage fault) task.hint := by
  cases task with
  | highlight =>
      rw [Task.themePath_highlight_eq_error_iff] at wrong
      simp only [Task.name, run, wrong]
      rfl
  | theme =>
      have untaken : parseTheme arguments = .error fault := wrong
      simp only [Task.name, run, untaken]
      rfl

theorem ThemeFails.run_eq (fails : ThemeFails host path step fault)
    (named : task.themePath arguments = .ok (some path)) :
    run host (task.name :: arguments) = .failure fault "" := by
  cases task with
  | highlight =>
      obtain ⟨options, taken, chosen⟩ := Task.themePath_highlight_eq_ok_iff.mp named
      rw [Task.name, run_highlight taken]
      simp only [highlight, chosen]
      rw [fails.fetchTheme_eq]
      rfl
  | theme =>
      rw [Task.name, run_theme named]
      simp only [showTheme]
      rw [fails.fetchTheme_eq]
      rfl

theorem Selects.run_highlight {options : Options} (selects : Selects host options.theme theme)
    (taken : Options.parse arguments = .ok options) :
    run host ("highlight" :: arguments) =
      match options.source.content host with
      | .ok bytes =>
        .ofResult (outputBytes (theme.write (Text.decodeLossy bytes) options.format))
      | .error fault => .failure (.read options.source.label fault) "" := by
  rw [Command.run_highlight taken]
  simp only [highlight]
  rw [selects.fetchTheme_eq]
  simp only [fetchText_eq]
  cases options.source.content host <;> rfl

theorem FailsFirst.run_eq (failsFirst : FailsFirst host task arguments step fault) :
    run host (task.name :: arguments) =
      .failure fault (if step = .arguments then task.hint else "") := by
  cases failsFirst.fails with
  | arguments wrong => exact run_of_arguments wrong
  | theme named fails =>
      have later : step ≠ .arguments := by
        cases fails <;> simp
      rw [fails.run_eq named, if_neg later]
  | input draws taken unread =>
      subst draws
      rcases selects_or_themeFails host _ with ⟨theme, selects⟩ | ⟨path, chosen, _, _, fails⟩
      · rw [Task.name, selects.run_highlight taken, unread]
        rfl
      · -- A theme that fails would come before the input.
        have named := Task.themePath_highlight_eq_ok_iff.mpr ⟨_, taken, chosen⟩
        exact absurd (failsFirst.first (.theme named fails)) (Nat.not_le_of_lt fails.place_lt)

theorem Completes.run_eq (completes : Completes host task arguments stdout) :
    run host (task.name :: arguments) = .success stdout := by
  cases completes with
  | highlight taken selects had written =>
      rw [Task.name, selects.run_highlight taken, had]
      simp only [outputBytes, written]
      rfl
  | theme taken selects =>
      rw [Task.name, run_theme taken]
      simp only [showTheme]
      rw [selects.fetchTheme_eq]
      simp only [outputBytes, Json.writeLine_unbounded]
      rfl

/-- Either nothing is wrong, and all that was asked for is written and nothing else.  Or something
is wrong; then nothing is written but the message of what is wrong first, with a line on how to
use the command if that is an argument. -/
theorem run_all_or_nothing (host : Host Id) (task : Task) (arguments : List String) :
    Xor
        (∃ stdout, Completes host task arguments stdout ∧
          ∀ step fault, ¬ Fails host task arguments step fault)
        (∃ step fault, FailsFirst host task arguments step fault) ∧
      (∀ stdout, run host (task.name :: arguments) = ⟨0, stdout, ""⟩ ↔
        Completes host task arguments stdout) ∧
      ∀ stderr, run host (task.name :: arguments) = ⟨1, .empty, stderr⟩ ↔
        ∃ step fault, FailsFirst host task arguments step fault ∧
          stderr = "error: " ++ fault.message ++ "\n" ++
            if step = .arguments then task.hint else "" := by
  have outcomes := completes_or_failsFirst host task arguments
  refine ⟨?_, ?_, ?_⟩
  · rcases outcomes with ⟨stdout, completes⟩ | ⟨step, fault, failsFirst⟩
    · refine .inl ⟨⟨stdout, completes, fun _ _ => completes.not_fails⟩, ?_⟩
      rintro ⟨step, fault, failsFirst⟩
      exact completes.not_fails failsFirst.fails
    · refine .inr ⟨⟨step, fault, failsFirst⟩, ?_⟩
      rintro ⟨stdout, completes, _⟩
      exact completes.not_fails failsFirst.fails
  · intro stdout
    constructor
    · intro ended
      rcases outcomes with ⟨stdout', completes⟩ | ⟨step, fault, failsFirst⟩
      · rw [completes.run_eq] at ended
        cases ended
        exact completes
      · rw [failsFirst.run_eq] at ended
        cases ended
    · intro completes
      exact completes.run_eq
  · intro stderr
    constructor
    · intro ended
      rcases outcomes with ⟨stdout, completes⟩ | ⟨step, fault, failsFirst⟩
      · rw [completes.run_eq] at ended
        cases ended
      · rw [failsFirst.run_eq] at ended
        cases ended
        exact ⟨step, fault, failsFirst, rfl⟩
    · rintro ⟨step, fault, failsFirst, rfl⟩
      exact failsFirst.run_eq

/-- Neither file can be read; the theme is looked for first. -/
example : run (m := Id) ⟨fun _ => .error .missing, .ok .empty⟩ ["highlight", "a", "--theme=b"] =
    .failure (.read "b" .missing) "" := rfl

end Highlighter.Command

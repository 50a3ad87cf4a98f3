import Mathlib.Data.List.Perm.Basic
import Highlighter.Command.Arguments
import Highlighter.Proofs.Lexicon.Admission

/-! # Which arguments ask for what

An argument names an input or a theme, asks for the JSON format, or is none of these.  It offends
by itself if it is none of them or a theme option without a path, and because of what stands before
it if it is a second input.  Arguments of which none offends and one is an input ask for one thing,
whatever their order but for that of the themes.  Otherwise the first that offends is told. -/

set_option autoImplicit false

namespace Highlighter.Command

/-- A dash alone names an input, and so does everything without a dash in front, be it empty. -/
def IsInput (argument : String) : Prop :=
  argument = "-" ∨ argument.toList.head? ≠ some '-'

instance : DecidablePred IsInput := fun _ => inferInstanceAs (Decidable (_ ∨ _))

def NamesTheme (argument : String) : Prop := ∃ path, argument = themeOption ++ path

structure IsUnknown (argument : String) : Prop where
  dashed : argument.toList.head? = some '-'
  notStdin : argument ≠ "-"
  notJson : argument ≠ "--json"
  notTheme : ¬ NamesTheme argument

/-- What is wrong with an argument that comes after those `before`. -/
inductive Offends (before : List String) (argument : String) : UsageFault → Prop
  | noThemePath (bare : argument = themeOption) : Offends before argument .noThemePath
  | unknownOption (unknown : IsUnknown argument) :
      Offends before argument (.unknownOption argument)
  | secondInput {earlier : String} (given : earlier ∈ before) (first : IsInput earlier)
      (again : IsInput argument) : Offends before argument .secondInput

/-- No argument offends after those before it. -/
def AreInoffensive (arguments : List String) : Prop :=
  ∀ before argument after fault, arguments = before ++ argument :: after →
    ¬ Offends before argument fault

/-- The path is that of the last argument that names a theme. -/
def IsLastTheme (arguments : List String) (path : String) : Prop :=
  ∃ before after, arguments = before ++ (themeOption ++ path) :: after ∧
    ∀ later ∈ after, ¬ NamesTheme later

def Source.ofArgument (argument : String) : Source :=
  if argument = "-" then .stdin else .file argument

/-- Of the arguments that offend, the first is at fault. -/
def FirstOffends (arguments : List String) (fault : UsageFault) : Prop :=
  ∃ before argument after, arguments = before ++ argument :: after ∧ AreInoffensive before ∧
    Offends before argument fault

/-- What arguments ask for, of which none offends. -/
structure AskFor (arguments : List String) (options : Options) : Prop where
  inoffensive : AreInoffensive arguments
  source : ∃ input, arguments.filter IsInput = [input] ∧ options.source = .ofArgument input
  format : options.format = .json ↔ "--json" ∈ arguments
  theme : ∀ path, options.theme = some path ↔ IsLastTheme arguments path

variable {arguments reordered taken before : List String} {argument path : String}
  {fault : UsageFault} {options options' : Options}

/-! ## Sorts of arguments -/

theorem themePath?_eq_some_iff :
    themePath? argument = some path ↔ argument = themeOption ++ path := by
  simp only [themePath?]
  constructor
  · intro found
    split at found
    · next starts =>
      obtain ⟨rest, whole⟩ := List.isPrefixOf_iff_prefix.mp starts
      rw [← whole, List.drop_left, Option.some.injEq] at found
      apply String.toList_injective
      rw [String.toList_append, ← whole, ← found, String.toList_ofList]
    · contradiction
  · rintro rfl
    have starts : themeOption.toList.isPrefixOf (themeOption ++ path).toList = true := by
      rw [List.isPrefixOf_iff_prefix, String.toList_append]
      exact List.prefix_append ..
    rw [if_pos starts, String.toList_append, List.drop_left, String.ofList_toList]

theorem themePath?_eq_none_iff : themePath? argument = none ↔ ¬ NamesTheme argument := by
  simp only [Option.eq_none_iff_forall_ne_some, ne_eq, themePath?_eq_some_iff, NamesTheme,
    not_exists]

instance : DecidablePred NamesTheme := fun argument =>
  decidable_of_iff (themePath? argument ≠ none) (by rw [ne_eq, themePath?_eq_none_iff, not_not])

theorem NamesTheme.head?_eq (names : NamesTheme argument) : argument.toList.head? = some '-' := by
  obtain ⟨path, rfl⟩ := names
  rw [String.toList_append]
  rfl

theorem NamesTheme.lt_length (names : NamesTheme argument) : 7 < argument.toList.length := by
  obtain ⟨path, rfl⟩ := names
  rw [String.toList_append, List.length_append]
  exact Nat.lt_of_lt_of_le (by decide) (Nat.le_add_right ..)

theorem IsInput.not_namesTheme (input : IsInput argument) : ¬ NamesTheme argument := by
  intro names
  rcases input with rfl | undashed
  · exact absurd names.lt_length (by decide)
  · exact undashed names.head?_eq

theorem IsInput.ne_json (input : IsInput argument) : argument ≠ "--json" := by
  rintro rfl
  exact absurd input (by decide)

theorem IsUnknown.not_isInput (unknown : IsUnknown argument) : ¬ IsInput argument := by
  rintro (stdin | undashed)
  · exact unknown.notStdin stdin
  · exact undashed unknown.dashed

theorem not_namesTheme_json : ¬ NamesTheme "--json" := by decide

/-- Every argument is of one sort. -/
theorem sort_cases (argument : String) :
    argument = "--json" ∨ NamesTheme argument ∨ IsInput argument ∨ IsUnknown argument := by
  by_cases json : argument = "--json"
  · exact .inl json
  · by_cases names : NamesTheme argument
    · exact .inr (.inl names)
    · by_cases input : IsInput argument
      · exact .inr (.inr (.inl input))
      · obtain ⟨notStdin, dashed⟩ := not_or.mp input
        exact .inr (.inr (.inr ⟨not_not.mp dashed, notStdin, json, names⟩))

/-! ## Offences by sort -/

theorem not_offends_json : ¬ Offends before "--json" fault := by
  rintro (bare | unknown | ⟨_, _, again⟩)
  · exact not_namesTheme_json ⟨"", bare⟩
  · exact unknown.notJson rfl
  · exact again.ne_json rfl

theorem offends_theme_iff :
    Offends before (themeOption ++ path) fault ↔ path = "" ∧ fault = .noThemePath := by
  have names : NamesTheme (themeOption ++ path) := ⟨path, rfl⟩
  constructor
  · rintro (bare | unknown | ⟨_, _, again⟩)
    · exact ⟨by simpa using bare, rfl⟩
    · exact absurd names unknown.notTheme
    · exact absurd names again.not_namesTheme
  · rintro ⟨rfl, rfl⟩
    exact .noThemePath rfl

theorem offends_input_iff (input : IsInput argument) :
    Offends before argument fault ↔
      (∃ earlier ∈ before, IsInput earlier) ∧ fault = .secondInput := by
  constructor
  · rintro (bare | unknown | ⟨given, first, _⟩)
    · exact absurd ⟨"", bare⟩ input.not_namesTheme
    · exact absurd input unknown.not_isInput
    · exact ⟨⟨_, given, first⟩, rfl⟩
  · rintro ⟨⟨earlier, given, first⟩, rfl⟩
    exact .secondInput given first input

theorem offends_unknown_iff (unknown : IsUnknown argument) :
    Offends before argument fault ↔ fault = .unknownOption argument := by
  constructor
  · rintro (bare | _ | ⟨_, _, again⟩)
    · exact absurd ⟨"", bare⟩ unknown.notTheme
    · rfl
    · exact absurd again unknown.not_isInput
  · rintro rfl
    exact .unknownOption unknown

/-! ## The last theme -/

theorem isLastTheme_iff : IsLastTheme arguments path ↔
    (arguments.filter NamesTheme).getLast? = some (themeOption ++ path) := by
  have names : NamesTheme (themeOption ++ path) := ⟨path, rfl⟩
  constructor
  · rintro ⟨before, after, rfl, others⟩
    have none : after.filter NamesTheme = [] := by simpa using others
    simp [List.filter_append, names, none]
  · intro last
    obtain ⟨themes, split⟩ := List.getLast?_eq_some_iff.mp last
    obtain ⟨front, rest, rfl, _, late⟩ := List.filter_eq_append_iff.mp split
    obtain ⟨between, after, rfl, _, _, none⟩ := List.filter_eq_cons_iff.mp late
    exact ⟨front ++ between, after, by simp, by simpa using none⟩

theorem isLastTheme_concat_of_not (other : ¬ NamesTheme argument) :
    IsLastTheme (taken ++ [argument]) path ↔ IsLastTheme taken path := by
  simp [isLastTheme_iff, other]

theorem isLastTheme_concat {later : String} :
    IsLastTheme (taken ++ [themeOption ++ later]) path ↔ later = path := by
  have names : NamesTheme (themeOption ++ later) := ⟨later, rfl⟩
  simp [isLastTheme_iff, names]

/-! ## One argument after the other -/

namespace Options.Draft

variable {draft next : Draft}

theorem take_json (draft : Draft) : draft.take "--json" = .ok { draft with format := .json } :=
  rfl

theorem take_theme (draft : Draft) (path : String) :
    draft.take (themeOption ++ path) =
      if path = "" then .error .noThemePath else .ok { draft with theme := some path } := by
  have notJson : themeOption ++ path ≠ "--json" := by
    intro same
    exact not_namesTheme_json ⟨path, same.symm⟩
  rw [take, if_neg notJson, themePath?_eq_some_iff.mpr rfl]
  by_cases empty : path = ""
  · simp [checkThemePath, empty, Except.map]
  · simp [checkThemePath, empty, Except.map]

theorem take_input (draft : Draft) (input : IsInput argument) :
    draft.take argument = draft.setSource (.ofArgument argument) := by
  rw [take, if_neg input.ne_json, themePath?_eq_none_iff.mpr input.not_namesTheme,
    Source.ofArgument]
  by_cases stdin : argument = "-"
  · simp only [if_pos stdin]
  · simp only [if_neg stdin, if_neg (input.resolve_left stdin)]

theorem take_unknown (draft : Draft) (unknown : IsUnknown argument) :
    draft.take argument = .error (.unknownOption argument) := by
  rw [take, if_neg unknown.notJson, themePath?_eq_none_iff.mpr unknown.notTheme]
  simp only [if_neg unknown.notStdin, if_pos unknown.dashed]

/-- What is kept of the arguments taken so far. -/
structure Keeps (draft : Draft) (taken : List String) : Prop where
  sources : (taken.filter IsInput).map Source.ofArgument = draft.source.toList
  format : draft.format = .json ↔ "--json" ∈ taken
  theme : ∀ path, draft.theme = some path ↔ IsLastTheme taken path

theorem keeps_start : start.Keeps [] := by
  refine ⟨rfl, by simp [start], ?_⟩
  intro path
  simp [start, isLastTheme_iff]

theorem setSource_eq_error_iff {source : Source} :
    draft.setSource source = .error fault ↔ draft.source ≠ none ∧ fault = .secondInput := by
  rw [setSource]
  cases draft.source <;> simp [eq_comm]

theorem setSource_eq_ok_iff {source : Source} :
    draft.setSource source = .ok next ↔
      draft.source = none ∧ next = { draft with source := some source } := by
  rw [setSource]
  cases draft.source <;> simp [eq_comm]

theorem Keeps.source_eq_none_iff (keeps : draft.Keeps taken) :
    draft.source = none ↔ ∀ earlier ∈ taken, ¬ IsInput earlier := by
  rw [← Option.toList_eq_nil_iff, ← keeps.sources, List.map_eq_nil_iff, List.filter_eq_nil_iff]
  simp

/-- An argument is refused exactly for what is wrong with it after those before. -/
theorem Keeps.take_eq_error_iff (keeps : draft.Keeps taken) :
    draft.take argument = .error fault ↔ Offends taken argument fault := by
  rcases sort_cases argument with rfl | ⟨path, rfl⟩ | input | unknown
  · rw [take_json]
    simp [not_offends_json]
  · rw [take_theme, offends_theme_iff]
    split <;> simp_all [eq_comm]
  · rw [take_input draft input, offends_input_iff input, setSource_eq_error_iff, ne_eq,
      keeps.source_eq_none_iff]
    simp only [not_forall, not_not, exists_prop]
  · rw [take_unknown draft unknown, offends_unknown_iff unknown, Except.error.injEq, eq_comm]

theorem Keeps.of_take (keeps : draft.Keeps taken) (took : draft.take argument = .ok next) :
    next.Keeps (taken ++ [argument]) := by
  rcases sort_cases argument with rfl | ⟨path, rfl⟩ | input | unknown
  · obtain rfl := Except.ok.inj took
    have notInput : ¬ IsInput "--json" := by decide
    refine ⟨?_, by simp, ?_⟩
    · simpa [notInput] using keeps.sources
    · intro path
      rw [isLastTheme_concat_of_not not_namesTheme_json]
      exact keeps.theme path
  · have names : NamesTheme (themeOption ++ path) := ⟨path, rfl⟩
    have notInput : ¬ IsInput (themeOption ++ path) := fun input => input.not_namesTheme names
    have notJson : "--json" ≠ themeOption ++ path := by
      intro same
      exact not_namesTheme_json ⟨path, same⟩
    rw [take_theme] at took
    split at took
    · contradiction
    · obtain rfl := Except.ok.inj took
      refine ⟨?_, ?_, ?_⟩
      · simpa [notInput] using keeps.sources
      · simpa [notJson] using keeps.format
      · intro other
        rw [isLastTheme_concat, Option.some.injEq]
  · rw [take_input draft input, setSource_eq_ok_iff] at took
    obtain ⟨unset, rfl⟩ := took
    have sources := keeps.sources
    rw [unset, Option.toList_none, List.map_eq_nil_iff] at sources
    refine ⟨?_, ?_, ?_⟩
    · simp [List.filter_append, sources, input]
    · simpa [input.ne_json.symm] using keeps.format
    · intro path
      rw [isLastTheme_concat_of_not input.not_namesTheme]
      exact keeps.theme path
  · rw [take_unknown draft unknown] at took
    contradiction

theorem keeps_foldlM : ∀ {draft : Draft}, arguments.foldlM take start = .ok draft →
    draft.Keeps arguments := by
  induction arguments using List.reverseRecOn with
  | nil =>
      intro draft read
      obtain rfl := Except.ok.inj read
      exact keeps_start
  | append_singleton before argument ih =>
      intro draft read
      rw [List.foldlM_append] at read
      cases early : before.foldlM take start with
      | error fault =>
          rw [early] at read
          contradiction
      | ok earlier =>
          rw [early] at read
          change [argument].foldlM take earlier = .ok draft at read
          exact (ih early).of_take (by simpa using read)

theorem foldlM_eq_error_iff_offends : arguments.foldlM take start = .error fault ↔
    ∃ before argument after, arguments = before ++ argument :: after ∧
      (∃ draft, before.foldlM take start = .ok draft) ∧ Offends before argument fault := by
  rw [foldlM_eq_error_iff]
  constructor
  · rintro ⟨before, argument, after, draft, split, read, refused⟩
    exact ⟨before, argument, after, split, ⟨draft, read⟩,
      (keeps_foldlM read).take_eq_error_iff.mp refused⟩
  · rintro ⟨before, argument, after, split, ⟨draft, read⟩, offends⟩
    exact ⟨before, argument, after, draft, split, read,
      (keeps_foldlM read).take_eq_error_iff.mpr offends⟩

/-- The arguments can be taken one after the other exactly if none of them offends. -/
theorem exists_foldlM_eq_ok_iff :
    (∃ draft, arguments.foldlM take start = .ok draft) ↔ AreInoffensive arguments := by
  constructor
  · rintro ⟨draft, read⟩ before argument after fault rfl offends
    cases early : before.foldlM take start with
    | ok earlier =>
        have refused := foldlM_eq_error_iff_offends.mpr
          ⟨before, argument, after, rfl, ⟨earlier, early⟩, offends⟩
        rw [read] at refused
        contradiction
    | error fault' =>
        rw [List.foldlM_append, early] at read
        contradiction
  · intro inoffensive
    cases read : arguments.foldlM take start with
    | ok draft => exact ⟨draft, rfl⟩
    | error fault =>
        obtain ⟨before, argument, after, split, _, offends⟩ := foldlM_eq_error_iff_offends.mp read
        exact absurd offends (inoffensive before argument after fault split)

theorem foldlM_eq_error_iff_firstOffends :
    arguments.foldlM take start = .error fault ↔ FirstOffends arguments fault := by
  simp only [foldlM_eq_error_iff_offends, exists_foldlM_eq_ok_iff, FirstOffends]

theorem finish_eq_ok_iff :
    draft.finish = .ok options ↔
      draft.source = some options.source ∧ draft.format = options.format ∧
        draft.theme = options.theme := by
  rw [finish]
  cases draft.source with
  | none => simp
  | some source =>
      rw [Except.ok.injEq, Option.some.injEq, Options.mk.injEq]

theorem finish_eq_error_iff :
    draft.finish = .error fault ↔ draft.source = none ∧ fault = .noInput := by
  rw [finish]
  cases draft.source <;> simp [eq_comm]

theorem Keeps.askFor (keeps : draft.Keeps arguments) (inoffensive : AreInoffensive arguments)
    (finished : draft.finish = .ok options) : AskFor arguments options := by
  obtain ⟨source, format, theme⟩ := finish_eq_ok_iff.mp finished
  have sources := keeps.sources
  rw [source, Option.toList_some, List.map_eq_singleton_iff] at sources
  obtain ⟨input, only, named⟩ := sources
  refine ⟨inoffensive, ⟨input, only, named.symm⟩, ?_, ?_⟩
  · rw [← format]
    exact keeps.format
  · rw [← theme]
    exact keeps.theme

end Options.Draft

/-! ## What is asked for -/

open Options.Draft

theorem parse_eq (arguments : List String) :
    Options.parse arguments = arguments.foldlM take start >>= Options.Draft.finish := rfl

theorem Format.eq_of_json_iff {format format' : Format}
    (same : format = .json ↔ format' = .json) : format = format' := by
  cases format <;> cases format' <;> simp_all

theorem AskFor.unique (asks : AskFor arguments options) (asks' : AskFor arguments options') :
    options = options' := by
  obtain ⟨input, only, source⟩ := asks.source
  obtain ⟨input', only', source'⟩ := asks'.source
  obtain rfl : input = input' := by simpa [only] using only'
  have format := Format.eq_of_json_iff (asks.format.trans asks'.format.symm)
  have theme : options.theme = options'.theme := by
    ext path
    exact (asks.theme path).trans (asks'.theme path).symm
  obtain ⟨_, _, _⟩ := options
  obtain ⟨_, _, _⟩ := options'
  rw [Options.mk.injEq]
  exact ⟨source.trans source'.symm, format, theme⟩

theorem parse_eq_ok_iff : Options.parse arguments = .ok options ↔ AskFor arguments options := by
  rw [parse_eq]
  constructor
  · intro parsed
    cases read : arguments.foldlM take start with
    | error fault =>
        rw [read] at parsed
        contradiction
    | ok draft =>
        rw [read] at parsed
        exact (keeps_foldlM read).askFor (exists_foldlM_eq_ok_iff.mp ⟨draft, read⟩) parsed
  · intro asks
    obtain ⟨draft, read⟩ := exists_foldlM_eq_ok_iff.mpr asks.inoffensive
    have keeps := keeps_foldlM read
    rw [read]
    change draft.finish = .ok options
    cases finished : draft.finish with
    | ok options' => rw [(keeps.askFor asks.inoffensive finished).unique asks]
    | error fault =>
        obtain ⟨unset, _⟩ := finish_eq_error_iff.mp finished
        obtain ⟨input, only, _⟩ := asks.source
        have sources := keeps.sources
        rw [only, unset] at sources
        contradiction

theorem parse_eq_error_iff :
    Options.parse arguments = .error fault ↔ FirstOffends arguments fault ∨
      AreInoffensive arguments ∧ (∀ argument ∈ arguments, ¬ IsInput argument) ∧
        fault = .noInput := by
  rw [parse_eq, ← foldlM_eq_error_iff_firstOffends, ← exists_foldlM_eq_ok_iff]
  cases read : arguments.foldlM take start with
  | error stopped =>
      change Except.error stopped = Except.error fault ↔ _
      simp
  | ok draft =>
      change draft.finish = .error fault ↔ _
      rw [finish_eq_error_iff, (keeps_foldlM read).source_eq_none_iff]
      simp

theorem exists_parse_eq_ok_iff :
    (∃ options, Options.parse arguments = .ok options) ↔
      AreInoffensive arguments ∧ ∃ input, arguments.filter IsInput = [input] := by
  constructor
  · rintro ⟨options, parsed⟩
    have asks := parse_eq_ok_iff.mp parsed
    obtain ⟨input, only, _⟩ := asks.source
    exact ⟨asks.inoffensive, input, only⟩
  · rintro ⟨inoffensive, input, only⟩
    cases parsed : Options.parse arguments with
    | ok options => exact ⟨options, rfl⟩
    | error fault =>
        rcases parse_eq_error_iff.mp parsed with first | ⟨_, none, _⟩
        · obtain ⟨before, argument, after, split, _, offends⟩ := first
          exact absurd offends (inoffensive before argument after fault split)
        · have member : input ∈ arguments.filter IsInput := by simp [only]
          obtain ⟨given, named⟩ := List.mem_filter.mp member
          exact absurd (of_decide_eq_true named) (none input given)

/-! ## Other orders -/

theorem Offends.of_nil (offends : Offends [] argument fault) (before : List String) :
    Offends before argument fault := by
  cases offends with
  | noThemePath bare => exact .noThemePath bare
  | unknownOption unknown => exact .unknownOption unknown
  | secondInput given => simp at given

theorem AreInoffensive.not_offends_nil (inoffensive : AreInoffensive arguments)
    (member : argument ∈ arguments) : ¬ Offends [] argument fault := by
  obtain ⟨before, after, split⟩ := List.append_of_mem member
  intro offends
  exact inoffensive before argument after fault split (offends.of_nil before)

/-- In an argument list with one input, only what is wrong by itself can be wrong. -/
theorem areInoffensive_of_single {input : String} (single : arguments.filter IsInput = [input])
    (alone : ∀ argument ∈ arguments, ∀ fault, ¬ Offends [] argument fault) :
    AreInoffensive arguments := by
  rintro before argument after fault rfl offends
  have member : argument ∈ before ++ argument :: after := by simp
  cases offends with
  | noThemePath bare => exact alone argument member _ (.noThemePath bare)
  | unknownOption unknown => exact alone argument member _ (.unknownOption unknown)
  | @secondInput earlier given first again =>
      have early : earlier ∈ before.filter IsInput := by simp [given, first]
      have count := congrArg List.length single
      rw [List.filter_append, List.filter_cons_of_pos (by simpa using again), List.length_append,
        List.length_cons, List.length_singleton] at count
      have some := List.length_pos_of_mem early
      omega

theorem AskFor.of_perm (asks : AskFor arguments options) (perm : reordered.Perm arguments)
    (themes : reordered.filter NamesTheme = arguments.filter NamesTheme) :
    AskFor reordered options := by
  obtain ⟨input, only, source⟩ := asks.source
  have single : reordered.filter IsInput = [input] := by
    have inputs := perm.filter (fun argument => decide (IsInput argument))
    rw [only] at inputs
    exact List.perm_singleton.mp inputs
  refine ⟨areInoffensive_of_single single ?_, ⟨input, single, source⟩, ?_, ?_⟩
  · intro argument member fault
    exact asks.inoffensive.not_offends_nil (perm.mem_iff.mp member)
  · rw [perm.mem_iff]
    exact asks.format
  · intro path
    rw [isLastTheme_iff, themes, ← isLastTheme_iff]
    exact asks.theme path

/-- Arguments are understood exactly if none offends and one is an input.  They then ask for one
thing, and so do the same arguments in any other order that keeps the themes in theirs.  If they
are not understood, the first that offends is told, or else that there is no input. -/
theorem parse_cases (arguments : List String) :
    (∀ options, Options.parse arguments = .ok options ↔ AskFor arguments options) ∧
      ((∃ options, Options.parse arguments = .ok options) ↔
        AreInoffensive arguments ∧ ∃ input, arguments.filter IsInput = [input]) ∧
      (∀ reordered options, reordered.Perm arguments →
        reordered.filter NamesTheme = arguments.filter NamesTheme →
          (Options.parse reordered = .ok options ↔ Options.parse arguments = .ok options)) ∧
      ∀ fault, Options.parse arguments = .error fault ↔
        FirstOffends arguments fault ∨
          AreInoffensive arguments ∧ (∀ argument ∈ arguments, ¬ IsInput argument) ∧
            fault = .noInput := by
  refine ⟨fun options => parse_eq_ok_iff, exists_parse_eq_ok_iff, ?_,
    fun fault => parse_eq_error_iff⟩
  intro reordered options perm themes
  rw [parse_eq_ok_iff, parse_eq_ok_iff]
  constructor
  · intro asks
    exact asks.of_perm perm.symm themes.symm
  · intro asks
    exact asks.of_perm perm themes

/-- The second input comes before the unknown option. -/
example : Options.parse ["", "--json", "--theme=a", "-", "--color"] = .error .secondInput := by
  decide

end Highlighter.Command

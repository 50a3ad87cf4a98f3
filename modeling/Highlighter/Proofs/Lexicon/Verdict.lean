import Highlighter.Proofs.Lexicon.Contents

/-! # What a draft answers

The answer to a call for one more group, told by the groups that are there: a name that is taken
comes first, then the limit, then the first word in the list that the group cannot have.  A call
that is refused leaves the draft as it was. -/

set_option autoImplicit false

namespace Highlighter

open Alphabet

def IsUnmatchable (word : String) : Prop :=
  word = "" ∨ ∃ c ∈ word.toList, isSeparator c = true ∨ isQuote c = true

theorem isMatchable_eq_false_iff {word : String} :
    isMatchable word = false ↔ IsUnmatchable word := by
  simp only [isMatchable, IsUnmatchable, Bool.and_eq_false_iff, Bool.not_eq_false',
    String.isEmpty_iff, List.any_eq_true, Bool.or_eq_true]

theorem isMatchable_eq_true_iff {word : String} :
    isMatchable word = true ↔ ¬ IsUnmatchable word := by
  rw [← isMatchable_eq_false_iff, Bool.not_eq_false]

namespace Lexicon

/-- A new group may list `word` after the words `earlier`. -/
structure IsFresh (lexicon : Lexicon) (earlier : List String) (word : String) : Prop where
  matchable : ¬ IsUnmatchable word
  unlisted : ∀ group, word ∉ lexicon.words group
  unrepeated : word ∉ earlier

def Admits (lexicon : Lexicon) (words : List String) : Prop :=
  ∀ before word after, words = before ++ word :: after → lexicon.IsFresh before word

/-- Why the group `name` cannot list `word` after the words `earlier`. -/
inductive Blames (lexicon : Lexicon) (name : String) (earlier : List String) (word : String) :
    GroupFault → Prop where
  | unmatchable (never : IsUnmatchable word) : Blames lexicon name earlier word
      (.unmatchable word name)
  | listed {group : GroupId} {first : String} (matchable : ¬ IsUnmatchable word)
      (only : ∀ other, word ∈ lexicon.words other ↔ other = group)
      (named : lexicon.name? group = some first) : Blames lexicon name earlier word
      (.wordTaken word first name)
  | repeated (matchable : ¬ IsUnmatchable word) (unlisted : ∀ group, word ∉ lexicon.words group)
      (again : word ∈ earlier) : Blames lexicon name earlier word (.wordTaken word name name)

variable {lexicon : Lexicon} {name word : String} {words earlier : List String}

theorem index_eq_none_iff (indexed : lexicon.IsIndexed) :
    lexicon.index[word]? = none ↔ ∀ group, word ∉ lexicon.words group := by
  simp only [← indexed word]
  cases lexicon.index[word]? <;> simp

theorem exists_blames (indexed : lexicon.IsIndexed) (name : String)
    (stale : ¬ lexicon.IsFresh earlier word) : ∃ fault, lexicon.Blames name earlier word fault := by
  by_cases never : IsUnmatchable word
  · exact ⟨_, .unmatchable never⟩
  · cases found : lexicon.index[word]? with
    | some group =>
        have only : ∀ other, word ∈ lexicon.words other ↔ other = group := by
          intro other
          rw [← indexed word other, found, Option.some.injEq, eq_comm]
        obtain ⟨first, named⟩ := exists_name_of_mem_words ((only group).mpr rfl)
        exact ⟨_, .listed never only named⟩
    | none =>
        have unlisted := (index_eq_none_iff indexed).mp found
        by_cases again : word ∈ earlier
        · exact ⟨_, .repeated never unlisted again⟩
        · exact absurd ⟨never, unlisted, again⟩ stale

/-! ## Lists of words -/

theorem admits_append_singleton :
    lexicon.Admits (words ++ [word]) ↔ lexicon.Admits words ∧ lexicon.IsFresh words word := by
  constructor
  · intro admits
    refine ⟨?_, admits words word [] rfl⟩
    rintro before other after rfl
    exact admits before other (after ++ [word]) (by simp)
  · rintro ⟨admits, fresh⟩ before other after split
    rcases List.eq_nil_or_concat after with rfl | ⟨others, last, rfl⟩
    · obtain ⟨rfl, same⟩ := List.append_inj' split rfl
      obtain rfl : word = other := by simpa using same
      exact fresh
    · rw [List.concat_eq_append, ← List.cons_append, ← List.append_assoc] at split
      exact admits before other others (List.append_inj' split rfl).1

theorem admits_iff : lexicon.Admits words ↔
    words.Nodup ∧ ∀ word ∈ words, ¬ IsUnmatchable word ∧ ∀ group, word ∉ lexicon.words group := by
  induction words using List.reverseRecOn with
  | nil => simp [Admits]
  | append_singleton before word ih =>
      rw [admits_append_singleton, ih, List.nodup_append, List.forall_mem_append]
      constructor
      · rintro ⟨⟨distinct, known⟩, fresh⟩
        refine ⟨⟨distinct, by simp, ?_⟩, known, by simpa using ⟨fresh.matchable, fresh.unlisted⟩⟩
        rintro other early last late rfl
        obtain rfl : other = word := by simpa using late
        exact fresh.unrepeated early
      · rintro ⟨⟨distinct, _, apart⟩, known, latest⟩
        obtain ⟨matchable, unlisted⟩ := latest word (List.mem_singleton_self word)
        exact ⟨⟨distinct, known⟩, matchable, unlisted,
          fun early => apart word early word (List.mem_singleton_self word) rfl⟩

/-- A list that is not admitted has a first word that is to blame. -/
theorem exists_first_stale (refused : ¬ lexicon.Admits words) :
    ∃ before word after, words = before ++ word :: after ∧ lexicon.Admits before ∧
      ¬ lexicon.IsFresh before word := by
  induction words using List.reverseRecOn with
  | nil => exact absurd (by simp [Admits]) refused
  | append_singleton before last ih =>
      by_cases admits : lexicon.Admits before
      · refine ⟨before, last, [], rfl, admits, ?_⟩
        intro fresh
        exact refused (admits_append_singleton.mpr ⟨admits, fresh⟩)
      · obtain ⟨front, word, after, rfl, early, stale⟩ := ih admits
        exact ⟨front, word, after ++ [last], by simp, early, stale⟩

end Lexicon

namespace LexiconDraft

variable {draft : LexiconDraft} {lexicon : Lexicon} {name word : String}
  {words before earlier : List String} {fault : GroupFault}

theorem wordFault?_eq_none_iff (indexed : lexicon.IsIndexed) :
    wordFault? lexicon name ∅ words = none ↔ lexicon.Admits words := by
  rw [Lexicon.admits_iff]
  simp only [← isMatchable_eq_true_iff, ← Lexicon.index_eq_none_iff indexed]
  constructor
  · intro faultless
    obtain ⟨distinct, known⟩ := wordFault?_eq_none indexed faultless
    exact ⟨distinct, fun word member => ⟨(known word member).1, (known word member).2.1⟩⟩
  · rintro ⟨distinct, known⟩
    exact wordFault?_eq_none_of_fresh (fun word member => (known word member).1)
      (fun word member => (known word member).2) distinct (by simp)

theorem wordFault?_append (rest : List String) : ∀ {seen : Std.HashSet String},
    wordFault? lexicon name seen before = none →
      wordFault? lexicon name seen (before ++ rest) =
        wordFault? lexicon name (seen.insertMany before) rest := by
  induction before with
  | nil =>
      intro seen _
      simp
  | cons first others ih =>
      intro seen faultless
      rw [wordFault?] at faultless
      rw [List.cons_append, wordFault?, Std.HashSet.insertMany_cons]
      by_cases matchable : isMatchable first = true
      · rw [if_pos matchable] at faultless ⊢
        cases free : owner? lexicon name seen first with
        | some owner => simp [free] at faultless
        | none =>
            rw [free] at faultless
            exact ih faultless
      · simp [matchable] at faultless

theorem wordFault?_of_blames (indexed : lexicon.IsIndexed) {seen : Std.HashSet String}
    (recalled : ∀ word, seen.contains word = true ↔ word ∈ earlier)
    (blamed : lexicon.Blames name earlier word fault) (rest : List String) :
    wordFault? lexicon name seen (word :: rest) = some fault := by
  rw [wordFault?]
  cases blamed with
  | unmatchable never =>
      rw [isMatchable_eq_false_iff.mpr never]
      rfl
  | @listed group first matchable only named =>
      have found : lexicon.index[word]? = some group :=
        (indexed word group).mpr ((only group).mpr rfl)
      have owned : owner? lexicon name seen word = some first := by
        rw [owner?, found]
        exact named
      rw [if_pos (isMatchable_eq_true_iff.mpr matchable), owned]
  | repeated matchable unlisted again =>
      have owned : owner? lexicon name seen word = some name := by
        rw [owner?, (Lexicon.index_eq_none_iff indexed).mpr unlisted]
        exact if_pos ((recalled word).mpr again)
      rw [if_pos (isMatchable_eq_true_iff.mpr matchable), owned]

theorem wordFault?_of_first (indexed : lexicon.IsIndexed) (admits : lexicon.Admits before)
    (blamed : lexicon.Blames name before word fault) (after : List String) :
    wordFault? lexicon name ∅ (before ++ word :: after) = some fault := by
  rw [wordFault?_append _ ((wordFault?_eq_none_iff indexed).mpr admits)]
  apply wordFault?_of_blames indexed ?_ blamed
  simp

/-! ## Verdicts -/

/-- What a call for the group `name` with the list `words` has to give. -/
inductive Verdict (draft : LexiconDraft) (name : String) (words : List String) :
    EStateM.Result GroupFault LexiconDraft GroupId → Prop where
  | nameTaken {group : GroupId} (named : draft.lexicon.name? group = some name) :
      Verdict draft name words (.error (.nameTaken name) draft)
  | tooMany (unnamed : ∀ group, draft.lexicon.name? group ≠ some name)
      (full : draft.lexicon.groupCount = groupLimit) :
      Verdict draft name words (.error .tooMany draft)
  | blamed {before after : List String} {word : String} {fault : GroupFault}
      (unnamed : ∀ group, draft.lexicon.name? group ≠ some name)
      (room : draft.lexicon.groupCount < groupLimit) (split : words = before ++ word :: after)
      (admits : draft.lexicon.Admits before)
      (blames : draft.lexicon.Blames name before word fault) :
      Verdict draft name words (.error fault draft)
  | accepted {group : GroupId} (unnamed : ∀ group, draft.lexicon.name? group ≠ some name)
      (number : group.val = draft.lexicon.groupCount) (admits : draft.lexicon.Admits words) :
      Verdict draft name words
        (.ok group ⟨draft.lexicon.append name words, draft.names.insert name⟩)

theorem IsKept.contains_eq_false_iff (kept : draft.IsKept) :
    draft.names.contains name = false ↔ ∀ group, draft.lexicon.name? group ≠ some name := by
  rw [← Bool.not_eq_true, kept.names, Lexicon.mem_names_iff kept.fits, not_exists]

theorem IsKept.exists_verdict (kept : draft.IsKept) (name : String) (words : List String) :
    ∃ result, draft.Verdict name words result := by
  by_cases named : ∃ group, draft.lexicon.name? group = some name
  · obtain ⟨group, named⟩ := named
    exact ⟨_, .nameTaken named⟩
  · have unnamed := not_exists.mp named
    rcases Nat.lt_or_eq_of_le kept.fits with room | full
    · by_cases admits : draft.lexicon.Admits words
      · exact ⟨_, .accepted unnamed (show (⟨_, room⟩ : GroupId).val = _ from rfl) admits⟩
      · obtain ⟨before, word, after, split, early, stale⟩ := Lexicon.exists_first_stale admits
        obtain ⟨fault, blames⟩ := Lexicon.exists_blames kept.sound.indexed name stale
        exact ⟨_, .blamed unnamed room split early blames⟩
    · exact ⟨_, .tooMany unnamed full⟩

theorem IsKept.addGroup_of_verdict (kept : draft.IsKept)
    {result : EStateM.Result GroupFault LexiconDraft GroupId}
    (verdict : draft.Verdict name words result) : addGroup name words draft = result := by
  have indexed := kept.sound.indexed
  rw [addGroup]
  cases verdict with
  | @nameTaken group named =>
      have taken : draft.names.contains name = true :=
        (kept.names name).mpr ((Lexicon.mem_names_iff kept.fits).mpr ⟨group, named⟩)
      rw [if_pos taken]
  | tooMany unnamed full =>
      have none : GroupId.ofIndex? draft.lexicon.groupCount = none :=
        dif_neg (Nat.not_lt.mpr (Nat.le_of_eq full.symm))
      simp [kept.contains_eq_false_iff.mpr unnamed, none]
  | @blamed before after word fault unnamed room split admits blames =>
      have found := wordFault?_of_first indexed admits blames after
      rw [← split] at found
      simp [kept.contains_eq_false_iff.mpr unnamed, GroupId.ofIndex?_eq_some room, found]
  | @accepted group unnamed number admits =>
      have room : draft.lexicon.groupCount < groupLimit := number ▸ group.isLt
      have same : (⟨draft.lexicon.groupCount, room⟩ : GroupId) = group := Fin.ext number.symm
      have faultless : wordFault? draft.lexicon name ∅ words = none :=
        (wordFault?_eq_none_iff indexed).mpr admits
      simp [kept.contains_eq_false_iff.mpr unnamed, GroupId.ofIndex?_eq_some room, faultless, same]

theorem IsKept.verdict_iff (kept : draft.IsKept)
    {result : EStateM.Result GroupFault LexiconDraft GroupId} :
    draft.Verdict name words result ↔ addGroup name words draft = result := by
  constructor
  · exact kept.addGroup_of_verdict
  · rintro rfl
    obtain ⟨result, verdict⟩ := kept.exists_verdict name words
    rw [kept.addGroup_of_verdict verdict]
    exact verdict

/-- An accepted group changes what its words are, and nothing else. -/
theorem IsKept.category_of_addGroup {group : GroupId} {next : LexiconDraft} (kept : draft.IsKept)
    (added : addGroup name words draft = .ok group next) :
    (∀ word ∈ words, next.lexicon.category word = .keyword group) ∧
      ∀ word, next.lexicon.category word ≠ draft.lexicon.category word ↔ word ∈ words := by
  obtain ⟨_, number, faultless, rfl⟩ := addGroup_ok added
  obtain ⟨_, free⟩ := wordFault?_eq_none kept.sound.indexed faultless
  have inside : ∀ word ∈ words,
      (draft.lexicon.append name words).category word = .keyword group := by
    intro word member
    rw [Lexicon.category, Lexicon.index_append number, if_pos member]
  refine ⟨inside, ?_⟩
  intro word
  by_cases member : word ∈ words
  · have before : draft.lexicon.category word = .plain := by
      rw [Lexicon.category, (free word member).2.1]
    simp [member, inside word member, before]
  · have same : (draft.lexicon.append name words).category word =
        draft.lexicon.category word := by
      rw [Lexicon.category, Lexicon.index_append number, if_neg member, Lexicon.category]
    simp [member, same]

/-- After any calls the answer to one more is its verdict.  A refused call is as if it had not been
made, and an accepted one changes the category of its words alone. -/
theorem addGroup_eq_iff_verdict (calls : List (String × List String)) (name : String)
    (words : List String) :
    (∀ result, (empty.afterGroups calls).Verdict name words result ↔
        addGroup name words (empty.afterGroups calls) = result) ∧
      (∀ fault next, addGroup name words (empty.afterGroups calls) = .error fault next →
        next = empty.afterGroups calls ∧
          ∀ later, empty.afterGroups (calls ++ (name, words) :: later) =
            empty.afterGroups (calls ++ later)) ∧
      ∀ group next, addGroup name words (empty.afterGroups calls) = .ok group next →
        (∀ word ∈ words, next.lexicon.category word = .keyword group) ∧
          ∀ word, next.lexicon.category word ≠ (empty.afterGroups calls).lexicon.category word ↔
            word ∈ words := by
  have kept := isKept_afterGroups calls
  refine ⟨fun result => kept.verdict_iff, ?_, fun group next => kept.category_of_addGroup⟩
  intro fault next refused
  have same := addGroup_error refused
  refine ⟨same, ?_⟩
  intro later
  have left : (empty.afterGroups calls).afterGroup (name, words) = empty.afterGroups calls := by
    rw [afterGroup, refused, same]
  rw [afterGroups_append, afterGroups_append, afterGroups_cons, left]

example : (empty.afterGroups [("a", ["x"])]).take ⟨"b", ["y", "x", "y", ""]⟩ =
    .error (.wordTaken "x" "a" "b") := by cbv

end LexiconDraft

end Highlighter

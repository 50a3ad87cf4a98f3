import Highlighter.Lexicon.Draft
import Highlighter.Proofs.Token.Cut

/-! # Lexicons that drafts lead to

Whatever groups a draft is given, and whichever of them it refuses, the index of its lexicon finds
a word exactly where a group lists it, and each word that is listed is one that a text can show. -/

set_option autoImplicit false

namespace Highlighter

open Alphabet

theorem isMatchable_iff {word : String} :
    isMatchable word = true ↔ Piece.IsWord ⟨.plain, word.toList⟩ := by
  have nonempty : word.isEmpty = false ↔ word.toList ≠ [] := by
    rw [ne_eq, String.toList_eq_nil_iff, ← String.isEmpty_iff, Bool.not_eq_true]
  simp [isMatchable, Piece.IsWord, nonempty, isWordChar_iff]

theorem GroupId.val_of_ofIndex? {index : Nat} {group : GroupId}
    (found : GroupId.ofIndex? index = some group) : group.val = index := by
  rw [GroupId.ofIndex?] at found
  split at found
  · rw [← Option.some.inj found]
  · contradiction

namespace Lexicon

variable {lexicon : Lexicon} {name word : String} {words : List String} {group other : GroupId}

/-- The index finds a word exactly where a group lists it. -/
def IsIndexed (lexicon : Lexicon) : Prop :=
  ∀ word group, lexicon.index[word]? = some group ↔ word ∈ lexicon.words group

structure IsSound (lexicon : Lexicon) : Prop where
  indexed : lexicon.IsIndexed
  matchable : ∀ group, ∀ word ∈ lexicon.words group, isMatchable word = true

theorem category_eq_keyword (indexed : lexicon.IsIndexed) :
    lexicon.category word = .keyword group ↔ word ∈ lexicon.words group := by
  rw [← indexed word group, category]
  cases lexicon.index[word]? <;> simp

theorem exists_name_of_mem_words (listed : word ∈ lexicon.words group) :
    ∃ name, lexicon.name? group = some name := by
  rw [words] at listed
  cases found : lexicon.group? group with
  | none => simp [found] at listed
  | some entry => exact ⟨entry.name, by rw [name?, found]; rfl⟩

theorem getElem?_foldl_insert (word : String) (group : GroupId) (words : List String) :
    ∀ index : Std.HashMap String GroupId,
      (words.foldl (fun index word => index.insert word group) index)[word]? =
        if word ∈ words then some group else index[word]? := by
  induction words with
  | nil =>
      intro index
      simp
  | cons first rest ih =>
      intro index
      rw [List.foldl_cons, ih, Std.HashMap.getElem?_insert]
      by_cases later : word ∈ rest
      · simp [later]
      · by_cases same : first = word
        · simp [same]
        · simp [later, same, Ne.symm same]

/-! ## One more group -/

theorem index_append (number : GroupId.ofIndex? lexicon.groupCount = some group)
    (word : String) :
    (lexicon.append name words).index[word]? =
      if word ∈ words then some group else lexicon.index[word]? := by
  rw [append, number]
  exact getElem?_foldl_insert word group words lexicon.index

theorem words_append (number : GroupId.ofIndex? lexicon.groupCount = some group)
    (other : GroupId) :
    (lexicon.append name words).words other =
      if other = group then words else lexicon.words other := by
  have place : group.val = lexicon.groups.size := GroupId.val_of_ofIndex? number
  rw [append, number]
  simp only [Lexicon.words, group?, Array.getElem?_push, ← place]
  by_cases same : other = group
  · simp [same]
  · have apart : ¬ other.val = group.val := fun equal => same (Fin.ext equal)
    simp [same, apart]

theorem words_of_ofIndex? (number : GroupId.ofIndex? lexicon.groupCount = some group) :
    lexicon.words group = [] := by
  have place : group.val = lexicon.groups.size := GroupId.val_of_ofIndex? number
  rw [words, group?, Array.getElem?_eq_none (Nat.le_of_eq place.symm)]

theorem IsIndexed.append (indexed : lexicon.IsIndexed)
    (number : GroupId.ofIndex? lexicon.groupCount = some group)
    (fresh : ∀ word ∈ words, lexicon.index[word]? = none) :
    (lexicon.append name words).IsIndexed := by
  intro word other
  rw [index_append number, words_append number]
  by_cases listed : word ∈ words
  · rw [if_pos listed]
    by_cases same : other = group
    · simp [same, listed]
    · have unlisted : word ∉ lexicon.words other := by
        rw [← indexed word other, fresh word listed]
        simp
      simp [same, unlisted, Ne.symm same]
  · rw [if_neg listed, indexed word other]
    by_cases same : other = group
    · rw [same, words_of_ofIndex? number, if_pos rfl]
      simp [listed]
    · rw [if_neg same]

end Lexicon

namespace LexiconDraft

variable {draft next : LexiconDraft} {lexicon : Lexicon} {name : String} {words : List String}
  {group : GroupId} {fault : GroupFault} {seen : Std.HashSet String}

theorem owner?_eq_none {word : String} (indexed : lexicon.IsIndexed)
    (free : owner? lexicon name seen word = none) :
    lexicon.index[word]? = none ∧ seen.contains word = false := by
  rw [owner?] at free
  cases found : lexicon.index[word]? with
  | none =>
      rw [found] at free
      exact ⟨rfl, by simpa using free⟩
  | some group =>
      -- only a group without a name could list the word and still have no owner
      obtain ⟨first, named⟩ := Lexicon.exists_name_of_mem_words ((indexed word group).mp found)
      simp [found, named] at free

/-- A list without a fault holds words only that can be met and are listed nowhere, be it in the
lexicon, among the words seen or earlier in the list. -/
theorem wordFault?_eq_none (indexed : lexicon.IsIndexed) : ∀ {seen : Std.HashSet String},
    wordFault? lexicon name seen words = none →
      words.Nodup ∧ ∀ word ∈ words, isMatchable word = true ∧ lexicon.index[word]? = none ∧
        seen.contains word = false := by
  induction words with
  | nil =>
      intro seen _
      simp
  | cons first rest ih =>
      intro seen faultless
      rw [wordFault?] at faultless
      by_cases matchable : isMatchable first = true
      · rw [if_pos matchable] at faultless
        cases free : owner? lexicon name seen first with
        | some owner => simp [free] at faultless
        | none =>
            rw [free] at faultless
            obtain ⟨unlisted, unseen⟩ := owner?_eq_none indexed free
            obtain ⟨distinct, others⟩ := ih faultless
            refine ⟨List.nodup_cons.mpr ⟨?_, distinct⟩, List.forall_mem_cons.mpr
              ⟨⟨matchable, unlisted, unseen⟩, ?_⟩⟩
            · intro again
              have known := (others first again).2.2
              simp at known
            · intro word member
              obtain ⟨possible, absent, unknown⟩ := others word member
              rw [Std.HashSet.contains_insert, Bool.or_eq_false_iff] at unknown
              exact ⟨possible, absent, unknown.2⟩
      · simp [matchable] at faultless

/-! ## Steps and runs -/

theorem addGroup_ok (added : addGroup name words draft = .ok group next) :
    draft.names.contains name = false ∧
      GroupId.ofIndex? draft.lexicon.groupCount = some group ∧
      wordFault? draft.lexicon name ∅ words = none ∧
      next = ⟨draft.lexicon.append name words, draft.names.insert name⟩ := by
  rw [addGroup] at added
  split at added
  · contradiction
  · next unnamed =>
    split at added
    · contradiction
    · next number room =>
      split at added
      · contradiction
      · next faultless =>
        obtain ⟨rfl, rfl⟩ := EStateM.Result.ok.inj added
        exact ⟨by simpa using unnamed, room, faultless, rfl⟩

theorem addGroup_error (refused : addGroup name words draft = .error fault next) :
    next = draft := by
  rw [addGroup] at refused
  split at refused
  · exact (EStateM.Result.error.inj refused).2.symm
  · split at refused
    · exact (EStateM.Result.error.inj refused).2.symm
    · split at refused
      · exact (EStateM.Result.error.inj refused).2.symm
      · contradiction

/-- The draft that a call leaves behind, whether or not it adds its group. -/
def afterGroup (draft : LexiconDraft) (call : String × List String) : LexiconDraft :=
  match addGroup call.1 call.2 draft with
  | .ok _ next => next
  | .error _ next => next

/-- A call changes nothing, or it adds a group with a new name whose words have no fault. -/
theorem afterGroup_cases (draft : LexiconDraft) (call : String × List String) :
    draft.afterGroup call = draft ∨
      ∃ group, GroupId.ofIndex? draft.lexicon.groupCount = some group ∧
        draft.names.contains call.1 = false ∧
        wordFault? draft.lexicon call.1 ∅ call.2 = none ∧
        draft.afterGroup call =
          ⟨draft.lexicon.append call.1 call.2, draft.names.insert call.1⟩ := by
  rw [afterGroup]
  cases result : addGroup call.1 call.2 draft with
  | error fault next => exact .inl (addGroup_error result)
  | ok group next =>
      obtain ⟨unnamed, number, faultless, same⟩ := addGroup_ok result
      exact .inr ⟨group, number, unnamed, faultless, same⟩

def afterGroups (draft : LexiconDraft) (calls : List (String × List String)) : LexiconDraft :=
  calls.foldl afterGroup draft

theorem afterGroups_cons (call : String × List String) (rest : List (String × List String)) :
    draft.afterGroups (call :: rest) = (draft.afterGroup call).afterGroups rest := rfl

theorem afterGroups_append (first second : List (String × List String)) :
    draft.afterGroups (first ++ second) = (draft.afterGroups first).afterGroups second :=
  List.foldl_append

/-- What every call for a group keeps holds after any number of them. -/
theorem afterGroups_induction (holds : LexiconDraft → Prop)
    (step : ∀ draft : LexiconDraft, holds draft → ∀ call, holds (draft.afterGroup call))
    (calls : List (String × List String)) :
    ∀ {draft : LexiconDraft}, holds draft → holds (draft.afterGroups calls) := by
  induction calls with
  | nil =>
      intro draft start
      exact start
  | cons call rest ih =>
      intro draft start
      exact ih (step draft start call)

theorem isSound_empty : empty.lexicon.IsSound := by
  have unlisted : ∀ group, empty.lexicon.words group = [] := fun group => rfl
  refine ⟨?_, ?_⟩
  · intro word group
    rw [unlisted, empty, Lexicon.empty]
    simp
  · intro group word listed
    simp [unlisted] at listed

theorem isSound_afterGroup (sound : draft.lexicon.IsSound) (call : String × List String) :
    (draft.afterGroup call).lexicon.IsSound := by
  rcases draft.afterGroup_cases call with same | ⟨group, number, _, faultless, same⟩
  · rw [same]
    exact sound
  · obtain ⟨_, accepted⟩ := wordFault?_eq_none sound.indexed faultless
    rw [same]
    refine ⟨sound.indexed.append number fun word listed => (accepted word listed).2.1, ?_⟩
    intro other word listed
    rw [Lexicon.words_append number] at listed
    by_cases same : other = group
    · rw [if_pos same] at listed
      exact (accepted word listed).1
    · rw [if_neg same] at listed
      exact sound.matchable other word listed

theorem isSound_afterGroups (calls : List (String × List String))
    (sound : draft.lexicon.IsSound) : (draft.afterGroups calls).lexicon.IsSound :=
  afterGroups_induction (·.lexicon.IsSound) (fun _ => isSound_afterGroup) calls sound

end LexiconDraft

/-- The lexicon of a new draft after calls for one group each, be they refused or not. -/
def Lexicon.ofCalls (calls : List (String × List String)) : Lexicon :=
  (LexiconDraft.empty.afterGroups calls).lexicon

theorem Lexicon.isSound_ofCalls (calls : List (String × List String)) :
    (Lexicon.ofCalls calls).IsSound :=
  LexiconDraft.isSound_afterGroups calls LexiconDraft.isSound_empty

end Highlighter

import Mathlib
import Highlighter.Proofs.Lexicon.Replay

/-! # What a lexicon holds

A draft keeps its groups, the index of their words and the set of their names apart, and each
accepted call changes all three.  Whatever calls are made, and whichever of them are refused, the
three agree: every word and every name stands in one place, and the groups are the accepted calls
in order. -/

set_option autoImplicit false

namespace Highlighter

namespace Lexicon

variable {lexicon : Lexicon} {name word : String} {words : List String} {group : GroupId}

/-- The words of all groups in order. -/
def listed (lexicon : Lexicon) : List String := lexicon.groups.toList.flatMap WordGroup.words

def names (lexicon : Lexicon) : List String := lexicon.groups.toList.map WordGroup.name

/-! ## Groups by their numbers -/

theorem exists_group?_of_mem (fits : lexicon.groupCount ≤ groupLimit) {entry : WordGroup}
    (member : entry ∈ lexicon.groups.toList) :
    ∃ group : GroupId, lexicon.group? group = some entry := by
  obtain ⟨index, inside, same⟩ := List.getElem_of_mem member
  have size : index < lexicon.groupCount := by simpa [groupCount] using inside
  refine ⟨⟨index, Nat.lt_of_lt_of_le size fits⟩, ?_⟩
  rw [group?, ← Array.getElem?_toList, List.getElem?_eq_getElem inside, same]

theorem mem_listed_iff (fits : lexicon.groupCount ≤ groupLimit) :
    word ∈ lexicon.listed ↔ ∃ group, word ∈ lexicon.words group := by
  rw [listed, List.mem_flatMap]
  constructor
  · rintro ⟨entry, member, inside⟩
    obtain ⟨group, found⟩ := exists_group?_of_mem fits member
    exact ⟨group, by simpa [words, found] using inside⟩
  · rintro ⟨group, inside⟩
    rw [words] at inside
    cases found : lexicon.group? group with
    | none => simp [found] at inside
    | some entry =>
        rw [found] at inside
        exact ⟨entry, Array.mem_toList_iff.mpr (Array.mem_of_getElem? found), inside⟩

theorem mem_names_iff (fits : lexicon.groupCount ≤ groupLimit) :
    name ∈ lexicon.names ↔ ∃ group, lexicon.name? group = some name := by
  rw [names, List.mem_map]
  constructor
  · rintro ⟨entry, member, rfl⟩
    obtain ⟨group, found⟩ := exists_group?_of_mem fits member
    exact ⟨group, by rw [name?, found]; rfl⟩
  · rintro ⟨group, named⟩
    obtain ⟨entry, found, same⟩ := Option.map_eq_some_iff.mp named
    exact ⟨entry, Array.mem_toList_iff.mpr (Array.mem_of_getElem? found), same⟩

theorem flatMap_words_groupIds (fits : lexicon.groupCount ≤ groupLimit) :
    lexicon.groupIds.flatMap lexicon.words = lexicon.listed := by
  have found : lexicon.words = fun group =>
      ((lexicon.group? group).map WordGroup.words).getD [] := by
    funext group
    rw [words]
    cases lexicon.group? group <;> rfl
  have groups := congrArg (List.flatMap fun entry => (entry.map WordGroup.words).getD [])
    (map_group?_groupIds fits)
  rw [List.flatMap_map, List.flatMap_map] at groups
  rw [found, groups]
  rfl

theorem eq_of_name? {other : GroupId} (distinct : lexicon.names.Nodup)
    (here : lexicon.name? group = some name) (there : lexicon.name? other = some name) :
    group = other := by
  have place : ∀ id : GroupId, lexicon.names[id.val]? = lexicon.name? id := by
    intro id
    rw [names, List.getElem?_map, Array.getElem?_toList]
    rfl
  have inside : group.val < lexicon.names.length := by
    rw [← place] at here
    exact (List.getElem?_eq_some_iff.mp here).1
  apply Fin.ext
  apply (List.getElem?_inj inside distinct).mp
  rw [place, place, here, there]

/-! ## One more group -/

theorem listed_append (number : GroupId.ofIndex? lexicon.groupCount = some group) :
    (lexicon.append name words).listed = lexicon.listed ++ words := by
  simp [listed, groups_append number]

theorem names_append (number : GroupId.ofIndex? lexicon.groupCount = some group) :
    (lexicon.append name words).names = lexicon.names ++ [name] := by
  simp [names, groups_append number]

theorem group?_append (number : GroupId.ofIndex? lexicon.groupCount = some group)
    (other : GroupId) : (lexicon.append name words).group? other =
      if other = group then some ⟨name, words⟩ else lexicon.group? other := by
  have place : group.val = lexicon.groups.size := GroupId.val_of_ofIndex? number
  rw [group?, groups_append number, Array.getElem?_push, ← place]
  simp only [Fin.ext_iff, group?]

theorem size_foldl_insert (group : GroupId) (words : List String) :
    ∀ index : Std.HashMap String GroupId, (∀ word ∈ words, index[word]? = none) → words.Nodup →
      (words.foldl (fun index word => index.insert word group) index).size =
        index.size + words.length := by
  induction words with
  | nil =>
      intro index _ _
      rfl
  | cons first rest ih =>
      intro index free distinct
      obtain ⟨new, others⟩ := List.forall_mem_cons.mp free
      obtain ⟨apart, distinct⟩ := List.nodup_cons.mp distinct
      have absent : first ∉ index := by
        rw [Std.HashMap.mem_iff_isSome_getElem?, new]
        simp
      have later : ∀ word ∈ rest, (index.insert first group)[word]? = none := by
        intro word member
        have different : first ≠ word := by
          rintro rfl
          exact apart member
        simp [Std.HashMap.getElem?_insert, different, others word member]
      rw [List.foldl_cons, ih _ later distinct, Std.HashMap.size_insert, if_neg absent,
        List.length_cons]
      omega

theorem wordCount_append (number : GroupId.ofIndex? lexicon.groupCount = some group)
    (free : ∀ word ∈ words, lexicon.index[word]? = none) (distinct : words.Nodup) :
    (lexicon.append name words).wordCount = lexicon.wordCount + words.length := by
  rw [wordCount, append, number]
  exact size_foldl_insert group words lexicon.index free distinct

end Lexicon

/-! ## Drafts -/

namespace LexiconDraft

variable {draft : LexiconDraft}

def accepted (draft : LexiconDraft) : List (String × List String) → List (String × List String)
  | [] => []
  | call :: rest =>
    match addGroup call.1 call.2 draft with
    | .ok _ next => call :: next.accepted rest
    | .error _ next => next.accepted rest

/-- What ties the groups, the index and the names of a draft together. -/
structure IsKept (draft : LexiconDraft) : Prop where
  sound : draft.lexicon.IsSound
  fits : draft.lexicon.groupCount ≤ groupLimit
  listed : draft.lexicon.listed.Nodup
  wordCount : draft.lexicon.wordCount = draft.lexicon.listed.length
  named : draft.lexicon.names.Nodup
  names : ∀ name, draft.names.contains name = true ↔ name ∈ draft.lexicon.names

theorem isKept_empty : empty.IsKept := by
  refine ⟨isSound_empty, Nat.zero_le _, List.nodup_nil, ?_, List.nodup_nil, ?_⟩
  · simp [Lexicon.wordCount, Lexicon.listed, empty, Lexicon.empty]
  · simp [Lexicon.names, empty, Lexicon.empty]

theorem isKept_afterGroup (kept : draft.IsKept) (call : String × List String) :
    (draft.afterGroup call).IsKept := by
  have sound := isSound_afterGroup kept.sound call
  rcases draft.afterGroup_cases call with same | ⟨group, number, unnamed, faultless, same⟩
  · rw [same]
    exact kept
  · obtain ⟨distinct, new⟩ := wordFault?_eq_none kept.sound.indexed faultless
    have free : ∀ word ∈ call.2, draft.lexicon.index[word]? = none :=
      fun word member => (new word member).2.1
    rw [same] at sound ⊢
    constructor
    case sound => exact sound
    case fits => exact Lexicon.groupCount_append_le number
    case listed =>
      rw [Lexicon.listed_append number, List.nodup_append]
      refine ⟨kept.listed, distinct, ?_⟩
      intro word early other late equal
      rw [equal, Lexicon.mem_listed_iff kept.fits] at early
      obtain ⟨owner, owned⟩ := early
      have found := (kept.sound.indexed other owner).mpr owned
      rw [free other late] at found
      contradiction
    case wordCount =>
      rw [Lexicon.wordCount_append number free distinct, Lexicon.listed_append number,
        List.length_append, kept.wordCount]
    case named =>
      rw [Lexicon.names_append number, List.nodup_append]
      refine ⟨kept.named, by simp, ?_⟩
      intro name early other late equal
      obtain rfl : other = call.1 := by simpa using late
      rw [equal, ← kept.names, unnamed] at early
      contradiction
    case names =>
      intro name
      rw [Lexicon.names_append number, List.mem_append, List.mem_singleton, ← kept.names,
        Std.HashSet.contains_insert, Bool.or_eq_true, beq_iff_eq, eq_comm, or_comm]

theorem isKept_afterGroups (calls : List (String × List String)) :
    (empty.afterGroups calls).IsKept :=
  afterGroups_induction IsKept (fun _ => isKept_afterGroup) calls isKept_empty

/-! ## Accepted calls -/

theorem map_accepted (calls : List (String × List String)) : ∀ draft : LexiconDraft,
    (draft.afterGroups calls).lexicon.groups.toList = draft.lexicon.groups.toList ++
      (draft.accepted calls).map fun call => ⟨call.1, call.2⟩ := by
  induction calls with
  | nil =>
      intro draft
      simp [afterGroups, accepted]
  | cons call rest ih =>
      intro draft
      rw [afterGroups_cons, ih, accepted, afterGroup]
      cases result : addGroup call.1 call.2 draft with
      | error fault last => rw [addGroup_error result]
      | ok group last =>
          obtain ⟨_, number, _, same⟩ := addGroup_ok result
          simp [same, Lexicon.groups_append number]

theorem groupCount_afterGroups (calls : List (String × List String)) :
    (empty.afterGroups calls).lexicon.groupCount = (empty.accepted calls).length := by
  have groups := congrArg List.length (map_accepted calls empty)
  simpa [Lexicon.groupCount, empty, Lexicon.empty] using groups

theorem group?_afterGroups {group : GroupId} {entry : WordGroup}
    (calls : List (String × List String)) (found : draft.lexicon.group? group = some entry) :
    (draft.afterGroups calls).lexicon.group? group = some entry := by
  have groups := map_accepted calls draft
  rw [Lexicon.group?, ← Array.getElem?_toList] at found ⊢
  rw [groups, List.getElem?_append_left (List.getElem?_eq_some_iff.mp found).1, found]

theorem group?_of_addGroup {name : String} {words : List String} {group : GroupId}
    {next : LexiconDraft} (added : addGroup name words draft = .ok group next) :
    next.lexicon.group? group = some ⟨name, words⟩ := by
  obtain ⟨_, number, _, rfl⟩ := addGroup_ok added
  rw [Lexicon.group?_append number, if_pos rfl]

end LexiconDraft

/-! ## Lexicons -/

structure Lexicon.IsCoherent (lexicon : Lexicon) : Prop where
  category : ∀ word group, lexicon.category word = .keyword group ↔ word ∈ lexicon.words group
  unlisted : ∀ word, lexicon.category word = .plain ↔ ∀ group, word ∉ lexicon.words group
  listed : (lexicon.groupIds.flatMap lexicon.words).Nodup
  wordCount : lexicon.wordCount =
    (lexicon.groupIds.map fun group => (lexicon.words group).length).sum
  named : ∀ group other name, lexicon.name? group = some name →
    lexicon.name? other = some name → group = other
  groupCount : lexicon.groupCount ≤ groupLimit
  groupIds : lexicon.groupIds.map Fin.val = List.range lexicon.groupCount

theorem LexiconDraft.IsKept.isCoherent {draft : LexiconDraft} (kept : draft.IsKept) :
    draft.lexicon.IsCoherent := by
  have words := Lexicon.flatMap_words_groupIds kept.fits
  have category : ∀ word group,
      draft.lexicon.category word = .keyword group ↔ word ∈ draft.lexicon.words group :=
    fun word group => Lexicon.category_eq_keyword kept.sound.indexed
  constructor
  case category => exact category
  case unlisted =>
    intro word
    simp only [← category word]
    rw [Lexicon.category]
    cases draft.lexicon.index[word]? <;> simp
  case listed =>
    rw [words]
    exact kept.listed
  case wordCount => rw [kept.wordCount, ← words, List.length_flatMap]
  case named => exact fun group other name => Lexicon.eq_of_name? kept.named
  case groupCount => exact kept.fits
  case groupIds => exact Lexicon.map_val_groupIds kept.fits

/-- After any calls the parts of the lexicon agree, and an accepted call has got the number of the
calls accepted before it and left its name and its words there. -/
theorem Lexicon.isCoherent_ofCalls (calls : List (String × List String)) :
    (ofCalls calls).IsCoherent ∧
      (ofCalls calls).groupCount = (LexiconDraft.empty.accepted calls).length ∧
      ∀ before name words after, calls = before ++ (name, words) :: after →
        ∀ group next,
          LexiconDraft.addGroup name words (LexiconDraft.empty.afterGroups before) =
              .ok group next →
            group.val = (LexiconDraft.empty.accepted before).length ∧
              (ofCalls calls).name? group = some name ∧ (ofCalls calls).words group = words := by
  refine ⟨(LexiconDraft.isKept_afterGroups calls).isCoherent,
    LexiconDraft.groupCount_afterGroups calls, ?_⟩
  rintro before name words after rfl group next added
  obtain ⟨_, number, _, _⟩ := LexiconDraft.addGroup_ok added
  have found : (ofCalls (before ++ (name, words) :: after)).group? group =
      some ⟨name, words⟩ := by
    rw [ofCalls, LexiconDraft.afterGroups_append, LexiconDraft.afterGroups_cons]
    apply LexiconDraft.group?_afterGroups after
    rw [LexiconDraft.afterGroup, added]
    exact LexiconDraft.group?_of_addGroup added
  refine ⟨?_, ?_, ?_⟩
  · rw [← LexiconDraft.groupCount_afterGroups]
    exact GroupId.val_of_ofIndex? number
  · rw [name?, found]
    rfl
  · rw [Lexicon.words, found]

example : LexiconDraft.empty.accepted [("a", ["x"]), ("b", ["y", "x"]), ("c", ["y"])] =
    [("a", ["x"]), ("c", ["y"])] := by cbv

end Highlighter

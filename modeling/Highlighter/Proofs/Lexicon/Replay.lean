import Highlighter.Proofs.Lexicon.Draft

/-! # Building a lexicon again

A refused group leaves no trace.  So the groups that a draft has taken are all that made it what
it is: taken once more in their order, from a new draft on, they are all accepted and give that
same draft. -/

set_option autoImplicit false

namespace Highlighter

variable {lexicon : Lexicon} {name : String} {words : List String} {group : GroupId}

namespace GroupId

theorem ofIndex?_eq_some {index : Nat} (inRange : index < groupLimit) :
    ofIndex? index = some ⟨index, inRange⟩ := dif_pos inRange

end GroupId

namespace Lexicon

theorem groups_append (number : GroupId.ofIndex? lexicon.groupCount = some group) :
    (lexicon.append name words).groups = lexicon.groups.push ⟨name, words⟩ := by
  rw [append, number]

theorem groupCount_append (number : GroupId.ofIndex? lexicon.groupCount = some group) :
    (lexicon.append name words).groupCount = lexicon.groupCount + 1 := by
  simp [groupCount, groups_append number]

theorem groupCount_append_le (number : GroupId.ofIndex? lexicon.groupCount = some group) :
    (lexicon.append name words).groupCount ≤ groupLimit := by
  rw [groupCount_append number, ← GroupId.val_of_ofIndex? number]
  exact group.isLt

/-! ## The numbers of the groups -/

theorem map_val_groupIds (fits : lexicon.groupCount ≤ groupLimit) :
    lexicon.groupIds.map Fin.val = List.range lexicon.groupCount := by
  have found : ∀ index ∈ List.range lexicon.groupCount,
      (GroupId.ofIndex? index).map Fin.val = some index := by
    intro index member
    rw [GroupId.ofIndex?_eq_some (Nat.lt_of_lt_of_le (List.mem_range.mp member) fits)]
    rfl
  rw [groupIds, List.map_filterMap, List.filterMap_congr found, List.filterMap_some]

theorem map_group?_groupIds (fits : lexicon.groupCount ≤ groupLimit) :
    lexicon.groupIds.map lexicon.group? = lexicon.groups.toList.map some := by
  have places : lexicon.groupIds.map lexicon.group? =
      (lexicon.groupIds.map Fin.val).map fun index => lexicon.groups[index]? := by
    rw [List.map_map]
    rfl
  rw [places, map_val_groupIds fits]
  apply List.ext_getElem
  · simp [groupCount]
  · intro index inside inside'
    simp [Array.getElem?_eq_getElem (by simpa using inside')]

theorem getElem?_groupIds (fits : lexicon.groupCount ≤ groupLimit)
    (inside : group.val < lexicon.groupCount) : lexicon.groupIds[group.val]? = some group := by
  have place := congrArg (·[group.val]?) (map_val_groupIds fits)
  simp only [List.getElem?_map, List.getElem?_range inside, Option.map_eq_some_iff] at place
  obtain ⟨found, here, same⟩ := place
  rw [here, Fin.ext same]

theorem lt_groupCount_of_mem_words {word : String} (listed : word ∈ lexicon.words group) :
    group.val < lexicon.groupCount := by
  by_contra outside
  rw [words, group?, Array.getElem?_eq_none (Nat.le_of_not_lt outside)] at listed
  contradiction

theorem lt_of_mem_groupIds (fits : lexicon.groupCount ≤ groupLimit)
    (member : group ∈ lexicon.groupIds) : group.val < lexicon.groupCount := by
  have mapped := List.mem_map_of_mem (f := Fin.val) member
  rw [map_val_groupIds fits] at mapped
  exact List.mem_range.mp mapped

end Lexicon

namespace LexiconDraft

variable {draft : LexiconDraft}

/-- The draft with one more group, unless that is refused. -/
def take (draft : LexiconDraft) (group : WordGroup) : Except GroupFault LexiconDraft :=
  match addGroup group.name group.words draft with
  | .ok _ next => .ok next
  | .error fault _ => .error fault

structure IsReplayed (draft : LexiconDraft) : Prop where
  replay : draft.lexicon.groups.toList.foldlM take empty = .ok draft
  fits : draft.lexicon.groupCount ≤ groupLimit

theorem isReplayed_empty : empty.IsReplayed := ⟨rfl, Nat.zero_le _⟩

theorem isReplayed_afterGroup (replayed : draft.IsReplayed) (call : String × List String) :
    (draft.afterGroup call).IsReplayed := by
  obtain ⟨name, words⟩ := call
  rw [afterGroup]
  cases result : addGroup name words draft with
  | error fault next =>
      rw [addGroup_error result]
      exact replayed
  | ok group next =>
      obtain ⟨_, number, _, same⟩ := addGroup_ok result
      have groups : next.lexicon.groups = draft.lexicon.groups.push ⟨name, words⟩ := by
        rw [same]
        exact Lexicon.groups_append number
      refine ⟨?_, ?_⟩
      · have taken : draft.take ⟨name, words⟩ = .ok next := by
          rw [take, result]
        rw [groups, Array.toList_push, List.foldlM_append, replayed.replay]
        change (draft.take ⟨name, words⟩ >>= fun last => .ok last) = Except.ok next
        rw [taken]
        rfl
      · change next.lexicon.groupCount ≤ groupLimit
        rw [same]
        exact Lexicon.groupCount_append_le number

theorem isReplayed_afterGroups (calls : List (String × List String))
    (replayed : draft.IsReplayed) : (draft.afterGroups calls).IsReplayed :=
  afterGroups_induction IsReplayed (fun _ => isReplayed_afterGroup) calls replayed

/-! ## Groups that are accepted -/

theorem wordFault?_eq_none_of_fresh {seen : Std.HashSet String}
    (matchable : ∀ word ∈ words, isMatchable word = true)
    (free : ∀ word ∈ words, lexicon.index[word]? = none) (distinct : words.Nodup)
    (unseen : ∀ word ∈ words, seen.contains word = false) :
    wordFault? lexicon name seen words = none := by
  induction words generalizing seen with
  | nil => rfl
  | cons first rest ih =>
      obtain ⟨apart, distinct⟩ := List.nodup_cons.mp distinct
      obtain ⟨matchable, others⟩ := List.forall_mem_cons.mp matchable
      obtain ⟨free, othersFree⟩ := List.forall_mem_cons.mp free
      obtain ⟨unseen, othersUnseen⟩ := List.forall_mem_cons.mp unseen
      have owned : owner? lexicon name seen first = none := by
        simp [owner?, free, unseen]
      have later : ∀ word ∈ rest, (seen.insert first).contains word = false := by
        intro word member
        have different : first ≠ word := by
          rintro rfl
          exact apart member
        simp [Std.HashSet.contains_insert, different, othersUnseen word member]
      rw [wordFault?, if_pos matchable, owned]
      exact ih others othersFree distinct later

/-- What makes a draft accept all of some further groups. -/
structure Fits (draft : LexiconDraft) (calls : List (String × List String)) : Prop where
  unnamed : ∀ call ∈ calls, draft.names.contains call.1 = false
  named : (calls.map Prod.fst).Nodup
  room : draft.lexicon.groupCount + calls.length ≤ groupLimit
  matchable : ∀ word ∈ calls.flatMap Prod.snd, isMatchable word = true
  free : ∀ word ∈ calls.flatMap Prod.snd, draft.lexicon.index[word]? = none
  distinct : (calls.flatMap Prod.snd).Nodup

theorem Fits.exists_addGroup {call : String × List String} {rest : List (String × List String)}
    (fits : draft.Fits (call :: rest)) :
    ∃ group, addGroup call.1 call.2 draft =
        .ok group ⟨draft.lexicon.append call.1 call.2, draft.names.insert call.1⟩ ∧
      Fits ⟨draft.lexicon.append call.1 call.2, draft.names.insert call.1⟩ rest := by
  obtain ⟨unnamed, named, room, matchable, free, distinct⟩ := fits
  rw [List.flatMap_cons] at matchable free distinct
  rw [List.length_cons] at room
  obtain ⟨once, later, apart⟩ := List.nodup_append.mp distinct
  obtain ⟨unnamed, othersUnnamed⟩ := List.forall_mem_cons.mp unnamed
  obtain ⟨fresh, named⟩ := List.nodup_cons.mp named
  have inRange : draft.lexicon.groupCount < groupLimit := by omega
  have number := GroupId.ofIndex?_eq_some inRange
  have faultless : wordFault? draft.lexicon call.1 ∅ call.2 = none :=
    wordFault?_eq_none_of_fresh (fun word member => matchable word (List.mem_append_left _ member))
      (fun word member => free word (List.mem_append_left _ member)) once (by simp)
  refine ⟨⟨_, inRange⟩, by simp [addGroup, unnamed, number, faultless], ?_⟩
  constructor
  case named => exact named
  case distinct => exact later
  case matchable => exact fun word member => matchable word (List.mem_append_right _ member)
  case unnamed =>
    intro other member
    have different : call.1 ≠ other.1 := by
      intro same
      exact fresh (same ▸ List.mem_map_of_mem member)
    simp [Std.HashSet.contains_insert, different, othersUnnamed other member]
  case room =>
    rw [Lexicon.groupCount_append number]
    omega
  case free =>
    intro word member
    have different : word ∉ call.2 := fun taken => apart word taken word member rfl
    rw [Lexicon.index_append number, if_neg different]
    exact free word (List.mem_append_right _ member)

theorem Fits.afterGroups {calls : List (String × List String)} :
    ∀ {draft : LexiconDraft}, draft.Fits calls →
      (draft.afterGroups calls).lexicon =
        calls.foldl (fun lexicon call => lexicon.append call.1 call.2) draft.lexicon := by
  induction calls with
  | nil =>
      intro draft _
      rfl
  | cons call rest ih =>
      intro draft fits
      obtain ⟨group, added, others⟩ := fits.exists_addGroup
      rw [LexiconDraft.afterGroups, List.foldl_cons, List.foldl_cons, LexiconDraft.afterGroup, added]
      exact ih others

end LexiconDraft

theorem Lexicon.standard_eq_ofCalls :
    standard = ofCalls [("blue", ["class"]), ("magenta", ["import", "from", "export"]),
      ("green", ["TestComponent", "Component"])] := by
  have fits : LexiconDraft.empty.Fits [("blue", ["class"]),
      ("magenta", ["import", "from", "export"]), ("green", ["TestComponent", "Component"])] := by
    refine ⟨?_, by decide, by decide, by decide, ?_, by decide⟩
    · simp [LexiconDraft.empty]
    · simp [LexiconDraft.empty, empty]
  exact fits.afterGroups.symm

/-- A lexicon that calls for groups lead to, or the standard one. -/
inductive Lexicon.IsMade : Lexicon → Prop where
  | ofCalls (calls : List (String × List String)) : IsMade (.ofCalls calls)
  | standard : IsMade .standard

theorem Lexicon.IsMade.exists_calls {lexicon : Lexicon} (made : lexicon.IsMade) :
    ∃ calls, lexicon = .ofCalls calls := by
  cases made with
  | ofCalls calls => exact ⟨calls, rfl⟩
  | standard => exact ⟨_, standard_eq_ofCalls⟩

end Highlighter

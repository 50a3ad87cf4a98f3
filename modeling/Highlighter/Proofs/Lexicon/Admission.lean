import Mathlib.Data.List.Nodup
import Highlighter.Proofs.Lexicon.Contents

/-! # Which groups a draft takes together

Groups are given to a draft one after the other, and the first that is refused ends it.  Whether a
new draft takes all of them is decided by the groups as a whole: by their number, their names and
their words, and so not by their order. -/

set_option autoImplicit false

namespace Highlighter

def WordGroup.call (group : WordGroup) : String × List String := (group.name, group.words)

/-- A fold that fails has been stopped by one item, which came after items that it could pass. -/
theorem foldlM_eq_error_iff {ε σ ι : Type} {step : σ → ι → Except ε σ} {items : List ι}
    {fault : ε} : ∀ {start : σ}, items.foldlM step start = .error fault ↔
      ∃ before item after last, items = before ++ item :: after ∧
        before.foldlM step start = .ok last ∧ step last item = .error fault := by
  induction items with
  | nil =>
      intro start
      simp [pure, Except.pure]
  | cons first rest ih =>
      intro start
      rw [List.foldlM_cons]
      cases head : step start first with
      | error stopped =>
          constructor
          · intro failed
            obtain rfl : stopped = fault := by simpa [bind, Except.bind] using failed
            exact ⟨[], first, rest, start, rfl, rfl, head⟩
          · rintro ⟨before, item, after, last, split, passed, failed⟩
            cases before with
            | nil =>
                obtain ⟨rfl, rfl⟩ := List.cons.inj split
                obtain rfl : start = last := Except.ok.inj passed
                rw [head] at failed
                exact failed
            | cons other others =>
                obtain ⟨rfl, rfl⟩ := List.cons.inj split
                rw [List.foldlM_cons, head] at passed
                contradiction
      | ok next =>
          change rest.foldlM step next = .error fault ↔ _
          rw [ih]
          constructor
          · rintro ⟨before, item, after, last, rfl, passed, failed⟩
            refine ⟨first :: before, item, after, last, rfl, ?_, failed⟩
            rw [List.foldlM_cons, head]
            exact passed
          · rintro ⟨before, item, after, last, split, passed, failed⟩
            cases before with
            | nil =>
                obtain ⟨rfl, rfl⟩ := List.cons.inj split
                obtain rfl : start = last := Except.ok.inj passed
                rw [head] at failed
                contradiction
            | cons other others =>
                obtain ⟨rfl, rfl⟩ := List.cons.inj split
                rw [List.foldlM_cons, head] at passed
                exact ⟨others, item, after, last, rfl, passed, failed⟩

namespace LexiconDraft

variable {draft last : LexiconDraft} {call : String × List String}
  {calls calls' rest : List (String × List String)} {groups : List WordGroup} {fault : GroupFault}

/-! ## One group after the other -/

/-- None of the calls is refused. -/
def AcceptsAll (draft : LexiconDraft) (calls : List (String × List String)) : Prop :=
  draft.accepted calls = calls

theorem length_accepted_le (calls : List (String × List String)) : ∀ draft : LexiconDraft,
    (draft.accepted calls).length ≤ calls.length := by
  induction calls with
  | nil =>
      intro draft
      exact Nat.le_refl 0
  | cons call rest ih =>
      intro draft
      rw [accepted]
      split
      · next next _ => exact Nat.succ_le_succ (ih next)
      · next next _ => exact Nat.le_succ_of_le (ih next)

theorem acceptsAll_cons : draft.AcceptsAll (call :: rest) ↔
    ∃ group next, addGroup call.1 call.2 draft = .ok group next ∧ next.AcceptsAll rest := by
  rw [AcceptsAll, accepted]
  cases result : addGroup call.1 call.2 draft with
  | error fault next =>
      have short := length_accepted_le rest next
      constructor
      · intro all
        have length := congrArg List.length all
        simp only [List.length_cons] at length
        omega
      · rintro ⟨group, last, impossible, _⟩
        contradiction
  | ok group next =>
      simp [AcceptsAll]

theorem foldlM_take_eq_ok_iff : ∀ {draft : LexiconDraft},
    groups.foldlM take draft = .ok last ↔
      draft.AcceptsAll (groups.map WordGroup.call) ∧
        draft.afterGroups (groups.map WordGroup.call) = last := by
  induction groups with
  | nil =>
      intro draft
      constructor
      · intro passed
        exact ⟨rfl, Except.ok.inj passed⟩
      · rintro ⟨_, rfl⟩
        rfl
  | cons group rest ih =>
      intro draft
      rw [List.foldlM_cons, List.map_cons, acceptsAll_cons, afterGroups_cons, afterGroup, take,
        WordGroup.call]
      cases result : addGroup group.name group.words draft with
      | error fault next => simp [bind, Except.bind]
      | ok number next => simpa [bind, Except.bind] using ih

theorem foldlM_take_eq_error_iff : groups.foldlM take draft = .error fault ↔
    ∃ before group after, groups = before ++ group :: after ∧
      draft.AcceptsAll (before.map WordGroup.call) ∧
      ∃ last, addGroup group.name group.words
        (draft.afterGroups (before.map WordGroup.call)) = .error fault last := by
  have refused : ∀ (next : LexiconDraft) (group : WordGroup), next.take group = .error fault ↔
      ∃ last, addGroup group.name group.words next = .error fault last := by
    intro next group
    rw [take]
    cases addGroup group.name group.words next <;> simp
  rw [foldlM_eq_error_iff]
  simp only [foldlM_take_eq_ok_iff, refused]
  constructor
  · rintro ⟨before, group, after, _, split, ⟨all, rfl⟩, fails⟩
    exact ⟨before, group, after, split, all, fails⟩
  · rintro ⟨before, group, after, split, all, fails⟩
    exact ⟨before, group, after, _, split, ⟨all, rfl⟩, fails⟩

/-! ## All groups at once -/

theorem Fits.acceptsAll : ∀ {draft : LexiconDraft}, draft.Fits calls → draft.AcceptsAll calls := by
  induction calls with
  | nil =>
      intro draft _
      rfl
  | cons call rest ih =>
      intro draft fits
      obtain ⟨group, added, others⟩ := fits.exists_addGroup
      exact acceptsAll_cons.mpr ⟨group, _, added, ih others⟩

theorem AcceptsAll.fits (all : empty.AcceptsAll calls) : empty.Fits calls := by
  have kept := isKept_afterGroups calls
  have groups := map_accepted calls empty
  rw [all] at groups
  have names : (empty.afterGroups calls).lexicon.names = calls.map Prod.fst := by
    rw [Lexicon.names, groups]
    simp [empty, Lexicon.empty]
  have listed : (empty.afterGroups calls).lexicon.listed = calls.flatMap Prod.snd := by
    rw [Lexicon.listed, groups]
    simp [empty, Lexicon.empty, List.flatMap_map]
  have count := groupCount_afterGroups calls
  rw [all] at count
  constructor
  case unnamed => simp [empty]
  case named =>
    rw [← names]
    exact kept.named
  case room =>
    have fits := kept.fits
    rw [count] at fits
    simpa [empty, Lexicon.empty, Lexicon.groupCount] using fits
  case matchable =>
    intro word member
    rw [← listed, Lexicon.mem_listed_iff kept.fits] at member
    obtain ⟨group, owned⟩ := member
    exact kept.sound.matchable group word owned
  case free => simp [empty, Lexicon.empty]
  case distinct =>
    rw [← listed]
    exact kept.listed

theorem Fits.of_perm (fits : draft.Fits calls) (perm : calls.Perm calls') : draft.Fits calls' := by
  have words : (calls.flatMap Prod.snd).Perm (calls'.flatMap Prod.snd) := perm.flatMap_right _
  constructor
  case unnamed => exact fun call member => fits.unnamed call (perm.mem_iff.mpr member)
  case named => exact (perm.map Prod.fst).nodup_iff.mp fits.named
  case room =>
    rw [← perm.length_eq]
    exact fits.room
  case matchable => exact fun word member => fits.matchable word (words.mem_iff.mpr member)
  case free => exact fun word member => fits.free word (words.mem_iff.mpr member)
  case distinct => exact words.nodup_iff.mp fits.distinct

/-- The order of the groups does not decide whether all of them are taken. -/
theorem AcceptsAll.of_perm (all : empty.AcceptsAll calls) (perm : calls.Perm calls') :
    empty.AcceptsAll calls' :=
  (all.fits.of_perm perm).acceptsAll

end LexiconDraft

end Highlighter

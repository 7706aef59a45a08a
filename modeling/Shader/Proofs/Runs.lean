import Mathlib.Data.List.Basic
import Mathlib.Data.List.Induction
import Mathlib.Data.List.Perm.Basic

/-! Runs of steps. A cell that each step writes to or leaves alone holds in the end what
was written to it last. Steps that do not depend on each other commute, and if no two
that do change places, a run comes to the same end: its first step can be brought to the
front of the other order, since nothing that stands before it there depends on it. -/

namespace Shader

/-! ### The last write -/

variable {α β σ : Type} {steps : List α} {write : α → Option β}

theorem getLast?_filterMap_concat (write : α → Option β) (steps : List α) (last : α) (fallback : β) :
    ((steps ++ [last]).filterMap write).getLast?.getD fallback =
      (write last).getD ((steps.filterMap write).getLast?.getD fallback) := by
  rw [List.filterMap_append, List.getLast?_append]
  cases written : write last <;> simp [written]

/-- What a cell holds after a run, if each step writes to it or leaves it alone. -/
theorem cell_foldl {take : σ → α → σ} (cell : σ → β)
    (step : ∀ state item, cell (take state item) = (write item).getD (cell state)) (steps : List α) (state : σ) :
    cell (steps.foldl take state) = (steps.filterMap write).getLast?.getD (cell state) := by
  induction steps using List.reverseRecOn with
  | nil => rfl
  | append_singleton steps last ih =>
    rw [List.foldl_concat, step, ih, getLast?_filterMap_concat]

theorem filterMap_filter_of_silent {concerns : α → Bool} (silent : ∀ step, ¬ concerns step = true → write step = none) :
    (steps.filter concerns).filterMap write = steps.filterMap write := by
  rw [List.filterMap_filter]
  refine List.filterMap_congr fun step _ => ?_
  split
  · rfl
  next other => exact (silent step other).symm

/-! ### Steps in another order -/

variable {depends : α → α → Prop} {others before after : List α} {step : α}

private theorem foldl_bring_forward {take : σ → α → σ}
    (passes : ∀ earlier ∈ before, ∀ state, take (take state earlier) step = take (take state step) earlier)
    (state : σ) : (before ++ step :: after).foldl take state = (step :: (before ++ after)).foldl take state := by
  induction before generalizing state with
  | nil => rfl
  | cons first before ih =>
    have later := ih fun earlier member => passes earlier (List.mem_cons_of_mem first member)
    rw [List.cons_append, List.foldl_cons, later, List.foldl_cons, passes first List.mem_cons_self]
    rfl

theorem filter_sort_eq_of_mem {κ : Type} [DecidableEq κ] {sort : α → κ}
    (same : ∀ step ∈ steps ++ others, steps.filter (sort · = sort step) = others.filter (sort · = sort step))
    (given : κ) : steps.filter (sort · = given) = others.filter (sort · = given) := by
  by_cases occurs : ∃ step ∈ steps ++ others, sort step = given
  · obtain ⟨step, member, rfl⟩ := occurs
    exact same step member
  · have none : ∀ list : List α, list ⊆ steps ++ others → list.filter (sort · = given) = [] := by
      intro list part
      refine List.filter_eq_nil_iff.mpr fun step member found => ?_
      exact occurs ⟨step, part member, of_decide_eq_true found⟩
    rw [none steps (List.subset_append_left _ _), none others (List.subset_append_right _ _)]

variable [DecidableEq α]

theorem filter_pair_comm (first second : α) (steps : List α) :
    steps.filter (· ∈ [first, second]) = steps.filter (· ∈ [second, first]) := by
  refine List.filter_congr fun item _ => decide_eq_decide.mpr ?_
  exact (List.Perm.swap second first []).mem_iff

theorem filter_pair_eq {sort : α → Bool} (same : steps.filter sort = others.filter sort) {first second : α}
    (one : sort first = true) (two : sort second = true) :
    steps.filter (· ∈ [first, second]) = others.filter (· ∈ [first, second]) := by
  have narrows : ∀ list : List α,
      list.filter (· ∈ [first, second]) = (list.filter sort).filter (· ∈ [first, second]) := by
    intro list
    rw [List.filter_filter]
    refine List.filter_congr fun item _ => Bool.eq_iff_iff.mpr ?_
    simp only [Bool.and_eq_true, decide_eq_true_eq, List.mem_cons, List.not_mem_nil, or_false]
    refine ⟨fun either => ⟨either, ?_⟩, And.left⟩
    rcases either with rfl | rfl
    · exact one
    · exact two
  rw [narrows steps, same, ← narrows]

/-- The same steps in another order, in which steps that depend on each other follow one
another as before. -/
structure Rearranged (depends : α → α → Prop) (steps others : List α) : Prop where
  perm : steps.Perm others
  order : ∀ first second, depends first second →
    steps.filter (· ∈ [first, second]) = others.filter (· ∈ [first, second])

namespace Rearranged

theorem of_sorts {κ : Type} [DecidableEq κ] {sort : α → κ}
    (same : ∀ given, steps.filter (sort · = given) = others.filter (sort · = given)) :
    Rearranged (sort · = sort ·) steps others where
  perm := by
    refine List.perm_iff_count.mpr fun step => ?_
    have counts : ∀ list : List α, (list.filter (sort · = sort step)).count step = list.count step :=
      fun list => List.count_filter (decide_eq_true rfl)
    rw [← counts, same, counts]
  order first second alike := filter_pair_eq (same (sort second)) (decide_eq_true alike) (decide_eq_true rfl)

private theorem not_depends (rearranged : Rearranged depends (step :: steps) (before ++ step :: after))
    (absent : step ∉ before) : ∀ earlier ∈ before, ¬ depends step earlier := by
  intro earlier member dependent
  -- of the two, the step comes first in the one order and so in the other, where it is not yet
  have listed : earlier ∈ before.filter (· ∈ [step, earlier]) := List.mem_filter.mpr ⟨member, by simp⟩
  obtain ⟨head, rest, split⟩ := List.exists_cons_of_ne_nil (List.ne_nil_of_mem listed)
  have same := rearranged.order step earlier dependent
  rw [List.filter_append, split, List.filter_cons_of_pos (by simp)] at same
  have early : head ∈ before.filter (· ∈ [step, earlier]) := split ▸ List.mem_cons_self
  rw [← (List.cons.inj same).1] at early
  exact absent (List.mem_filter.mp early).1

private theorem tail (rearranged : Rearranged depends (step :: steps) others) :
    Rearranged depends steps (others.erase step) where
  perm := by
    have same := rearranged.perm.erase step
    rwa [List.erase_cons_head] at same
  order first second dependent := by
    have same := congrArg (List.erase · step) (rearranged.order first second dependent)
    simpa only [List.erase_filter, List.erase_cons_head] using same

/-- The order of steps that commute does not matter. -/
theorem foldl_eq {take : σ → α → σ} (rearranged : Rearranged depends steps others)
    (commutes : ∀ first ∈ steps, ∀ second ∈ steps, ¬ depends first second →
      ∀ state, take (take state first) second = take (take state second) first)
    (state : σ) : steps.foldl take state = others.foldl take state := by
  induction steps generalizing others state with
  | nil => rw [rearranged.perm.nil_eq]
  | cons step steps ih =>
    obtain ⟨before, after, rfl, absent⟩ :=
      List.eq_append_cons_of_mem (rearranged.perm.subset List.mem_cons_self)
    have passes : ∀ earlier ∈ before, ∀ state,
        take (take state earlier) step = take (take state step) earlier := by
      intro earlier member state
      have listed := rearranged.perm.symm.subset (List.mem_append_left _ member)
      have apart := rearranged.not_depends absent earlier member
      exact (commutes step List.mem_cons_self earlier listed apart state).symm
    have rest := rearranged.tail
    rw [List.erase_append_right _ absent, List.erase_cons_head] at rest
    rw [foldl_bring_forward passes, List.foldl_cons, List.foldl_cons]
    refine ih rest (fun first early second late => ?_) _
    exact commutes first (List.mem_cons_of_mem step early) second (List.mem_cons_of_mem step late)

end Rearranged

end Shader

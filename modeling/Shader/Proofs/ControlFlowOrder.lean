import Shader.Proofs.ControlFlowHistory
import Shader.Proofs.Runs

/-! How far control flow depends on the order of its edits. Links apart, it does so in two
places only: a continue target belongs to the loop that named it last, and a switch takes
over the selections that were there before it and not those that come after. -/

namespace Shader.ControlFlow

namespace Edit

/-- A loop that another header has `target` for its continue target. -/
def continuesAt (target : ResultId) : Edit → Bool
  | .loop header _ named => named = target ∧ header ≠ target
  | _ => false

def announcements (merge : ResultId) : List Edit := [.insert .selectionMerge merge, .selection merge]

/-- What two edits lead to may depend on which of them comes first. -/
inductive Depends : Edit → Edit → Prop where
  | loops {target : ResultId} {first second : Edit} (one : first.continuesAt target = true)
      (other : second.continuesAt target = true) : Depends first second
  | takenOver {merge : ResultId} {announcement : Edit} (announces : announcement ∈ announcements merge) :
      Depends announcement (.switch merge)
  | announcedAgain {merge : ResultId} {announcement : Edit} (announces : announcement ∈ announcements merge) :
      Depends (.switch merge) announcement

variable {edit : Edit} {merge target : ResultId}

private theorem mem_announcements : edit ∈ announcements merge ↔ edit.Assigns .selectionMerge merge := by
  rw [assigns_iff]
  simp [announcements]

private theorem headerFor?_eq_none (unlinked : ∀ target header, edit ≠ .link target header)
    (other : ¬ edit.continuesAt target = true) : edit.headerFor? target = none := by
  cases edit with
  | link named header => exact absurd rfl (unlinked named header)
  | loop header merge named =>
    refine if_neg fun both => other ?_
    rw [continuesAt, decide_eq_true_eq, ← both.1]
    exact ⟨rfl, Ne.symm both.2⟩
  | insert | selection | switch => rfl

end Edit

variable {flow other : ControlFlow} {edit first second : Edit} {edits others : List Edit}

private theorem ext_blocks (blocks : ∀ role block, block ∈ flow.blocks role ↔ block ∈ other.blocks role)
    (headers : ∀ target : ResultId, flow.headerOf[target]? = other.headerOf[target]?) : flow = other := by
  have same : ∀ role, flow.blocks role = other.blocks role := fun role => Std.ExtTreeSet.ext_mem (blocks role)
  cases flow
  cases other
  cases same .loopHeader
  cases same .continueTarget
  cases same .loopMerge
  cases same .selectionMerge
  cases same .switchMerge
  cases Std.ExtTreeMap.ext_getElem? headers
  rfl

private theorem getElem?_headerOf_perform (unlinked : ∀ target header, edit ≠ .link target header)
    (target : ResultId) :
    (flow.perform edit).state.headerOf[target]? = (edit.headerFor? target).or flow.headerOf[target]? := by
  cases applied : flow.apply edit with
  | ok next =>
    rw [perform_of_ok applied]
    exact headerOf_apply applied target
  | error fault =>
    obtain ⟨named, header, same⟩ := eq_link_of_error applied
    exact absurd same (unlinked named header)

theorem perform_comm (flow : ControlFlow) (one : ∀ target header, first ≠ .link target header)
    (two : ∀ target header, second ≠ .link target header) (independent : ¬ first.Depends second) :
    ((flow.perform first).state.perform second).state = ((flow.perform second).state.perform first).state := by
  refine ext_blocks (fun role block => ?_) fun target => ?_
  · have spared : first.Assigns role block → ¬ second.Withdraws role block := by
      intro assigns withdraws
      obtain ⟨rfl, rfl⟩ := (second.withdraws_iff role block).mp withdraws
      exact independent (.takenOver (Edit.mem_announcements.mpr assigns))
    have sparing : second.Assigns role block → ¬ first.Withdraws role block := by
      intro assigns withdraws
      obtain ⟨rfl, rfl⟩ := (first.withdraws_iff role block).mp withdraws
      exact independent (.announcedAgain (Edit.mem_announcements.mpr assigns))
    simp only [mem_blocks_perform]
    tauto
  · have alone : first.headerFor? target = none ∨ second.headerFor? target = none := by
      by_cases continues : first.continuesAt target = true
      · exact .inr (Edit.headerFor?_eq_none two fun also => independent (.loops continues also))
      · exact .inl (Edit.headerFor?_eq_none one continues)
    rw [getElem?_headerOf_perform two, getElem?_headerOf_perform one, getElem?_headerOf_perform one,
      getElem?_headerOf_perform two]
    rcases alone with none | none
    · rw [none, Option.none_or, Option.none_or]
    · rw [none, Option.none_or, Option.none_or]

/-- Without links, a run leads to the same control flow, and so to the same answers and the
same verdict, in any order that keeps the loops of each continue target in theirs, and each
switch in its place among the edits of one sort that announce its merge. -/
theorem run_reordered (flow : ControlFlow) (unlinked : ∀ target header, .link target header ∉ edits)
    (perm : edits.Perm others)
    (loops : ∀ target, edits.filter (·.continuesAt target) = others.filter (·.continuesAt target))
    (merges : ∀ merge, ∀ announcement ∈ [Edit.insert .selectionMerge merge, .selection merge],
      edits.filter (· ∈ [.switch merge, announcement]) = others.filter (· ∈ [.switch merge, announcement])) :
    flow.run edits = flow.run others := by
  have rearranged : Rearranged Edit.Depends edits others := by
    refine ⟨perm, fun first second dependent => ?_⟩
    cases dependent with
    | loops one other => exact filter_pair_eq (loops _) one other
    | announcedAgain announces => exact merges _ _ announces
    | takenOver announces =>
      rw [filter_pair_comm _ _ edits, filter_pair_comm _ _ others]
      exact merges _ _ announces
  refine rearranged.foldl_eq (fun first early second late independent flow => ?_) flow
  have noLink : ∀ edit ∈ edits, ∀ target header, edit ≠ .link target header := by
    rintro edit member target header rfl
    exact unlinked target header member
  exact perform_comm flow (noLink first early) (noLink second late) independent

/-- Two loops that share a continue target, which also heads a loop of its own, and a block that
ends a switch announced twice, a loop and an earlier selection. -/
def busyBlocks : List Edit :=
  [.loop ⟨1⟩ ⟨2⟩ ⟨3⟩, .insert .selectionMerge ⟨4⟩, .selection ⟨4⟩, .switch ⟨4⟩, .selection ⟨2⟩,
    .loop ⟨3⟩ ⟨4⟩ ⟨3⟩, .loop ⟨5⟩ ⟨2⟩ ⟨3⟩, .insert .switchMerge ⟨2⟩]

def busyBlocksReordered : List Edit :=
  [.insert .switchMerge ⟨2⟩, .loop ⟨3⟩ ⟨4⟩ ⟨3⟩, .selection ⟨4⟩, .insert .selectionMerge ⟨4⟩,
    .loop ⟨1⟩ ⟨2⟩ ⟨3⟩, .switch ⟨4⟩, .loop ⟨5⟩ ⟨2⟩ ⟨3⟩, .selection ⟨2⟩]

theorem run_reordered_busyBlocks : busyBlocks.Perm busyBlocksReordered ∧
    run {} busyBlocks = run {} busyBlocksReordered ∧
    (run {} busyBlocksReordered).headerOf[(⟨3⟩ : ResultId)]? = some ⟨5⟩ ∧
    (run {} busyBlocksReordered).selectionMerges.toList = [⟨2⟩] := by
  have perm : busyBlocks.Perm busyBlocksReordered := by decide
  refine ⟨perm, run_reordered {} ?_ perm ?_ ?_, by decide, by decide⟩
  · intro target header
    simp [busyBlocks]
  · intro target
    by_cases shared : target = ⟨3⟩
    · subst shared
      decide
    · simp [busyBlocks, busyBlocksReordered, Edit.continuesAt, Ne.symm shared]
  · intro merge
    by_cases announced : merge = ⟨4⟩ ∨ merge = ⟨2⟩
    · rcases announced with rfl | rfl <;> decide
    · obtain ⟨four, two⟩ := not_or.mp announced
      simp [busyBlocks, busyBlocksReordered, Ne.symm four, Ne.symm two]

end Shader.ControlFlow

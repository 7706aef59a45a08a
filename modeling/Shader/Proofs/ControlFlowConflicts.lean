import Shader.Proofs.ControlFlowHistory
import Shader.Proofs.ControlFlowSoundness

/-! How a block that is a merge of two sorts fares under later edits. Only a switch takes
a merge role away, and it takes a selection merge from its own block and leaves a switch
merge there. So an overlap that a loop merge is part of stays for good, and any other is
ended by a switch of the block and by nothing else. -/

namespace Shader.ControlFlow

/-- The block is a loop merge and a merge of another sort. -/
def Entrenched (flow : ControlFlow) (block : ResultId) : Prop :=
  block ∈ flow.loopMerges ∧ (block ∈ flow.selectionMerges ∨ block ∈ flow.switchMerges)

/-- The block is a switch merge and no merge of another sort. -/
def SwitchOnly (flow : ControlFlow) (block : ResultId) : Prop :=
  block ∈ flow.switchMerges ∧ block ∉ flow.selectionMerges ∧ block ∉ flow.loopMerges

variable {flow next : ControlFlow} {edit : Edit} {edits : List Edit} {block : ResultId}

theorem Entrenched.overlaps (entrenched : flow.Entrenched block) : flow.Overlaps block := by
  obtain ⟨loop, selection | switch⟩ := entrenched
  · exact .inl ⟨loop, selection⟩
  · exact .inr (.inl ⟨loop, switch⟩)

private theorem Overlaps.mono (overlapping : flow.Overlaps block)
    (kept : ∀ role, block ∈ flow.blocks role → block ∈ next.blocks role) : next.Overlaps block := by
  rcases overlapping with ⟨loop, selection⟩ | ⟨loop, switch⟩ | ⟨selection, switch⟩
  · exact .inl ⟨kept .loopMerge loop, kept .selectionMerge selection⟩
  · exact .inr (.inl ⟨kept .loopMerge loop, kept .switchMerge switch⟩)
  · exact .inr (.inr ⟨kept .selectionMerge selection, kept .switchMerge switch⟩)

theorem Overlaps.fault?_ne_none (overlapping : flow.Overlaps block) : flow.fault? ≠ none := by
  rw [fault?, ne_eq, Option.or_eq_none_iff, Option.map_eq_none_iff, overlap?_eq_none]
  exact fun sound => sound.2 block overlapping

/-! ### One edit -/

private theorem mem_blocks_perform_of_mem (role : Role) (member : block ∈ flow.blocks role)
    (spared : role = .selectionMerge → edit ≠ .switch block) : block ∈ (flow.perform edit).state.blocks role := by
  refine (mem_blocks_perform role block).mpr (.inr ⟨member, ?_⟩)
  rw [Edit.withdraws_iff]
  exact fun withdrawn => spared withdrawn.1 withdrawn.2

private theorem Overlaps.perform (overlapping : flow.Overlaps block) (other : edit ≠ .switch block) :
    (flow.perform edit).state.Overlaps block :=
  overlapping.mono fun role member => mem_blocks_perform_of_mem role member fun _ => other

private theorem Entrenched.perform (entrenched : flow.Entrenched block) (edit : Edit) :
    (flow.perform edit).state.Entrenched block := by
  obtain ⟨loop, selection | switch⟩ := entrenched
  · refine ⟨mem_blocks_perform_of_mem .loopMerge loop nofun, ?_⟩
    by_cases taken : edit = .switch block
    · -- the selection merge is taken over, and the overlap is now with a switch merge
      exact .inr ((mem_blocks_perform .switchMerge block).mpr (.inl (taken ▸ rfl)))
    · exact .inl (mem_blocks_perform_of_mem .selectionMerge selection fun _ => taken)
  · exact ⟨mem_blocks_perform_of_mem .loopMerge loop nofun, .inr (mem_blocks_perform_of_mem .switchMerge switch nofun)⟩

private theorem not_mem_loopMerges_perform (apart : block ∉ flow.loopMerges)
    (unassigned : ¬ edit.Assigns .loopMerge block) : block ∉ (flow.perform edit).state.loopMerges := by
  intro member
  rcases (mem_blocks_perform .loopMerge block).mp member with assigned | ⟨before, _⟩
  · exact unassigned assigned
  · exact apart before

private theorem switchOnly_perform (apart : block ∉ flow.loopMerges) :
    (flow.perform (.switch block)).state.SwitchOnly block := by
  refine ⟨(mem_blocks_perform .switchMerge block).mpr (.inl rfl), ?_, not_mem_loopMerges_perform apart id⟩
  intro member
  rcases (mem_blocks_perform .selectionMerge block).mp member with assigned | ⟨_, kept⟩
  · exact assigned
  · exact kept rfl

/-! ### A run of edits -/

theorem Overlaps.run (overlapping : flow.Overlaps block) (other : .switch block ∉ edits) :
    (flow.run edits).Overlaps block := by
  refine run_keeps (Overlaps · block) overlapping fun flow held edit member => held.perform ?_
  rintro rfl
  exact other member

theorem Entrenched.run (entrenched : flow.Entrenched block) (edits : List Edit) : (flow.run edits).Entrenched block :=
  run_keeps (Entrenched · block) entrenched fun _ held edit _ => held.perform edit

theorem not_mem_loopMerges_run (apart : block ∉ flow.loopMerges)
    (unassigned : ∀ edit ∈ edits, ¬ edit.Assigns .loopMerge block) : block ∉ (flow.run edits).loopMerges :=
  run_keeps (block ∉ ·.loopMerges) apart fun _ held edit member =>
    not_mem_loopMerges_perform held (unassigned edit member)

/-- An overlap with a loop merge is never sound again. One of a selection merge and a
switch merge lasts until the switch is registered anew, which resolves it unless the
block has become a loop merge. -/
theorem overlap_ends_by_switch (flow : ControlFlow) (block : ResultId) :
    (flow.Entrenched block → ∀ edits, (flow.run edits).Overlaps block ∧ (flow.run edits).fault? ≠ none) ∧
    (block ∈ flow.selectionMerges → block ∈ flow.switchMerges → block ∉ flow.loopMerges → ∀ edits,
      (.switch block ∉ edits → (flow.run edits).Overlaps block) ∧
      (∀ last, (flow.run edits).Overlaps block → ¬ (flow.run (edits ++ [last])).Overlaps block →
        last = .switch block) ∧
      ((∀ edit ∈ edits, ¬ edit.Assigns .loopMerge block) →
        (flow.run (edits ++ [.switch block])).SwitchOnly block)) := by
  constructor
  · intro entrenched edits
    have overlapping := (entrenched.run edits).overlaps
    exact ⟨overlapping, overlapping.fault?_ne_none⟩
  · intro selection switch apart edits
    refine ⟨?_, ?_, ?_⟩
    · exact Overlaps.run (.inr (.inr ⟨selection, switch⟩))
    · intro last overlapping resolved
      rw [run_concat] at resolved
      exact Decidable.byContradiction fun other => resolved (overlapping.perform other)
    · intro unassigned
      rw [run_concat]
      exact switchOnly_perform (not_mem_loopMerges_run apart unassigned)

/-- Block 2 ends a loop and a selection, and block 5 a switch that a selection followed. -/
def twoConflicts : ControlFlow := run {}
  [.loop ⟨1⟩ ⟨2⟩ ⟨3⟩, .selection ⟨2⟩, .switch ⟨5⟩, .selection ⟨5⟩]

theorem overlap_ends_by_switch_twoConflicts :
    twoConflicts.Entrenched ⟨2⟩ ∧ (twoConflicts.run [.switch ⟨2⟩, .switch ⟨5⟩]).fault? ≠ none ∧
    (twoConflicts.run [.loop ⟨5⟩ ⟨6⟩ ⟨5⟩, .link ⟨5⟩ ⟨1⟩]).Overlaps ⟨5⟩ ∧
    (twoConflicts.run [.loop ⟨5⟩ ⟨6⟩ ⟨5⟩, .link ⟨5⟩ ⟨1⟩, .switch ⟨5⟩]).SwitchOnly ⟨5⟩ := by
  have entrenched : twoConflicts.Entrenched ⟨2⟩ := ⟨by decide, .inl (by decide)⟩
  have forever := (overlap_ends_by_switch twoConflicts ⟨2⟩).1 entrenched
  have pending := (overlap_ends_by_switch twoConflicts ⟨5⟩).2 (by decide) (by decide) (by decide)
  obtain ⟨lasts, _, resolved⟩ := pending [.loop ⟨5⟩ ⟨6⟩ ⟨5⟩, .link ⟨5⟩ ⟨1⟩]
  exact ⟨entrenched, (forever _).2, lasts (by decide), resolved (by simp [Edit.Assigns])⟩

end Shader.ControlFlow

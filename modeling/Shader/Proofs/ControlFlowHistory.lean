import Mathlib.Data.List.Induction
import Shader.Proofs.ControlFlowRuns

/-! What the edits made so far, refused ones among them, say about the control
flow they lead to. Every role but one is kept for good; a selection merge is lost
to a later switch, and the header of a continue target is the last it was joined to. -/

namespace Shader.ControlFlow

variable {edits : List Edit}

/-- Some edit began it, and no edit since then has put an end to it. Both may
depend on the edits before. -/
def Since (begins ends : List Edit → Edit → Prop) (edits : List Edit) : Prop :=
  ∃ before edit after, edits = before ++ edit :: after ∧ begins before edit ∧
    ∀ earlier later rest, after = earlier ++ later :: rest →
      ¬ ends (before ++ edit :: earlier) later

namespace Since

variable {begins ends : List Edit → Edit → Prop}

private theorem not_nil : ¬ Since begins ends [] := by
  intro since
  obtain ⟨before, edit, after, split, _⟩ := since
  simp at split

private theorem concat {last : Edit} : Since begins ends (edits ++ [last]) ↔
    begins edits last ∨ Since begins ends edits ∧ ¬ ends edits last := by
  constructor
  · intro since
    obtain ⟨before, edit, after, split, begun, kept⟩ := since
    rcases List.eq_nil_or_concat after with rfl | ⟨others, final, rfl⟩
    · obtain ⟨rfl, rfl⟩ := List.append_singleton_inj.mp split
      exact .inl begun
    · rw [List.concat_eq_append, ← List.cons_append, ← List.append_assoc] at split
      obtain ⟨rfl, rfl⟩ := List.append_singleton_inj.mp split
      refine .inr ⟨⟨before, edit, others, rfl, begun, ?_⟩, kept others last [] (by simp)⟩
      intro earlier later rest found
      subst found
      exact kept earlier later (rest ++ [last]) (by simp)
  · intro since
    rcases since with begun | ⟨⟨before, edit, after, rfl, begun, kept⟩, spared⟩
    · exact ⟨edits, last, [], rfl, begun, by simp⟩
    · refine ⟨before, edit, after ++ [last], by simp, begun, ?_⟩
      intro earlier later rest split
      rcases List.eq_nil_or_concat rest with rfl | ⟨others, final, rfl⟩
      · obtain ⟨rfl, rfl⟩ := List.append_singleton_inj.mp split
        exact spared
      · rw [List.concat_eq_append, ← List.cons_append, ← List.append_assoc] at split
        exact kept earlier later others (List.append_singleton_inj.mp split).1

private theorem iff_exists_mem {begins : Edit → Prop} (endless : ∀ before edit, ¬ ends before edit) :
    Since (fun _ => begins) ends edits ↔ ∃ edit ∈ edits, begins edit := by
  constructor
  · intro since
    obtain ⟨before, edit, after, rfl, begun, _⟩ := since
    exact ⟨edit, by simp, begun⟩
  · intro occurred
    obtain ⟨edit, member, begun⟩ := occurred
    obtain ⟨before, after, rfl⟩ := List.append_of_mem member
    exact ⟨before, edit, after, rfl, begun, fun _ _ _ _ => endless _ _⟩

end Since

theorem mem_blocks_run (edits : List Edit) (role : Role) (block : ResultId) :
    block ∈ (run {} edits).blocks role ↔
      Since (fun _ edit => edit.Assigns role block) (fun _ edit => edit.Withdraws role block) edits := by
  induction edits using List.reverseRecOn with
  | nil =>
    refine iff_of_false ?_ Since.not_nil
    cases role <;> exact Std.ExtTreeSet.not_mem_empty
  | append_singleton edits last ih => rw [run_concat, mem_blocks_perform, Since.concat, ih]

theorem headerOf_run (edits : List Edit) (target header : ResultId) :
    (run {} edits).headerOf[target]? = some header ↔
      Since (fun before edit => Joins (run {} before) edit target header)
        (fun before edit => ∃ other, Joins (run {} before) edit target other) edits := by
  induction edits using List.reverseRecOn with
  | nil =>
    refine iff_of_false ?_ Since.not_nil
    simp [run]
  | append_singleton edits last ih => rw [run_concat, headerOf_perform, Since.concat, ih]

private theorem headerOf_run_eq_none (edits : List Edit) (target : ResultId) :
    (run {} edits).headerOf[target]? = none ↔ ∀ before edit after, edits = before ++ edit :: after →
      ∀ header, ¬ Joins (run {} before) edit target header := by
  have occurs : (∃ header : ResultId, (run {} edits).headerOf[target]? = some header) ↔
      Since (fun before edit => ∃ header, Joins (run {} before) edit target header)
        (fun _ _ => False) edits := by
    induction edits using List.reverseRecOn with
    | nil =>
      refine iff_of_false ?_ Since.not_nil
      simp [run]
    | append_singleton edits last ih =>
      rw [Since.concat, ← ih, run_concat]
      simp only [headerOf_perform]
      grind
  rw [← Option.not_isSome_iff_eq_none, Option.isSome_iff_exists, occurs]
  simp [Since]

theorem Edit.assigns_iff (edit : Edit) (role : Role) (block : ResultId) : edit.Assigns role block ↔
    edit = .insert role block ∨ match role with
      | .loopHeader => ∃ merge target, edit = .loop block merge target
      | .continueTarget => ∃ header merge, edit = .loop header merge block ∧ block ≠ header
      | .loopMerge => ∃ header target, edit = .loop header block target
      | .selectionMerge => edit = .selection block
      | .switchMerge => edit = .switch block := by
  cases edit <;> cases role <;> simp [Assigns]
  case loop.continueTarget =>
    intro same
    rw [same]

/-- A role that no edit takes away is played by whoever was once put into it. -/
theorem mem_blocks_run_of_kept (edits : List Edit) (role : Role) (kept : role ≠ .selectionMerge)
    (block : ResultId) :
    block ∈ (run {} edits).blocks role ↔ ∃ edit ∈ edits, edit.Assigns role block := by
  refine (mem_blocks_run edits role block).trans (Since.iff_exists_mem fun _ edit => ?_)
  exact edit.not_withdraws role kept block

private theorem exists_assigns_iff (edits : List Edit) (role : Role) (block : ResultId) :
    (∃ edit ∈ edits, edit.Assigns role block) ↔ .insert role block ∈ edits ∨ match role with
      | .loopHeader => ∃ merge target, .loop block merge target ∈ edits
      | .continueTarget => ∃ header merge, .loop header merge block ∈ edits ∧ block ≠ header
      | .loopMerge => ∃ header target, .loop header block target ∈ edits
      | .selectionMerge => .selection block ∈ edits
      | .switchMerge => .switch block ∈ edits := by
  simp only [Edit.assigns_iff]
  cases role <;> grind

/-- The control flow is what the edits, made from scratch, say about the blocks. -/
structure Records (edits : List Edit) (flow : ControlFlow) : Prop where
  loopHeaders : ∀ block, block ∈ flow.loopHeaders ↔
    .insert .loopHeader block ∈ edits ∨ ∃ merge target, .loop block merge target ∈ edits
  continueTargets : ∀ block, block ∈ flow.continueTargets ↔
    .insert .continueTarget block ∈ edits ∨
      ∃ header merge, .loop header merge block ∈ edits ∧ block ≠ header
  loopMerges : ∀ block, block ∈ flow.loopMerges ↔
    .insert .loopMerge block ∈ edits ∨ ∃ header target, .loop header block target ∈ edits
  switchMerges : ∀ block, block ∈ flow.switchMerges ↔
    .insert .switchMerge block ∈ edits ∨ .switch block ∈ edits
  selectionMerges : ∀ block, block ∈ flow.selectionMerges ↔
    Since (fun _ edit => edit = .insert .selectionMerge block ∨ edit = .selection block)
      (fun _ edit => edit = .switch block) edits
  /-- The last edit to join the continue target decides. -/
  headers : ∀ target header : ResultId, flow.headerOf[target]? = some header ↔
    Since (fun before edit => Joins (run {} before) edit target header)
      (fun before edit => ∃ other, Joins (run {} before) edit target other) edits
  unjoined : ∀ target : ResultId, flow.headerOf[target]? = none ↔
    ∀ before edit after, edits = before ++ edit :: after →
      ∀ header, ¬ Joins (run {} before) edit target header
  accepts : ∀ target header, (flow.perform (.link target header)).fault? = none ↔
    (∃ edit ∈ edits, edit.Assigns .continueTarget target) ∧
      ∃ edit ∈ edits, edit.Assigns .loopHeader header
  refuses : ∀ target header fault, (flow.perform (.link target header)).fault? = some fault →
    (flow.perform (.link target header)).state = flow ∧
      ((¬ ∃ edit ∈ edits, edit.Assigns .continueTarget target) ∧ fault = .unlistedContinue target ∨
        (∃ edit ∈ edits, edit.Assigns .continueTarget target) ∧
          (¬ ∃ edit ∈ edits, edit.Assigns .loopHeader header) ∧ fault = .unlistedHeader target header)

theorem records_run (edits : List Edit) : Records edits (run {} edits) where
  loopHeaders block := (mem_blocks_run_of_kept edits .loopHeader nofun block).trans
    (exists_assigns_iff edits .loopHeader block)
  continueTargets block := (mem_blocks_run_of_kept edits .continueTarget nofun block).trans
    (exists_assigns_iff edits .continueTarget block)
  loopMerges block := (mem_blocks_run_of_kept edits .loopMerge nofun block).trans
    (exists_assigns_iff edits .loopMerge block)
  switchMerges block := (mem_blocks_run_of_kept edits .switchMerge nofun block).trans
    (exists_assigns_iff edits .switchMerge block)
  selectionMerges block := by
    refine (mem_blocks_run edits .selectionMerge block).trans ?_
    simp only [Edit.assigns_iff, Edit.withdraws_iff, true_and]
  headers := headerOf_run edits
  unjoined := headerOf_run_eq_none edits
  accepts target header := by
    have listed := mem_blocks_run_of_kept edits .continueTarget nofun target
    have opened := mem_blocks_run_of_kept edits .loopHeader nofun header
    rw [← listed, ← opened]
    exact perform_link_accepted
  refuses target header fault refused := by
    have listed := mem_blocks_run_of_kept edits .continueTarget nofun target
    have opened := mem_blocks_run_of_kept edits .loopHeader nofun header
    rw [← listed, ← opened]
    exact perform_link_refused refused

end Shader.ControlFlow

import Shader.Proofs.IdMinting
import Shader.Proofs.ModuleComponents

/-! The verdict on a module that came about by edits. Two of its checks can fail,
the one for merges of two sorts and the one for ids past the bound; what the
others look for is kept out by every edit. -/

namespace Shader.Module

variable {m : Module}

/-- The verdict on a module, read off what is recorded in it. -/
inductive Verdict (m : Module) : Option Fault → Prop where
  | overlap {block : ResultId} (least : Least m.controlFlow.Overlaps block) :
      Verdict m (some (.mergeOverlap block))
  | stray {id : ResultId} (apart : ∀ block, ¬ m.controlFlow.Overlaps block)
      (least : Least (fun id => m.controlFlow.Mentions id ∧ m.bound ≤ id.index) id) :
      Verdict m (some (.outOfBounds id m.bound))
  | sound (apart : ∀ block, ¬ m.controlFlow.Overlaps block)
      (inside : ∀ id, m.controlFlow.Mentions id → id.index < m.bound) : Verdict m none

namespace Verdict

theorem of_coherent (coherent : m.Coherent) : Verdict m m.fault? := by
  rw [coherent.fault?_eq]
  cases overlapping : m.controlFlow.overlap? with
  | some block => exact .overlap (ControlFlow.overlap?_eq_some.mp overlapping)
  | none =>
    have apart := ControlFlow.overlap?_eq_none.mp overlapping
    cases strayed : m.controlFlow.stray? m.bound with
    | some id => exact .stray apart ((ControlFlow.stray?_eq_some coherent.linked).mp strayed)
    | none => exact .sound apart ((ControlFlow.stray?_eq_none coherent.linked).mp strayed)

theorem unique {first second : Option Fault} (a : Verdict m first) (b : Verdict m second) :
    first = second := by
  cases a with
  | overlap least =>
    cases b with
    | overlap other => rw [least.unique other]
    | stray apart _ | sound apart _ => exact absurd least.has (apart _)
  | stray apart least =>
    cases b with
    | overlap other => exact absurd other.has (apart _)
    | stray _ other => rw [least.unique other]
    | sound _ inside => exact absurd (inside _ least.has.1) (Nat.not_lt.mpr least.has.2)
  | sound apart inside =>
    cases b with
    | overlap other => exact absurd other.has (apart _)
    | stray _ other => exact absurd (inside _ other.has.1) (Nat.not_lt.mpr other.has.2)
    | sound => rfl

end Verdict

/-- The verdict on a module is the one its control flow and its bound call for.
Its stores, its links and its default entry point never give cause for another. -/
theorem fault?_exact (m : Module) (reached : m.Reachable) :
    (∀ verdict, m.fault? = verdict ↔ Verdict m verdict) ∧
    (∀ entities annotations, m.fault? ≠ some (.unequalStores entities annotations)) ∧
    (∀ block, m.fault? ≠ some (.unlistedContinue block)) ∧
    (∀ block header, m.fault? ≠ some (.unlistedHeader block header)) ∧
    ∀ id, m.fault? ≠ some (.unknownDefault id) := by
  have verdict := Verdict.of_coherent reached.coherent
  refine ⟨fun other => ⟨fun same => same ▸ verdict, verdict.unique⟩, ?_, ?_, ?_, ?_⟩
  all_goals
    intros
    intro same
    rw [same] at verdict
    cases verdict

/-- A loop inside the bound, a selection that ends past it, and a link that is refused. -/
def strayMerge : Module := (ofWords []).run [.growTo 4, .controlFlow (.loop ⟨1⟩ ⟨2⟩ ⟨3⟩),
  .controlFlow (.selection ⟨9⟩), .controlFlow (.link ⟨7⟩ ⟨1⟩)]

theorem fault?_strayMerge : strayMerge.Reachable ∧ Verdict strayMerge (some (.outOfBounds ⟨9⟩ 4)) := by
  have reached : strayMerge.Reachable := (Reachable.words []).run _
  exact ⟨reached, ((fault?_exact strayMerge reached).1 _).mp (by decide)⟩

/-! ### Changes of the verdict

It hangs on the control flow and the bound alone, so edits of other components never change it.
A larger bound resolves no overlap and causes no fault: it lets ids in, from the least one upwards. -/

variable {next : Module}

private theorem Coherent.fault?_eq_of_verdict {verdict : Option Fault} (coherent : m.Coherent)
    (given : Verdict m verdict) : m.fault? = verdict :=
  (Verdict.of_coherent coherent).unique given

private theorem Coherent.verdict {verdict : Option Fault} (coherent : m.Coherent) (found : m.fault? = verdict) :
    Verdict m verdict :=
  found ▸ Verdict.of_coherent coherent

private theorem Coherent.fault?_congr (coherent : m.Coherent) (after : next.Coherent)
    (controlFlow : next.controlFlow = m.controlFlow) (bound : next.bound = m.bound) : next.fault? = m.fault? := by
  rw [coherent.fault?_eq, after.fault?_eq, controlFlow, bound]

/-- How a verdict changes when no more is done to a module than to raise its bound. -/
structure RaisesBound (before after : Module) : Prop where
  sound : before.fault? = none → after.fault? = none
  overlap : ∀ block, before.fault? = some (.mergeOverlap block) → after.fault? = some (.mergeOverlap block)
  stillStray : ∀ id, before.fault? = some (.outOfBounds id before.bound) → after.bound ≤ id.index →
    after.fault? = some (.outOfBounds id after.bound)
  /-- The id that is let in was the least stray one, so only larger ones can be left. -/
  letIn : ∀ id, before.fault? = some (.outOfBounds id before.bound) → id.index < after.bound →
    after.fault? = none ∨ ∃ other, id.index < other.index ∧ after.fault? = some (.outOfBounds other after.bound)
  /-- The bound leaves no id of the control flow outside. -/
  past : (∀ block, ¬ before.controlFlow.Overlaps block) →
    (∀ id ∈ before.controlFlow.ids, id.index < after.bound) → after.fault? = none

private theorem Coherent.raisesBound (coherent : m.Coherent) (after : next.Coherent)
    (controlFlow : next.controlFlow = m.controlFlow) (grown : m.bound ≤ next.bound) : RaisesBound m next where
  sound found := by
    cases coherent.verdict found with
    | sound apart inside =>
      rw [← controlFlow] at apart inside
      exact after.fault?_eq_of_verdict (.sound apart fun id known => Nat.lt_of_lt_of_le (inside id known) grown)
  overlap block found := by
    cases coherent.verdict found with
    | overlap least =>
      rw [← controlFlow] at least
      exact after.fault?_eq_of_verdict (.overlap least)
  stillStray id found past := by
    cases coherent.verdict found with
    | stray apart least =>
      rw [← controlFlow] at apart least
      exact after.fault?_eq_of_verdict (.stray apart (least.of_le grown past))
  letIn id found inside := by
    cases coherent.verdict found with
    | stray apart _ =>
      have verdict := Verdict.of_coherent after
      generalize next.fault? = result at verdict ⊢
      cases verdict with
      | overlap least =>
        rw [controlFlow] at least
        exact absurd least.has (apart _)
      | stray _ least => exact .inr ⟨_, Nat.lt_of_lt_of_le inside least.has.2, rfl⟩
      | sound => exact .inl rfl
  past apart inside := by
    rw [← controlFlow] at apart inside
    exact after.fault?_eq_of_verdict (.sound apart fun id known => inside id (after.linked.mem_ids.mpr known))

theorem Reachable.fault?_perform {edit : Edit} {component : Component} (reached : m.Reachable)
    (concerns : edit.component? = some component) (other : component ≠ .controlFlow) :
    (m.perform edit).state.fault? = m.fault? := by
  have controlFlow : (m.perform edit).state.controlFlow = m.controlFlow :=
    content_perform_of_ne concerns (Ne.symm other)
  exact reached.coherent.fault?_congr (reached.edit edit).coherent controlFlow (bound_perform concerns)

theorem Reachable.raisesBound {edit : Edit} (reached : m.Reachable) (growth : edit.component? = none) :
    RaisesBound m (m.perform edit).state := by
  have controlFlow : (m.perform edit).state.controlFlow = m.controlFlow := by
    cases edit with
    | growTo | mint => exact controlFlow_perform m _
    | _ => cases growth
  exact reached.coherent.raisesBound (reached.edit edit).coherent controlFlow (bound_le_run m [edit])

/-- The verdict on a module is only changed by edits of its control flow and by growth,
and growth changes no more of it than which ids are out of bounds. -/
theorem verdict_changes (m : Module) (reached : m.Reachable) :
    (∀ edit component, edit.component? = some component → component ≠ .controlFlow →
      (m.perform edit).state.fault? = m.fault?) ∧
    (∀ bound, RaisesBound m (m.perform (.growTo bound)).state) ∧
    ∀ count, RaisesBound m (m.perform (.mint count)).state := by
  refine ⟨?_, ?_, ?_⟩
  · exact fun edit component concerns other => reached.fault?_perform concerns other
  · exact fun bound => reached.raisesBound rfl
  · exact fun count => reached.raisesBound rfl

/-- A default that is refused changes nothing; the merge past the bound is let in by the second growth. -/
theorem verdict_changes_strayMerge : strayMerge.Reachable ∧
    (strayMerge.perform (.entryPoint (.choose ⟨1⟩))).fault? = some (.unknownDefault ⟨1⟩) ∧
    (strayMerge.perform (.entryPoint (.choose ⟨1⟩))).state.fault? = some (.outOfBounds ⟨9⟩ 4) ∧
    (strayMerge.perform (.mint 2)).state.fault? = some (.outOfBounds ⟨9⟩ 6) ∧
    (strayMerge.perform (.growTo 10)).state.fault? = none := by
  have reached : strayMerge.Reachable := (Reachable.words []).run _
  have stray : strayMerge.fault? = some (.outOfBounds ⟨9⟩ 4) := by decide
  obtain ⟨kept, grown, minted⟩ := verdict_changes strayMerge reached
  refine ⟨reached, by decide, ?_, ?_, ?_⟩
  · exact (kept _ .entryPoints rfl nofun).trans stray
  · exact (minted 2).stillStray ⟨9⟩ stray (by decide)
  · have apart : ∀ block, ¬ strayMerge.controlFlow.Overlaps block := ControlFlow.overlap?_eq_none.mp (by decide)
    exact (grown 10).past apart (by decide)

end Shader.Module

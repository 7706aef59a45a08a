import Shader.Proofs.ArrayLengthMarking
import Shader.Proofs.EditSteps

/-! What a refused edit leaves behind. Every edit that comes in steps makes its checks
before its first write, and so leaves the module as it was. A walk checks the ids one by
one as it meets them, and leaves the marks it has made. -/

namespace Shader.Module

namespace Step

def isWrite : Step → Bool
  | .check _ => false
  | .write _ => true

variable {id target header : ResultId}

@[simp] theorem isWrite_write (change : Module → Module) : (write change).isWrite = true := rfl
@[simp] theorem isWrite_require (holds : Module → Prop) [DecidablePred holds] (fault : Module → Fault) :
    (require holds fault).isWrite = false := rfl
@[simp] theorem isWrite_inBounds : (inBounds id).isWrite = false := rfl
@[simp] theorem isWrite_entities (change : EntityStore → EntityStore) : (entities change).isWrite = true := rfl
@[simp] theorem isWrite_record (change : Annotations → Annotations) : (record id change).isWrite = true := rfl
@[simp] theorem isWrite_annotations (change : AnnotationStore → AnnotationStore) :
    (annotations change).isWrite = true := rfl
@[simp] theorem isWrite_controlFlow (change : ControlFlow → ControlFlow) :
    (controlFlow change).isWrite = true := rfl
@[simp] theorem isWrite_link : (link target header).isWrite = true := rfl
@[simp] theorem isWrite_entryPoints (change : EntryPointTable → EntryPointTable) :
    (entryPoints change).isWrite = true := rfl

end Step

/-- No check stands behind a write. -/
def ChecksFirst (steps : List Step) : Prop :=
  steps.Pairwise fun earlier later => earlier.isWrite → later.isWrite

variable {m : Module} {edit : Edit} {steps : List Step} {fault : Fault}

private theorem follow_writes (writes : ∀ step ∈ steps, step.isWrite) : (m.follow steps).fault? = none := by
  induction steps generalizing m with
  | nil => rfl
  | cons step rest ih =>
    cases step with
    | check fault? => cases writes _ List.mem_cons_self
    | write change => exact ih fun later member => writes later (List.mem_cons_of_mem _ member)

theorem ChecksFirst.unchanged (ordered : ChecksFirst steps) (refused : (m.follow steps).fault? = some fault) :
    (m.follow steps).state = m := by
  induction steps with
  | nil => rfl
  | cons step rest ih =>
    obtain ⟨behind, later⟩ := List.pairwise_cons.mp ordered
    cases step with
    | check fault? =>
      rw [follow] at refused ⊢
      cases verdict : fault? m with
      | some found => rfl
      | none =>
        rw [verdict] at refused
        exact ih later refused
    | write change =>
      have accepted := follow_writes (m := change m) fun next member => behind next member rfl
      rw [follow, accepted] at refused
      cases refused

private theorem checksFirst_controlFlowSteps (edit : ControlFlow.Edit) :
    ChecksFirst (Edit.controlFlowSteps edit) := by
  cases edit with
  | loop header merge target =>
    rw [Edit.controlFlowSteps]
    split <;> simp [ChecksFirst]
  | insert | link | selection | switch => simp [Edit.controlFlowSteps, ChecksFirst]

private theorem checksFirst_entryPointSteps (edit : EntryPointTable.Edit) :
    ChecksFirst (Edit.entryPointSteps edit) := by
  cases edit <;> simp [Edit.entryPointSteps, ChecksFirst]

theorem checksFirst_steps (listed : edit.steps? = some steps) : ChecksFirst steps := by
  cases edit with
  | entity edit =>
    cases edit with
    | put | modify =>
      cases listed
      simp [ChecksFirst]
    | markArrayLength => cases listed
  | controlFlow edit =>
    cases listed
    exact checksFirst_controlFlowSteps edit
  | entryPoint edit =>
    cases listed
    exact checksFirst_entryPointSteps edit
  | growTo | mint | annotate | setSource | declare =>
    cases listed
    simp [ChecksFirst]

private theorem steps?_eq_none (unlisted : edit.steps? = none) :
    ∃ start, edit = .entity (.markArrayLength start) := by
  cases edit with
  | entity edit =>
    cases edit with
    | put | modify => cases unlisted
    | markArrayLength start => exact ⟨start, rfl⟩
  | _ => cases unlisted

/-- Accepted or refused, a walk marks constants that it reaches. -/
theorem marks_of_markArrayLength (m : Module) (start : ResultId) :
    ∃ chosen, (∀ id, chosen id → m.entities.Reaches start id) ∧
      Marks chosen m (m.perform (.entity (.markArrayLength start))).state := by
  obtain ⟨ids, state, reached⟩ := EntityStore.exists_state_markArrayLength m.entities start
  refine ⟨(· ∈ ids), reached, ?_⟩
  rw [perform_markArrayLength, Outcome.map, state]
  exact Marks.of_mark m ids

/-- A refused edit has changed nothing, except that a walk has marked some of the
constants it reached. -/
theorem refused_unchanged (m : Module) (edit : Edit) (fault : Fault)
    (refused : (m.perform edit).fault? = some fault) :
    (∃ steps, edit.steps? = some steps ∧ m.follow steps = m.perform edit ∧ (m.perform edit).state = m) ∨
    ∃ start chosen, edit = .entity (.markArrayLength start) ∧
      (∀ id, chosen id → m.entities.Reaches start id) ∧ Marks chosen m (m.perform edit).state := by
  cases listed : edit.steps? with
  | some steps =>
    have same : m.follow steps = m.perform edit := follow_steps listed
    rw [← same] at refused ⊢
    exact .inl ⟨steps, rfl, rfl, (checksFirst_steps listed).unchanged refused⟩
  | none =>
    obtain ⟨start, rfl⟩ := steps?_eq_none listed
    obtain ⟨chosen, reached, marks⟩ := m.marks_of_markArrayLength start
    exact .inr ⟨start, chosen, rfl, reached, marks⟩

/-- A name for a member past the bound grows no list of members. A length that stops at
an id without an entity has marked a constant before. -/
theorem refused_unchanged_gapLength :
    (gapLength.perform (.annotate ⟨9⟩ (.member 3) (.rename "w"))).fault? = some (.outOfBounds ⟨9⟩ 5) ∧
    (gapLength.perform (.annotate ⟨9⟩ (.member 3) (.rename "w"))).state = gapLength ∧
    (gapLength.perform (.entity (.markArrayLength ⟨4⟩))).fault? =
      some (.wrongKind ⟨3⟩ (some .constant) none) ∧
    (gapLength.perform (.entity (.markArrayLength ⟨4⟩))).state.entities ≠ gapLength.entities ∧
    ∃ chosen, (∀ id, chosen id → gapLength.entities.Reaches ⟨4⟩ id) ∧
      Marks chosen gapLength (gapLength.perform (.entity (.markArrayLength ⟨4⟩))).state := by
  have outside : (gapLength.perform (.annotate ⟨9⟩ (.member 3) (.rename "w"))).fault? =
      some (.outOfBounds ⟨9⟩ 5) := by decide
  have stopped : (gapLength.perform (.entity (.markArrayLength ⟨4⟩))).fault? =
      some (.wrongKind ⟨3⟩ (some .constant) none) := by decide
  refine ⟨outside, ?_, stopped, by decide, ?_⟩
  · obtain ⟨_, _, _, same⟩ | ⟨_, _, other, _⟩ := refused_unchanged gapLength _ _ outside
    · exact same
    · cases other
  · obtain ⟨_, unlisted, _⟩ | ⟨_, chosen, same, reached, marks⟩ := refused_unchanged gapLength _ _ stopped
    · cases unlisted
    · cases same
      exact ⟨chosen, reached, marks⟩

/-- An operation among its own arguments, with a gap between itself and a constant. -/
def cyclicLength : Module := (ofWords []).run [.growTo 4, .entity (.put ⟨2⟩ .constant {}),
  .entity (.put ⟨1⟩ .constantOp { arguments := [⟨1⟩, ⟨3⟩, ⟨2⟩] })]

/-- A walk on operations with a cycle can be refused too, if it meets the gap before it
goes round. It has marked the constant by then, so absence of cycles is no condition for
a walk to leave marks behind. -/
theorem refused_changed_cyclicLength :
    cyclicLength.Reachable ∧ ¬ cyclicLength.entities.Acyclic ⟨1⟩ ∧
    (cyclicLength.perform (.entity (.markArrayLength ⟨1⟩))).fault? =
      some (.wrongKind ⟨3⟩ (some .constant) none) ∧
    (cyclicLength.perform (.entity (.markArrayLength ⟨1⟩))).state ≠ cyclicLength ∧
    (cyclicLength.perform (.entity (.markArrayLength ⟨1⟩))).state.entities.arrayLengths = [⟨2⟩] := by
  refine ⟨(Reachable.words []).run _, fun acyclic => ?_, by decide, by decide, by decide⟩
  have own : cyclicLength.entities.Uses ⟨1⟩ ⟨1⟩ := by
    rw [EntityStore.Uses]
    decide
  exact acyclic ⟨1⟩ .refl (.single own)

end Shader.Module

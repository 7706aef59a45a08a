import Shader.Proofs.ModuleInvariant

/-! Edits taken apart into what they do one after another: checks that can refuse them,
and writes. A check that fails ends the edit and leaves what was written before it, so
the order of the steps decides what a refused edit leaves behind. Following the steps of
an edit comes to the same as performing it at once. -/

namespace Shader

/-- Grows the list of members until it reaches the part. -/
def Annotations.extend (annotations : Annotations) : Part → Annotations
  | .whole => annotations
  | .member index => { annotations with members := grow annotations.members (index + 1) }

private theorem Annotations.modify_extend {annotations : Annotations} {part : Part} {change : Note → Note} :
    (annotations.extend part).modify part change = annotations.modify part change := by
  cases part with
  | whole => rfl
  | member index => simp only [extend, modify, grow_grow, Nat.max_self]

namespace Module

inductive Step where
  | check (fault? : Module → Option Fault)
  | write (change : Module → Module)

def follow (m : Module) : List Step → Outcome Module
  | [] => .done m
  | .check fault? :: rest =>
    match fault? m with
    | some fault => { state := m, fault? := some fault }
    | none => m.follow rest
  | .write change :: rest => (change m).follow rest

namespace Step

def require (holds : Module → Prop) [DecidablePred holds] (fault : Module → Fault) : Step :=
  .check fun m => if holds m then none else some (fault m)

def inBounds (id : ResultId) : Step :=
  require (fun m => id.index < m.bound) fun m => .outOfBounds id m.bound

def entities (change : EntityStore → EntityStore) : Step :=
  .write fun m => { m with entities := change m.entities }

def annotations (change : AnnotationStore → AnnotationStore) : Step :=
  .write fun m => { m with annotations := change m.annotations }

def record (id : ResultId) (change : Annotations → Annotations) : Step :=
  annotations fun store => ⟨store.records.modify id.index change⟩

def controlFlow (change : ControlFlow → ControlFlow) : Step :=
  .write fun m => { m with controlFlow := change m.controlFlow }

def link (target header : ResultId) : Step :=
  controlFlow fun flow => { flow with headerOf := flow.headerOf.insert target header }

def entryPoints (change : EntryPointTable → EntryPointTable) : Step :=
  .write fun m => { m with entryPoints := change m.entryPoints }

end Step

namespace Edit

def entitySteps? : EntityStore.Edit → Option (List Step)
  | .put id kind payload => some [
      .inBounds id,
      .require (fun m => m.entities.kind? id = none ∨ m.entities.kind? id = some kind) fun m =>
        .kindChange id (m.entities.kind? id) kind,
      .entities (·.write id ⟨kind, payload⟩)]
  | .modify id kind change => some [
      .inBounds id,
      .require (fun m => m.entities.kind? id = some kind) fun m =>
        .wrongKind id kind (m.entities.kind? id),
      .entities fun store =>
        (store.find? id kind).elim store fun payload => store.write id ⟨kind, change payload⟩]
  | .markArrayLength _ => none

def controlFlowSteps : ControlFlow.Edit → List Step
  | .insert role block => [.controlFlow (·.insert block role)]
  | .link target header => [
      .require (fun m => target ∈ m.controlFlow.continueTargets) fun _ => .unlistedContinue target,
      .require (fun m => header ∈ m.controlFlow.loopHeaders) fun _ => .unlistedHeader target header,
      .link target header]
  | .loop header merge target =>
    .controlFlow (·.insert header .loopHeader) :: .controlFlow (·.insert merge .loopMerge) ::
      if target = header then []
      else [.controlFlow (·.insert target .continueTarget), .link target header]
  | .selection merge => [.controlFlow (·.insert merge .selectionMerge)]
  | .switch merge => [
      .controlFlow fun flow => { flow with selectionMerges := flow.selectionMerges.erase merge },
      .controlFlow (·.insert merge .switchMerge)]

def entryPointSteps : EntryPointTable.Edit → List Step
  | .add entry => [
      .inBounds entry.id,
      .entryPoints fun table =>
        { table with defaultId := if table.defaultId.isNull then entry.id else table.defaultId },
      .entryPoints fun table => { table with entries := table.entries.insert entry.id entry }]
  | .modify id change => [.entryPoints (·.modify id change)]
  | .choose id => [
      .require (fun m => id ∈ m.entryPoints.entries) fun _ => .unknownDefault id,
      .entryPoints ({ · with defaultId := id })]

/-- The steps of an edit; none for a walk, whose steps depend on what it meets. -/
def steps? : Edit → Option (List Step)
  | .growTo bound => some [
      .entities (·.growTo bound.toNat),
      .annotations (·.growTo bound.toNat)]
  | .mint count => some [
      .require (fun m => m.bound + count.toNat < UInt32.size) fun m => .idsExhausted m.bound count,
      .entities fun store => store.growTo (store.size + count.toNat),
      .write fun m => { m with annotations := m.annotations.growTo m.bound }]
  | .entity edit => entitySteps? edit
  | .annotate id part edit => some [
      .require (fun m => id.index < m.annotations.size) fun m => .outOfBounds id m.bound,
      .record id (·.extend part),
      .record id (·.modify part (·.apply edit))]
  | .controlFlow edit => some (controlFlowSteps edit)
  | .entryPoint edit => some (entryPointSteps edit)
  | .setSource source => some [.write ({ · with source })]
  | .declare declaration => some [.write fun m => { m with declarations := m.declarations.add declaration }]

end Edit

variable {m : Module} {steps : List Step}

theorem follow_require {holds : Module → Prop} [DecidablePred holds] {fault : Module → Fault} :
    m.follow (.require holds fault :: steps) =
      if holds m then m.follow steps else { state := m, fault? := some (fault m) } := by
  rw [Step.require, follow]
  by_cases met : holds m
  · rw [if_pos met, if_pos met]
  · rw [if_neg met, if_neg met]

theorem follow_inBounds {id : ResultId} : m.follow (.inBounds id :: steps) =
    if id.index < m.entities.size then m.follow steps
    else { state := m, fault? := some (.outOfBounds id m.entities.size) } :=
  follow_require

private theorem follow_put {id : ResultId} {kind : Kind} {payload : kind.Payload}
    (listed : Edit.entitySteps? (.put id kind payload) = some steps) :
    m.follow steps = m.perform (.entity (.put id kind payload)) := by
  cases listed
  rw [follow_inBounds, follow_require, perform, EntityStore.perform]
  cases stored : m.entities.put id kind payload with
  | ok next =>
    obtain ⟨⟨inside, takes⟩, rfl⟩ := EntityStore.put_eq_ok.mp stored
    rw [if_pos inside, if_pos takes]
    rfl
  | error fault =>
    rcases EntityStore.put_eq_error.mp stored with ⟨outside, rfl⟩ | ⟨inside, found, held, other, rfl⟩
    · rw [if_neg outside]
      rfl
    · have refuses : ¬ (m.entities.kind? id = none ∨ m.entities.kind? id = some kind) := by simp [held, other]
      rw [if_pos inside, if_neg refuses, held]
      rfl

private theorem follow_modify {id : ResultId} {kind : Kind} {change : kind.Payload → kind.Payload}
    (listed : Edit.entitySteps? (.modify id kind change) = some steps) :
    m.follow steps = m.perform (.entity (.modify id kind change)) := by
  cases listed
  rw [follow_inBounds, follow_require, perform, EntityStore.perform]
  cases changed : m.entities.modify id kind change with
  | ok next =>
    obtain ⟨payload, found, rfl⟩ := EntityStore.modify_eq_ok.mp changed
    have inside := EntityStore.lt_size_of_fetch (EntityStore.fetch_eq_ok.mpr found)
    rw [if_pos inside, if_pos (EntityStore.kind?_of_find? found), Step.entities, follow, found]
    rfl
  | error fault =>
    rcases EntityStore.modify_eq_error.mp changed with ⟨outside, rfl⟩ | ⟨inside, other, rfl⟩
    · rw [if_neg outside]
      rfl
    · rw [if_pos inside, if_neg other]
      rfl

private theorem follow_controlFlowSteps (edit : ControlFlow.Edit) :
    m.follow (Edit.controlFlowSteps edit) = m.perform (.controlFlow edit) := by
  cases edit with
  | insert | selection | switch => rfl
  | link target header =>
    rw [Edit.controlFlowSteps, follow_require, follow_require, perform, ControlFlow.apply]
    cases linked : m.controlFlow.link target header with
    | ok next =>
      obtain ⟨listed, opened, rfl⟩ := ControlFlow.link_eq_ok.mp linked
      rw [if_pos listed, if_pos opened]
      rfl
    | error fault =>
      rcases ControlFlow.link_eq_error.mp linked with ⟨unlisted, rfl⟩ | ⟨listed, unopened, rfl⟩
      · rw [if_neg unlisted]
        rfl
      · rw [if_pos listed, if_neg unopened]
        rfl
  | loop header merge target =>
    rw [Edit.controlFlowSteps, perform, ControlFlow.apply, ControlFlow.addLoop]
    by_cases own : target = header
    · simp only [if_pos own]
      rfl
    · simp only [if_neg own]
      rfl

private theorem follow_entryPointSteps (edit : EntryPointTable.Edit) :
    m.follow (Edit.entryPointSteps edit) = m.perform (.entryPoint edit) := by
  cases edit with
  | add entry =>
    rw [Edit.entryPointSteps, follow_inBounds, perform, EntryPointTable.apply, EntryPointTable.add, bound]
    by_cases inside : entry.id.index < m.entities.size
    · rw [if_pos inside, if_pos inside]
      rfl
    · rw [if_neg inside, if_neg inside]
      rfl
  | modify id change => rfl
  | choose id =>
    rw [Edit.entryPointSteps, follow_require, perform, EntryPointTable.apply, EntryPointTable.choose]
    by_cases listed : id ∈ m.entryPoints.entries
    · rw [if_pos listed, if_pos listed]
      rfl
    · rw [if_neg listed, if_neg listed]
      rfl

theorem follow_steps {edit : Edit} (listed : edit.steps? = some steps) : m.follow steps = m.perform edit := by
  cases edit with
  | entity edit =>
    cases edit with
    | put => exact follow_put listed
    | modify => exact follow_modify listed
    | markArrayLength => cases listed
  | controlFlow edit =>
    cases listed
    exact follow_controlFlowSteps edit
  | entryPoint edit =>
    cases listed
    exact follow_entryPointSteps edit
  | mint count =>
    cases listed
    rw [follow_require, perform, mint]
    by_cases fits : m.bound + count.toNat < UInt32.size
    · rw [if_pos fits]
      simp only [if_pos fits]
      have grown : (m.entities.growTo (m.entities.size + count.toNat)).size = m.entities.size + count.toNat := by
        rw [EntityStore.size_growTo]
        omega
      simp only [Step.entities, follow, bound, grown]
      rfl
    · rw [if_neg fits]
      simp only [if_neg fits]
      rfl
  | annotate id part edit =>
    cases listed
    rw [follow_require, perform, AnnotationStore.annotate]
    by_cases inside : id.index < m.annotations.size
    · rw [if_pos inside, if_pos inside]
      simp only [Step.record, Step.annotations, follow, modify_modify]
      simp only [Function.comp_def, Annotations.modify_extend]
      rfl
    · rw [if_neg inside, if_neg inside]
      rfl
  | growTo | setSource | declare =>
    cases listed
    rfl

end Module

end Shader

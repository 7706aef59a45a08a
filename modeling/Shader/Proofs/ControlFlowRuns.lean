import Shader.Module

/-! What one edit does to the roles of a block and to the links, and runs of edits that go on
after a refusal. An edit puts blocks into roles, takes a block out of at most one role and links
at most one continue target; what a run of edits does is derived from these three alone. Links
are the only edits that can be refused, and a refused one changes nothing. The control flow of a
module goes through such a run, whatever other edits the module sees in between. -/

namespace Shader

namespace ControlFlow

namespace Edit

def Assigns : Edit → Role → ResultId → Prop
  | .insert given named, role, block => given = role ∧ named = block
  | .loop header _ _, .loopHeader, block => header = block
  | .loop header _ target, .continueTarget, block => target = block ∧ target ≠ header
  | .loop _ merge _, .loopMerge, block => merge = block
  | .selection merge, .selectionMerge, block => merge = block
  | .switch merge, .switchMerge, block => merge = block
  | _, _, _ => False

def Withdraws : Edit → Role → ResultId → Prop
  | .switch merge, .selectionMerge, block => merge = block
  | _, _, _ => False

/-- The header the edit links `target` to, if it is accepted. -/
def headerFor? : Edit → ResultId → Option ResultId
  | .link named header, target => if named = target then some header else none
  | .loop header _ named, target =>
    if named = target ∧ named ≠ header then some header else none
  | _, _ => none

theorem withdraws_iff (edit : Edit) (role : Role) (block : ResultId) :
    edit.Withdraws role block ↔ role = .selectionMerge ∧ edit = .switch block := by
  cases edit <;> cases role <;> simp [Withdraws]

/-- A switch takes over a selection merge, and no other role is ever given up. -/
theorem not_withdraws (edit : Edit) (role : Role) (kept : role ≠ .selectionMerge) (block : ResultId) :
    ¬ edit.Withdraws role block :=
  fun withdrawn => kept ((edit.withdraws_iff role block).mp withdrawn).1

end Edit

variable {flow next : ControlFlow} {edit : Edit} {role : Role} {block : ResultId}

theorem link_eq_ok {target header : ResultId} : flow.link target header = .ok next ↔
    target ∈ flow.continueTargets ∧ header ∈ flow.loopHeaders ∧
      next = { flow with headerOf := flow.headerOf.insert target header } := by
  by_cases listed : target ∈ flow.continueTargets <;>
    by_cases opened : header ∈ flow.loopHeaders <;>
      simp [link, listed, opened, eq_comm]

theorem link_eq_error {fault : Fault} {target header : ResultId} : flow.link target header = .error fault ↔
    target ∉ flow.continueTargets ∧ fault = .unlistedContinue target ∨
      target ∈ flow.continueTargets ∧ header ∉ flow.loopHeaders ∧
        fault = .unlistedHeader target header := by
  by_cases listed : target ∈ flow.continueTargets <;>
    by_cases opened : header ∈ flow.loopHeaders <;>
      simp [link, listed, opened, eq_comm]

@[simp] theorem mem_blocks_insert {given : Role} {named : ResultId} :
    block ∈ (flow.insert named given).blocks role ↔
      given = role ∧ named = block ∨ block ∈ flow.blocks role := by
  cases given <;> cases role <;> simp [insert, blocks]

@[simp] theorem blocks_withLinks (links : IdMap ResultId) :
    ({ flow with headerOf := links } : ControlFlow).blocks role = flow.blocks role := by
  cases role <;> rfl

private theorem mem_blocks_addLoop {header merge target : ResultId} :
    block ∈ (flow.addLoop header merge target).blocks role ↔
      (Edit.loop header merge target).Assigns role block ∨ block ∈ flow.blocks role := by
  by_cases own : target = header
  · simp only [addLoop, own, if_true, mem_blocks_insert]
    cases role <;> simp [Edit.Assigns]
  · simp only [addLoop, own, if_false, blocks_withLinks, mem_blocks_insert]
    cases role <;> simp [Edit.Assigns, own]

private theorem mem_blocks_addSwitch {merge : ResultId} :
    block ∈ (flow.addSwitch merge).blocks role ↔
      (Edit.switch merge).Assigns role block ∨
        block ∈ flow.blocks role ∧ ¬ (Edit.switch merge).Withdraws role block := by
  cases role <;> simp [addSwitch, insert, blocks, Edit.Assigns, Edit.Withdraws, and_comm]

theorem mem_blocks_apply (applied : flow.apply edit = .ok next) (role : Role) (block : ResultId) :
    block ∈ next.blocks role ↔
      edit.Assigns role block ∨ block ∈ flow.blocks role ∧ ¬ edit.Withdraws role block := by
  cases edit with
  | insert given named =>
    cases applied
    simp [Edit.Assigns, Edit.Withdraws]
  | link target header =>
    obtain ⟨_, _, rfl⟩ := link_eq_ok.mp applied
    simp [Edit.Assigns, Edit.Withdraws]
  | loop header merge target =>
    cases applied
    simp [mem_blocks_addLoop, Edit.Withdraws]
  | selection merge =>
    cases applied
    cases role <;> simp [Edit.Assigns, Edit.Withdraws]
  | switch merge =>
    cases applied
    exact mem_blocks_addSwitch

theorem headerOf_apply (applied : flow.apply edit = .ok next) (target : ResultId) :
    next.headerOf[target]? = (edit.headerFor? target).or flow.headerOf[target]? := by
  cases edit with
  | insert given named =>
    cases applied
    cases given <;> simp [insert, Edit.headerFor?]
  | link named header =>
    obtain ⟨_, _, rfl⟩ := link_eq_ok.mp applied
    by_cases same : named = target <;> simp [Edit.headerFor?, Std.ExtTreeMap.getElem?_insert, same]
  | loop header merge named =>
    cases applied
    by_cases own : named = header
    · simp [addLoop, insert, Edit.headerFor?, own]
    · have added : (flow.addLoop header merge named).headerOf = flow.headerOf.insert named header := by
        simp [addLoop, insert, own]
      rw [added, Std.ExtTreeMap.getElem?_insert]
      by_cases same : named = target
      · subst same
        simp [Edit.headerFor?, own]
      · simp [Edit.headerFor?, same]
  | selection merge | switch merge =>
    cases applied
    rfl

/-! ### Runs -/

def perform (flow : ControlFlow) (edit : Edit) : Outcome ControlFlow := .ofExcept flow (flow.apply edit)

/-- A run of edits goes on from the state a refused edit left. -/
def run (flow : ControlFlow) (edits : List Edit) : ControlFlow :=
  edits.foldl (fun flow edit => (flow.perform edit).state) flow

theorem run_concat (flow : ControlFlow) (edits : List Edit) (last : Edit) :
    flow.run (edits ++ [last]) = ((flow.run edits).perform last).state := by
  simp only [run, List.foldl_append, List.foldl_cons, List.foldl_nil]

theorem run_keeps (holds : ControlFlow → Prop) {edits : List Edit} (start : holds flow)
    (step : ∀ flow, holds flow → ∀ edit ∈ edits, holds (flow.perform edit).state) : holds (flow.run edits) :=
  List.foldlRecOn edits _ start step

theorem perform_of_ok {next : ControlFlow} (applied : flow.apply edit = .ok next) :
    flow.perform edit = .done next := by
  rw [perform, applied]
  rfl

theorem perform_of_error {fault : Fault} (refused : flow.apply edit = .error fault) :
    flow.perform edit = { state := flow, fault? := some fault } := by
  rw [perform, refused]
  rfl

/-- Only links are ever refused. -/
theorem eq_link_of_error {fault : Fault} (refused : flow.apply edit = .error fault) :
    ∃ target header, edit = .link target header := by
  cases edit with
  | link target header => exact ⟨target, header, rfl⟩
  | insert | loop | selection | switch => cases refused

theorem mem_blocks_perform (role : Role) (block : ResultId) :
    block ∈ (flow.perform edit).state.blocks role ↔
      edit.Assigns role block ∨ block ∈ flow.blocks role ∧ ¬ edit.Withdraws role block := by
  cases applied : flow.apply edit with
  | ok next =>
    rw [perform_of_ok applied]
    exact mem_blocks_apply applied role block
  | error fault =>
    obtain ⟨target, header, rfl⟩ := eq_link_of_error applied
    rw [perform_of_error applied]
    simp [Edit.Assigns, Edit.Withdraws]

/-- The edit joins a continue target to a loop header. -/
inductive Joins (flow : ControlFlow) : Edit → ResultId → ResultId → Prop where
  | loop {header merge target : ResultId} (apart : target ≠ header) :
      Joins flow (.loop header merge target) target header
  | link {target header : ResultId}
      (accepted : (flow.perform (.link target header)).fault? = none) :
      Joins flow (.link target header) target header

private theorem joins_of_ok {next : ControlFlow} {target header : ResultId}
    (applied : flow.apply edit = .ok next) :
    Joins flow edit target header ↔ edit.headerFor? target = some header := by
  constructor
  · intro joins
    cases joins with
    | loop apart => simp [Edit.headerFor?, apart]
    | link => simp [Edit.headerFor?]
  · intro found
    cases edit with
    | link named opened =>
      by_cases same : named = target
      · simp only [Edit.headerFor?, if_pos same, Option.some.injEq] at found
        subst same found
        exact .link (by rw [perform_of_ok applied]; rfl)
      · simp [Edit.headerFor?, same] at found
    | loop opened merge named =>
      by_cases both : named = target ∧ named ≠ opened
      · simp only [Edit.headerFor?, if_pos both, Option.some.injEq] at found
        obtain ⟨rfl, apart⟩ := both
        subst found
        exact .loop apart
      · simp [Edit.headerFor?, both] at found
    | insert | selection | switch => cases found

theorem headerOf_perform (target header : ResultId) :
    (flow.perform edit).state.headerOf[target]? = some header ↔ Joins flow edit target header ∨
      flow.headerOf[target]? = some header ∧ ¬ ∃ other, Joins flow edit target other := by
  cases applied : flow.apply edit with
  | ok next =>
    rw [perform_of_ok applied, Outcome.done, headerOf_apply applied]
    simp only [joins_of_ok applied]
    cases edit.headerFor? target <;> simp
  | error fault =>
    obtain ⟨named, opened, rfl⟩ := eq_link_of_error applied
    have apart : ∀ other, ¬ Joins flow (.link named opened) target other := by
      intro other joins
      cases joins with
      | link accepted => simp [perform_of_error applied] at accepted
    simp [perform_of_error applied, apart]

theorem perform_link_accepted {target header : ResultId} :
    (flow.perform (.link target header)).fault? = none ↔
      target ∈ flow.continueTargets ∧ header ∈ flow.loopHeaders := by
  cases applied : flow.apply (.link target header) with
  | ok next =>
    obtain ⟨listed, opened, _⟩ := link_eq_ok.mp applied
    simp [perform_of_ok applied, Outcome.done, listed, opened]
  | error fault =>
    rcases link_eq_error.mp applied with ⟨unlisted, _⟩ | ⟨_, unopened, _⟩
    · simp [perform_of_error applied, unlisted]
    · simp [perform_of_error applied, unopened]

theorem perform_link_refused {target header : ResultId} {fault : Fault}
    (refused : (flow.perform (.link target header)).fault? = some fault) :
    (flow.perform (.link target header)).state = flow ∧
      (target ∉ flow.continueTargets ∧ fault = .unlistedContinue target ∨
        target ∈ flow.continueTargets ∧ header ∉ flow.loopHeaders ∧
          fault = .unlistedHeader target header) := by
  cases applied : flow.apply (.link target header) with
  | ok next =>
    rw [perform_of_ok applied] at refused
    cases refused
  | error cause =>
    rw [perform_of_error applied] at refused ⊢
    cases refused
    exact ⟨rfl, link_eq_error.mp applied⟩

end ControlFlow

namespace Module

def Edit.controlFlow? : Edit → Option ControlFlow.Edit
  | .controlFlow edit => some edit
  | _ => none

theorem controlFlow_perform (m : Module) (edit : Edit) : (m.perform edit).state.controlFlow =
    match edit.controlFlow? with
    | some edit => (m.controlFlow.perform edit).state
    | none => m.controlFlow := by
  cases edit with
  | controlFlow edit =>
    change _ = (m.controlFlow.perform edit).state
    rw [perform, ControlFlow.perform]
    cases m.controlFlow.apply edit <;> rfl
  | mint count =>
    rw [perform, mint]
    split <;> rfl
  | annotate id part edit =>
    rw [perform]
    cases m.annotations.annotate m.bound id part edit <;> rfl
  | entryPoint edit =>
    rw [perform]
    cases m.entryPoints.apply m.bound edit <;> rfl
  | growTo | entity | setSource | declare => rfl

/-- The control flow of a module runs through the edits that concern it. -/
theorem controlFlow_run (m : Module) (edits : List Edit) :
    (m.run edits).controlFlow = m.controlFlow.run (edits.filterMap (·.controlFlow?)) := by
  induction edits generalizing m with
  | nil => rfl
  | cons edit edits ih =>
    refine (ih (m.perform edit).state).trans ?_
    rw [controlFlow_perform, List.filterMap_cons]
    cases edit.controlFlow? <;> rfl

end Module

end Shader

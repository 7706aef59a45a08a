import Shader.Module
import Shader.Proofs.ArrayLengthWalk

/-! What one edit does to a module: the cases in which it is accepted, and what a
refused one leaves behind. A run is then described by its accepted edits alone,
for every part of a module that marking does not reach. -/

namespace Shader

namespace Outcome

variable {σ τ : Type} {before : σ} {result : Except Fault τ} {record : τ → σ}

theorem eq_done {outcome : Outcome σ} (done : outcome.fault? = none) : outcome = .done outcome.state := by
  cases outcome
  cases done
  rfl

theorem ofExcept_done (done : (ofExcept before (result.map record)).fault? = none) :
    ∃ value, result = .ok value ∧ (ofExcept before (result.map record)).state = record value := by
  cases result with
  | ok value => exact ⟨value, rfl, rfl⟩
  | error fault => cases done

theorem ofExcept_eq_done {result : Except Fault σ} {state : σ} :
    ofExcept before result = done state ↔ result = .ok state := by
  cases result <;> simp [ofExcept, done]

theorem fault?_ofExcept_eq_none {result : Except Fault σ} :
    (ofExcept before result).fault? = none ↔ ∃ state, result = .ok state := by
  cases result <;> simp [ofExcept]

theorem fault?_ofExcept_eq_some {result : Except Fault σ} {fault : Fault} :
    (ofExcept before result).fault? = some fault ↔ result = .error fault := by
  cases result <;> simp [ofExcept]

theorem ofExcept_refused {result : Except Fault σ} {fault : Fault}
    (refused : (ofExcept before result).fault? = some fault) :
    (ofExcept before result).state = before := by
  cases result with
  | ok value => cases refused
  | error cause => rfl

/-- A view that the writing does not reach, whether or not it comes to it. -/
theorem view_ofExcept {ρ : Type} (view : σ → ρ) (kept : ∀ value, view (record value) = view before) :
    view (ofExcept before (result.map record)).state = view before := by
  cases result with
  | ok value => exact kept value
  | error fault => rfl

end Outcome

private theorem EntityStore.exists_mark_of_refused {store : EntityStore} {edit : Edit} {fault : Fault}
    (refused : (store.perform edit).fault? = some fault) :
    ∃ ids, (store.perform edit).state = store.mark ids := by
  cases edit with
  | put id kind payload => exact ⟨[], (Outcome.ofExcept_refused refused).trans mark_nil.symm⟩
  | modify id kind change => exact ⟨[], (Outcome.ofExcept_refused refused).trans mark_nil.symm⟩
  | markArrayLength id =>
    obtain ⟨reached, state, _⟩ := exists_state_markArrayLength store id
    exact ⟨reached, state⟩

namespace EntryPointTable

inductive Applies (table : EntryPointTable) (bound : Nat) : Edit → EntryPointTable → Prop where
  | add {entry : EntryPoint} (inside : entry.id.index < bound) : Applies table bound (.add entry) {
      entries := table.entries.insert entry.id entry
      defaultId := if table.defaultId.isNull then entry.id else table.defaultId }
  | modify (id : ResultId) (change : EntryPoint → EntryPoint) :
      Applies table bound (.modify id change) { table with entries := table.entries.modify id change }
  | choose {id : ResultId} (listed : id ∈ table.entries) :
      Applies table bound (.choose id) { table with defaultId := id }

theorem applies_of_ok {table next : EntryPointTable} {bound : Nat} {edit : Edit}
    (applied : table.apply bound edit = .ok next) : table.Applies bound edit next := by
  cases edit with
  | add entry =>
    rw [apply, EntryPointTable.add] at applied
    split at applied
    next inside =>
      cases applied
      exact .add inside
    next => cases applied
  | modify id change =>
    cases applied
    exact .modify id change
  | choose id =>
    rw [apply, EntryPointTable.choose] at applied
    split at applied
    next listed =>
      cases applied
      exact .choose listed
    next => cases applied

end EntryPointTable

namespace Module

/-- The edit is accepted and leads to the module given. -/
inductive Accepts (m : Module) : Edit → Module → Prop where
  | growTo (bound : Word) : Accepts m (.growTo bound) (m.growTo bound.toNat)
  | mint {count : Word} (fits : m.bound + count.toNat < UInt32.size) :
      Accepts m (.mint count) (m.growTo (m.bound + count.toNat))
  | entity {edit : EntityStore.Edit} {entities : EntityStore}
      (performed : m.entities.perform edit = .done entities) :
      Accepts m (.entity edit) { m with entities }
  | annotate {id : ResultId} {part : Part} {edit : Note.Edit} {annotations : AnnotationStore}
      (annotated : m.annotations.annotate m.bound id part edit = .ok annotations) :
      Accepts m (.annotate id part edit) { m with annotations }
  | controlFlow {edit : ControlFlow.Edit} {controlFlow : ControlFlow}
      (applied : m.controlFlow.apply edit = .ok controlFlow) :
      Accepts m (.controlFlow edit) { m with controlFlow }
  | entryPoint {edit : EntryPointTable.Edit} {entryPoints : EntryPointTable}
      (applied : m.entryPoints.apply m.bound edit = .ok entryPoints) :
      Accepts m (.entryPoint edit) { m with entryPoints }
  | setSource (source : Source) : Accepts m (.setSource source) { m with source }
  | declare (declaration : Declaration) :
      Accepts m (.declare declaration)
        { m with declarations := m.declarations.add declaration }

variable {m next : Module} {edit : Edit}

theorem Accepts.perform (accepted : m.Accepts edit next) : m.perform edit = .done next := by
  cases accepted with
  | mint fits =>
    simp only [Module.perform, Module.mint, if_pos fits]
    rfl
  | entity performed =>
    rw [Module.perform, performed]
    rfl
  | annotate annotated =>
    rw [Module.perform, annotated]
    rfl
  | controlFlow applied | entryPoint applied =>
    rw [Module.perform, applied]
    rfl
  | growTo | setSource | declare => rfl

theorem accepts_of_done (done : (m.perform edit).fault? = none) :
    m.Accepts edit (m.perform edit).state := by
  cases edit with
  | growTo bound => exact .growTo bound
  | mint count =>
    obtain ⟨⟨first, next⟩, minted, state⟩ := Outcome.ofExcept_done done
    rw [Module.perform, state]
    rw [mint] at minted
    split at minted
    next fits =>
      cases minted
      exact .mint fits
    next => cases minted
  | entity edit => exact .entity (Outcome.eq_done done)
  | annotate id part edit =>
    obtain ⟨annotations, annotated, state⟩ := Outcome.ofExcept_done done
    rw [Module.perform, state]
    exact .annotate annotated
  | controlFlow edit =>
    obtain ⟨controlFlow, applied, state⟩ := Outcome.ofExcept_done done
    rw [Module.perform, state]
    exact .controlFlow applied
  | entryPoint edit =>
    obtain ⟨entryPoints, applied, state⟩ := Outcome.ofExcept_done done
    rw [Module.perform, state]
    exact .entryPoint applied
  | setSource source => exact .setSource source
  | declare declaration => exact .declare declaration

theorem exists_mark_of_refused {fault : Fault} (refused : (m.perform edit).fault? = some fault) :
    ∃ ids, (m.perform edit).state = { m with entities := m.entities.mark ids } := by
  have unchanged : m = { m with entities := m.entities.mark [] } := by rw [EntityStore.mark_nil]
  cases edit with
  | entity edit =>
    obtain ⟨ids, marked⟩ := EntityStore.exists_mark_of_refused refused
    exact ⟨ids, by rw [Module.perform, Outcome.map, marked]⟩
  | mint | annotate | controlFlow | entryPoint =>
    exact ⟨[], (Outcome.ofExcept_refused refused).trans unchanged⟩
  | growTo | setSource | declare => cases refused

/-- An invariant of all modules that come about: an edit that is accepted keeps it, and
so do the marks that a refused walk leaves behind. -/
theorem Reachable.invariant {holds : Module → Prop} (empty : ∀ words, holds (ofWords words))
    (step : ∀ {m next : Module} {edit : Edit}, holds m → m.Accepts edit next → holds next)
    (marked : ∀ (m : Module) ids, holds m → holds { m with entities := m.entities.mark ids })
    {m : Module} (reached : m.Reachable) : holds m := by
  induction reached with
  | words words => exact empty words
  | @binary words m decoded =>
    rw [ofBinary] at decoded
    split at decoded
    · cases decoded
    next header _ =>
      cases decoded
      exact step (empty words) (.growTo header.bound)
  | @edit m _ edit ih =>
    cases outcome : (m.perform edit).fault? with
    | none => exact step ih (accepts_of_done outcome)
    | some fault =>
      obtain ⟨ids, state⟩ := exists_mark_of_refused outcome
      rw [state]
      exact marked m ids ih

/-! ### Runs -/

theorem run_cons (m : Module) (edit : Edit) (edits : List Edit) :
    m.run (edit :: edits) = (m.perform edit).state.run edits := rfl

theorem Reachable.run (reached : m.Reachable) (edits : List Edit) : (m.run edits).Reachable := by
  induction edits generalizing m with
  | nil => exact reached
  | cons edit edits ih => exact ih (reached.edit edit)

/-- The edits of a run that were not refused. -/
def accepted (m : Module) : List Edit → List Edit
  | [] => []
  | edit :: edits =>
    let outcome := m.perform edit
    if outcome.fault? = none then edit :: outcome.state.accepted edits
    else outcome.state.accepted edits

theorem accepted_sublist (m : Module) (edits : List Edit) : (m.accepted edits).Sublist edits := by
  induction edits generalizing m with
  | nil => exact .slnil
  | cons edit edits ih =>
    rw [accepted]
    split
    · exact (ih _).cons_cons edit
    · exact (ih _).cons edit

theorem accepted_cons_eq_self {edits : List Edit} (all : m.accepted (edit :: edits) = edit :: edits) :
    (m.perform edit).fault? = none ∧ (m.perform edit).state.accepted edits = edits := by
  rw [accepted] at all
  split at all
  next done => exact ⟨done, List.tail_eq_of_cons_eq all⟩
  next =>
    have short := ((m.perform edit).state.accepted_sublist edits).length_le
    rw [all, List.length_cons] at short
    omega

/-- What a part of a module holds after a run, if every accepted edit changes it in a
way of its own and marking does not touch it. -/
theorem view_run {σ : Type} (view : Module → σ) (effect : σ → Edit → σ)
    (step : ∀ m edit next, m.Accepts edit next → view next = effect (view m) edit)
    (frame : ∀ (m : Module) ids, view { m with entities := m.entities.mark ids } = view m)
    (m : Module) (edits : List Edit) : view (m.run edits) = (m.accepted edits).foldl effect (view m) := by
  induction edits generalizing m with
  | nil => rfl
  | cons edit edits ih =>
    rw [run_cons, ih, accepted]
    cases outcome : (m.perform edit).fault? with
    | none =>
      rw [if_pos rfl, List.foldl_cons, step m edit _ (accepts_of_done outcome)]
    | some fault =>
      obtain ⟨ids, state⟩ := exists_mark_of_refused outcome
      rw [if_neg (Option.some_ne_none fault), state, frame]

end Module

end Shader

import Shader.Proofs.ControlFlowSoundness
import Shader.Proofs.EntityWrites
import Shader.Proofs.ModuleEdits

/-! What holds of every module that comes about, whichever edits were made and
whichever of them were refused: the stores agree in size, links stay between
blocks that have the roles for it, and a default entry point is one of the table. -/

namespace Shader

namespace EntityStore

variable {store next : EntityStore} {id : ResultId} {kind : Kind}

theorem size_put {payload : kind.Payload} (stored : store.put id kind payload = .ok next) :
    next.size = store.size := by
  obtain ⟨_, rfl⟩ := put_eq_ok.mp stored
  exact size_write _

theorem size_modify {change : kind.Payload → kind.Payload}
    (changed : store.modify id kind change = .ok next) : next.size = store.size := by
  obtain ⟨_, _, rfl⟩ := modify_eq_ok.mp changed
  exact size_write _

end EntityStore

namespace AnnotationStore

variable {store next : AnnotationStore}

theorem size_annotate {bound : Nat} {id : ResultId} {part : Part} {edit : Note.Edit}
    (annotated : store.annotate bound id part edit = .ok next) : next.size = store.size := by
  obtain ⟨_, rfl⟩ := annotate_eq_ok.mp annotated
  exact Array.size_modify

end AnnotationStore

namespace EntryPointTable

/-- There is no default, or it is an entry of the table. -/
def Chosen (table : EntryPointTable) : Prop :=
  table.defaultId = .null ∨ table.defaultId ∈ table.entries

variable {table next : EntryPointTable}

theorem fault?_eq_none : table.fault? = none ↔ table.Chosen := by
  simp [fault?, Chosen, ResultId.isNull, Decidable.or_iff_not_imp_left]

private theorem Chosen.apply {bound : Nat} {edit : Edit} (chosen : table.Chosen)
    (applied : table.apply bound edit = .ok next) : next.Chosen := by
  cases applies_of_ok applied with
  | add =>
    by_cases first : table.defaultId = .null
    · simp [Chosen, first, ResultId.isNull]
    · have known := chosen.resolve_left first
      simp [Chosen, first, ResultId.isNull, known]
  | modify => exact chosen.imp_right Std.ExtTreeMap.mem_modify.mpr
  | choose listed => exact .inr listed

end EntryPointTable

theorem EntityStore.size_perform (store : EntityStore) (edit : Edit) :
    (store.perform edit).state.size = store.size := by
  cases edit with
  | put id kind payload =>
    rw [perform]
    cases stored : store.put id kind payload with
    | error fault => rfl
    | ok next => exact size_put stored
  | modify id kind change =>
    rw [perform]
    cases changed : store.modify id kind change with
    | error fault => rfl
    | ok next => exact size_modify changed
  | markArrayLength id =>
    obtain ⟨marked, same, _⟩ := exists_state_markArrayLength store id
    rw [perform, same, size_mark]

namespace Module

structure Coherent (m : Module) : Prop where
  sizes : m.entities.size = m.annotations.size
  linked : m.controlFlow.Linked
  chosen : m.entryPoints.Chosen

namespace Coherent

variable {m : Module}

theorem ofWords (words : List Word) : (ofWords words).Coherent where
  sizes := rfl
  linked := ControlFlow.linked_empty
  chosen := .inl rfl

theorem fault?_eq (coherent : m.Coherent) : m.fault? =
    (m.controlFlow.overlap?.map .mergeOverlap).or
      ((m.controlFlow.stray? m.bound).map (.outOfBounds · m.bound)) := by
  have links := ControlFlow.linkFault?_eq_none coherent.linked
  have entry := EntryPointTable.fault?_eq_none.mpr coherent.chosen
  rw [Module.fault?, if_pos coherent.sizes, ControlFlow.fault?, links, entry, Option.none_or, Option.or_none]

theorem growTo (coherent : m.Coherent) (bound : Nat) : (m.growTo bound).Coherent where
  sizes := by
    rw [Module.growTo, EntityStore.size_growTo, AnnotationStore.size_growTo, coherent.sizes]
  linked := coherent.linked
  chosen := coherent.chosen

private theorem accepts {next : Module} {edit : Edit} (coherent : m.Coherent) (accepted : m.Accepts edit next) :
    next.Coherent := by
  cases accepted with
  | growTo | mint => exact coherent.growTo _
  | @entity edit entities performed =>
    have kept := m.entities.size_perform edit
    rw [performed] at kept
    exact { coherent with sizes := kept.trans coherent.sizes }
  | annotate annotated =>
    have kept := AnnotationStore.size_annotate annotated
    exact { coherent with sizes := coherent.sizes.trans kept.symm }
  | controlFlow applied => exact { coherent with linked := coherent.linked.apply applied }
  | entryPoint applied => exact { coherent with chosen := coherent.chosen.apply applied }
  | setSource | declare => exact ⟨coherent.sizes, coherent.linked, coherent.chosen⟩

end Coherent

theorem Reachable.coherent {m : Module} (reached : m.Reachable) : m.Coherent := by
  refine reached.invariant .ofWords (fun coherent accepted => coherent.accepts accepted) ?_
  intro m ids coherent
  exact ⟨(EntityStore.size_mark ids).trans coherent.sizes, coherent.linked, coherent.chosen⟩

end Module

end Shader

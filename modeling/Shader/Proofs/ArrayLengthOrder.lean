import Shader.Proofs.ArrayLengthMarking

/-! Several lengths marked in one module. Marks have no influence on a walk, so a length is
refused or not whatever was marked before, and what the walks have marked adds up in any order,
those that were refused included. Nor does it matter in which order an operation lists its
arguments or how often, except to where a walk stops. -/

namespace Shader

namespace Slot

def relist (list : List ResultId → List ResultId) : Slot → Slot
  | some ⟨.constantOp, op⟩ => some ⟨.constantOp, { op with arguments := list op.arguments }⟩
  | slot => slot

variable (list : List ResultId → List ResultId) (slot : Slot)

@[simp] theorem kind?_relist : (slot.relist list).kind? = slot.kind? := by
  match slot with
  | none => rfl
  | some ⟨kind, payload⟩ => cases kind <;> rfl

@[simp] theorem as?_constant_relist : (slot.relist list).as? .constant = slot.as? .constant := by
  match slot with
  | none => rfl
  | some ⟨kind, payload⟩ => cases kind <;> rfl

private theorem as?_constantOp_relist : (slot.relist list).as? .constantOp =
    (slot.as? .constantOp).map fun op => { op with arguments := list op.arguments } := by
  match slot with
  | none => rfl
  | some ⟨kind, payload⟩ => cases kind <;> rfl

theorem mark_relist : (slot.relist list).mark = slot.mark.relist list := by
  match slot with
  | none => rfl
  | some ⟨kind, payload⟩ => cases kind <;> rfl

end Slot

namespace EntityStore

variable {store : EntityStore} {id : ResultId}

/-- The store with the arguments in each slot listed in another way. -/
def relist (store : EntityStore) (lists : Nat → List ResultId → List ResultId) : EntityStore :=
  ⟨store.slots.mapIdx fun index slot => slot.relist (lists index)⟩

/-- No argument is added and none is left out. -/
def Relists (lists : Nat → List ResultId → List ResultId) : Prop :=
  ∀ index arguments argument, argument ∈ lists index arguments ↔ argument ∈ arguments

section Relist

variable (lists : Nat → List ResultId → List ResultId)

private theorem getElem?_relist (index : Nat) :
    (store.relist lists).slots[index]? = store.slots[index]?.map (Slot.relist (lists index)) := by
  simp only [relist, Array.getElem?_mapIdx]

@[simp] theorem size_relist : (store.relist lists).size = store.size := by
  simp only [size, relist, Array.size_mapIdx]

@[simp] theorem kind?_relist : (store.relist lists).kind? id = store.kind? id := by
  simp only [kind?, getElem?_relist, Option.bind_map, Function.comp_def, Slot.kind?_relist]

theorem mark_relist (ids : List ResultId) : (store.relist lists).mark ids = (store.mark ids).relist lists := by
  apply ext_getElem?
  intro index
  simp only [getElem?_mark, getElem?_relist, Option.map_map, Function.comp_def]
  congr 1
  funext slot
  split
  · exact slot.mark_relist (lists index)
  · rfl

private theorem supplies_relist : (store.relist lists).Supplies id ↔ store.Supplies id := by
  simp only [Supplies, size_relist, kind?_relist]

private theorem uses_relist (relists : Relists lists) (id argument : ResultId) :
    store.Uses id argument ↔ (store.relist lists).Uses id argument := by
  have found : (store.relist lists).find? id .constantOp = (store.find? id .constantOp).map fun op =>
      { op with arguments := lists id.index op.arguments } := by
    rw [find?, getElem?_relist, find?]
    cases store.slots[id.index]? with
    | none => rfl
    | some slot => exact slot.as?_constantOp_relist (lists id.index)
  simp only [Uses, arguments, found]
  cases store.find? id .constantOp with
  | none => rfl
  | some op => exact (relists id.index op.arguments argument).symm

theorem ofKind_congr {first second : EntityStore} {kind : Kind}
    (same : ∀ index : Nat, first.slots[index]?.map (Slot.as? kind) = second.slots[index]?.map (Slot.as? kind)) :
    first.ofKind kind = second.ofKind kind := by
  have read : ∀ store : EntityStore, store.ofKind kind = (store.slots.toList.map (Slot.as? kind)).zipIdx.filterMap
      fun (payload?, index) => payload?.map (ResultId.ofIndex index, ·) := by
    intro store
    rw [List.zipIdx_map, List.filterMap_map]
    rfl
  rw [read, read]
  congr 2
  apply List.ext_getElem?
  intro index
  simp only [List.getElem?_map, Array.getElem?_toList, same]

private theorem arrayLengths_relist : (store.relist lists).arrayLengths = store.arrayLengths := by
  have constants : (store.relist lists).ofKind .constant = store.ofKind .constant := by
    apply ofKind_congr
    intro index
    simp only [getElem?_relist, Option.map_map, Function.comp_def, Slot.as?_constant_relist]
  rw [arrayLengths, constants, arrayLengths]

end Relist

private theorem Acyclic.exists_way (acyclic : store.Acyclic id) : ∃ visits, store.Preorder [id] visits ∧
    ∀ marked, (store.mark marked).markArrayLength id = (store.mark marked).afterVisits visits := by
  obtain ⟨visits, order, _⟩ := acyclic.exists_preorder
  refine ⟨visits, order, fun marked => ?_⟩
  have same : ∀ id, (store.mark marked).arguments id = store.arguments id := fun _ => arguments_mark marked
  have uses : ∀ id argument, store.Uses id argument ↔ (store.mark marked).Uses id argument := by
    intro id argument
    rw [Uses, Uses, same]
  obtain ⟨others, again, walk, _⟩ := (acyclic.congr uses).exists_visits
  rw [walk, (again.congr same).unique order]

private theorem afterVisits_mark (marked visits : List ResultId) : (store.mark marked).afterVisits visits = {
    state := store.mark (marked ++ visits.takeWhile fun id => (store.refusal? id).isNone)
    fault? := visits.findSome? store.refusal? } := by
  have same : (store.mark marked).refusal? = store.refusal? := funext fun _ => refusal?_mark marked
  rw [afterVisits, same, mark_mark]

private theorem Acyclic.exists_marks (acyclic : store.Acyclic id) : ∃ reached fault?, ∀ marked,
    (store.mark marked).markArrayLength id = { state := store.mark (marked ++ reached), fault? } := by
  obtain ⟨visits, _, walk⟩ := acyclic.exists_way
  exact ⟨_, _, fun marked => (walk marked).trans (afterVisits_mark marked visits)⟩

private theorem Acyclic.walk_relist {lists : Nat → List ResultId → List ResultId} (relists : Relists lists)
    (acyclic : store.Acyclic id) :
    ((store.markArrayLength id).fault? = none ↔ ((store.relist lists).markArrayLength id).fault? = none) ∧
    ((store.markArrayLength id).fault? = none →
      ((store.relist lists).markArrayLength id).state = (store.markArrayLength id).state.relist lists) := by
  have uses : ∀ id argument, store.Uses id argument ↔ (store.relist lists).Uses id argument :=
    uses_relist lists relists
  obtain ⟨visits, order, walk, _⟩ := acyclic.exists_visits
  obtain ⟨others, again, relisted, _⟩ := (acyclic.congr uses).exists_visits
  -- the two walks take different ways, and more or fewer visits, to the same ids
  have same : ∀ other, other ∈ others ↔ other ∈ visits := by
    intro other
    rw [order.mem_iff, again.mem_iff]
    simp only [reaches_congr uses]
  have accepted : (store.afterVisits visits).fault? = none ↔
      ((store.relist lists).afterVisits others).fault? = none := by
    simp only [afterVisits_done, supplies_relist, same]
  rw [walk, relisted]
  refine ⟨accepted, fun done => ?_⟩
  have marked := state_afterVisits_done (afterVisits_done.mp done)
  have remarked := state_afterVisits_done (afterVisits_done.mp (accepted.mp done))
  rw [marked, remarked, mark_relist, mark_congr same]

end EntityStore

namespace Module

/-- The module with the length at `id` marked, as far as the walk gets. -/
def markLength (m : Module) (id : ResultId) : Outcome Module := m.perform (.entity (.markArrayLength id))

variable {m : Module} {id first second : ResultId}

private theorem exists_marks (acyclic : m.entities.Acyclic id) : ∃ reached fault?, ∀ marked,
    ({ m with entities := m.entities.mark marked } : Module).markLength id =
      { state := { m with entities := m.entities.mark (marked ++ reached) }, fault? } := by
  obtain ⟨reached, fault?, walk⟩ := acyclic.exists_marks
  refine ⟨reached, fault?, fun marked => ?_⟩
  rw [markLength, perform_markArrayLength, walk]
  rfl

/-- How marking one length bears on marking it again, on marking another, and on the ways to
list the arguments of operations. -/
structure MarksFreely (m : Module) (first second : ResultId) : Prop where
  /-- With the same fault, if there is one, and nothing more marked. -/
  again : (m.markLength first).state.markLength first = m.markLength first
  unaffected : ((m.markLength first).state.markLength second).fault? = (m.markLength second).fault?
  reordered : ((m.markLength first).state.markLength second).state =
    ((m.markLength second).state.markLength first).state
  relisted : ∀ lists, EntityStore.Relists lists →
    let relisted : Module := { m with entities := m.entities.relist lists }
    ((m.markLength first).fault? = none ↔ (relisted.markLength first).fault? = none) ∧
    ((m.markLength first).fault? = none →
      (m.markLength first).state.entities.arrayLengths = (relisted.markLength first).state.entities.arrayLengths)

theorem marksFreely (m : Module) (first second : ResultId) (one : m.entities.Acyclic first)
    (other : m.entities.Acyclic second) : m.MarksFreely first second := by
  obtain ⟨marks, fault?, walk⟩ := exists_marks one
  obtain ⟨others, cause?, next⟩ := exists_marks other
  have alone : m.markLength first = { state := { m with entities := m.entities.mark marks }, fault? } := by
    simpa only [EntityStore.mark_nil, List.nil_append] using walk []
  have apart : m.markLength second = { state := { m with entities := m.entities.mark others }, fault? := cause? } := by
    simpa only [EntityStore.mark_nil, List.nil_append] using next []
  refine ⟨?_, ?_, ?_, ?_⟩
  · have once : m.entities.mark (marks ++ marks) = m.entities.mark marks :=
      EntityStore.mark_congr fun _ => by rw [List.mem_append, or_self]
    rw [alone, walk, once]
  · rw [alone, next, apart]
  · have union : m.entities.mark (marks ++ others) = m.entities.mark (others ++ marks) :=
      EntityStore.mark_congr fun _ => by rw [List.mem_append, List.mem_append, or_comm]
    rw [alone, apart, next, walk, union]
  · intro lists relists
    obtain ⟨accepted, marked⟩ := one.walk_relist relists
    refine ⟨accepted, fun done => ?_⟩
    have state := congrArg EntityStore.arrayLengths (marked done)
    rw [EntityStore.arrayLengths_relist] at state
    exact state.symm

/-- Two lengths that share constants. The walk to the one meets a slot that was never declared
after it has marked a constant, and the other is computed from an operation that repeats its
arguments. -/
def sharedConstants : Module where
  entities := ⟨#[none, some ⟨.constant, .scalar .null 4⟩, some ⟨.constant, .scalar .null 8⟩, none,
    some ⟨.constantOp, { arguments := [⟨1⟩, ⟨3⟩, ⟨2⟩] }⟩, some ⟨.constantOp, { arguments := [⟨1⟩, ⟨2⟩, ⟨1⟩] }⟩,
    some ⟨.constantOp, { arguments := [⟨5⟩, ⟨2⟩] }⟩]⟩
  annotations := ⟨.replicate 7 default⟩

theorem marksFreely_sharedConstants :
    sharedConstants.entities.Acyclic ⟨4⟩ ∧ sharedConstants.entities.Acyclic ⟨6⟩ ∧
    (sharedConstants.markLength ⟨4⟩).fault? = some (.wrongKind ⟨3⟩ (some .constant) none) ∧
    (sharedConstants.markLength ⟨4⟩).state.markLength ⟨4⟩ = sharedConstants.markLength ⟨4⟩ ∧
    ((sharedConstants.markLength ⟨4⟩).state.markLength ⟨6⟩).state =
      ((sharedConstants.markLength ⟨6⟩).state.markLength ⟨4⟩).state ∧
    (({ sharedConstants with entities := sharedConstants.entities.relist fun _ arguments => arguments ++ arguments }
      : Module).markLength ⟨6⟩).state.entities.arrayLengths = [⟨1⟩, ⟨2⟩] := by
  have acyclic : ∀ id, sharedConstants.entities.Acyclic id := .of_decreasing (by decide)
  have refused := marksFreely sharedConstants ⟨4⟩ ⟨6⟩ (acyclic _) (acyclic _)
  have accepted := marksFreely sharedConstants ⟨6⟩ ⟨4⟩ (acyclic _) (acyclic _)
  have relists : EntityStore.Relists fun _ arguments => arguments ++ arguments := by
    intro index arguments argument
    rw [List.mem_append, or_self]
  have lengths := (accepted.relisted _ relists).2 (by decide)
  exact ⟨acyclic _, acyclic _, by decide, refused.again, refused.reordered, lengths.symm.trans (by decide)⟩

end Module

end Shader

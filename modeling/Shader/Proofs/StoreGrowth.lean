import Shader.Annotations
import Shader.Proofs.ArrayLengthMarks

/-! What growth does to the two stores. An entry that growth adds reads like one that
is missing, so no reader that tolerates a missing entry notices it; and growth
commutes with every change to an entry that was there before. -/

namespace Shader

section Arrays

variable {α β : Type} {items : Array α} {index : Nat}

theorem modify_modify {first second : α → α} :
    (items.modify index first).modify index second = items.modify index (second ∘ first) := by
  apply Array.ext_getElem?
  intro other
  simp only [Array.getElem?_modify]
  split
  · rw [Option.map_map]
  · rfl

theorem modify_comm {other : Nat} {first second : α → α}
    (apart : index ≠ other ∨ ∀ item, second (first item) = first (second item)) :
    (items.modify index first).modify other second = (items.modify other second).modify index first := by
  by_cases same : index = other
  · subst same
    have commute : second ∘ first = first ∘ second := funext (apart.resolve_left (· rfl))
    rw [modify_modify, modify_modify, commute]
  · apply Array.ext_getElem?
    intro place
    simp only [Array.getElem?_modify]
    grind

variable [Inhabited α]

/-- A view that takes an entry by default for a missing one. -/
theorem view_getElem?_grow (view : Option α → β) (unwritten : view (some default) = view none)
    (size : Nat) : view (grow items size)[index]? = view items[index]? := by
  rw [getElem?_grow]
  by_cases inside : index < items.size
  · rw [if_pos inside]
  · rw [if_neg inside, Array.getElem?_eq_none (Nat.not_lt.mp inside)]
    split
    · exact unwritten
    · rfl

theorem getElem?_grow_of_lt (inside : index < items.size) (size : Nat) :
    (grow items size)[index]? = items[index]? := by
  rw [getElem?_grow, if_pos inside]

theorem getElem?_grow_of_le {size : Nat} (past : items.size ≤ index) (below : index < size) :
    (grow items size)[index]? = some default := by
  rw [getElem?_grow, if_neg (Nat.not_lt.mpr past), if_pos below]

theorem grow_of_le {size : Nat} (reached : size ≤ items.size) : grow items size = items := by
  rw [grow, Nat.sub_eq_zero_of_le reached, Array.replicate_zero, Array.append_empty]

theorem grow_grow (first second : Nat) :
    grow (grow items first) second = grow items (max first second) := by
  apply Array.ext_getElem?
  intro index
  simp only [getElem?_grow, size_grow]
  grind

theorem grow_grow_comm (first second : Nat) :
    grow (grow items first) second = grow (grow items second) first := by
  rw [grow_grow, grow_grow, Nat.max_comm]

private theorem grow_setIfInBounds (inside : index < items.size) (size : Nat) (item : α) :
    grow (items.setIfInBounds index item) size = (grow items size).setIfInBounds index item := by
  apply Array.ext_getElem?
  intro other
  simp only [getElem?_grow, Array.getElem?_setIfInBounds, Array.size_setIfInBounds, size_grow]
  grind

theorem grow_modify (inside : index < items.size) (size : Nat) (change : α → α) :
    grow (items.modify index change) size = (grow items size).modify index change := by
  apply Array.ext_getElem?
  intro other
  simp only [getElem?_grow, Array.getElem?_modify, Array.size_modify]
  grind

end Arrays

namespace EntityStore

variable {store next : EntityStore} {id : ResultId} {kind : Kind} (size : Nat)

@[simp] theorem size_growTo : (store.growTo size).size = max store.size size := size_grow store.slots size

@[simp] theorem size_write (entity : Entity) : (store.write id entity).size = store.size :=
  Array.size_setIfInBounds

theorem size_le_growTo : store.size ≤ (store.growTo size).size := by
  rw [size_growTo]
  exact Nat.le_max_left _ _

@[simp] theorem kind?_growTo : (store.growTo size).kind? id = store.kind? id :=
  view_getElem?_grow (·.bind Slot.kind?) rfl size

@[simp] theorem find?_growTo : (store.growTo size).find? id kind = store.find? id kind :=
  view_getElem?_grow (·.bind (Slot.as? kind)) rfl size

@[simp] theorem ofKind_growTo : (store.growTo size).ofKind kind = store.ofKind kind := by
  simp only [ofKind, growTo, grow, Array.toList_append, Array.toList_replicate, List.zipIdx_append,
    List.filterMap_append, List.append_right_eq_self, List.filterMap_eq_nil_iff]
  rintro ⟨slot, index⟩ member
  have empty : slot = none := List.eq_of_mem_replicate (List.fst_mem_of_mem_zipIdx member)
  rw [empty]
  rfl

theorem growTo_comm (other : Nat) : (store.growTo size).growTo other = (store.growTo other).growTo size :=
  congrArg EntityStore.mk (grow_grow_comm size other)

theorem slot_eq_ok {slot : Slot} : store.slot id = .ok slot ↔ store.slots[id.index]? = some slot := by
  rw [EntityStore.slot]
  cases store.slots[id.index]? <;> simp

theorem lt_size_of_slot {slot : Slot} (held : store.slot id = .ok slot) : id.index < store.size :=
  (Array.getElem?_eq_some_iff.mp (slot_eq_ok.mp held)).1

theorem slot_growTo {slot : Slot} (held : store.slot id = .ok slot) :
    (store.growTo size).slot id = .ok slot := by
  rw [slot_eq_ok, growTo, getElem?_grow_of_lt (lt_size_of_slot held), slot_eq_ok.mp held]

theorem write_growTo (inside : id.index < store.size) (entity : Entity) :
    (store.growTo size).write id entity = (store.write id entity).growTo size :=
  congrArg EntityStore.mk (grow_setIfInBounds inside size _).symm

theorem lt_size_of_fetch {payload : kind.Payload} (fetched : store.fetch id kind = .ok payload) :
    id.index < store.size := by
  rw [fetch] at fetched
  cases held : store.slot id with
  | error fault => simp [held] at fetched
  | ok slot => exact lt_size_of_slot held

end EntityStore

namespace AnnotationStore

variable {store next : AnnotationStore} {id : ResultId} {part : Part} (size : Nat)

@[simp] theorem size_growTo : (store.growTo size).size = max store.size size := size_grow store.records size

theorem growTo_comm (other : Nat) : (store.growTo size).growTo other = (store.growTo other).growTo size :=
  congrArg AnnotationStore.mk (grow_grow_comm size other)

@[simp] theorem read_growTo : (store.growTo size).read id part = store.read id part := by
  refine view_getElem?_grow (fun record => (record.bind (Annotations.find? · part)).getD default) ?_ size
  cases part <;> rfl

theorem annotate_eq_ok {bound : Nat} {edit : Note.Edit} : store.annotate bound id part edit = .ok next ↔
    id.index < store.size ∧ next = ⟨store.records.modify id.index (·.modify part (·.apply edit))⟩ := by
  by_cases inside : id.index < store.size <;> simp [annotate, inside, eq_comm]

theorem annotate_growTo {bound : Nat} {edit : Note.Edit}
    (annotated : store.annotate bound id part edit = .ok next) (later : Nat) :
    (store.growTo size).annotate later id part edit = .ok (next.growTo size) := by
  obtain ⟨inside, rfl⟩ := annotate_eq_ok.mp annotated
  have still : id.index < (store.growTo size).size := by
    rw [size_growTo]
    exact Nat.lt_of_lt_of_le inside (Nat.le_max_left _ _)
  exact annotate_eq_ok.mpr ⟨still, congrArg AnnotationStore.mk (grow_modify inside size _)⟩

end AnnotationStore

end Shader

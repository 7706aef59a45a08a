import Shader.EntityStore

/-! The effect of marking, apart from the order of the walk. Whatever the walk
visits, it leaves the store it found with some constants marked: no slot comes or
goes, no kind changes, and no operation gets other arguments. -/

namespace Shader

namespace Slot

/-- The slot with its constant marked as an array length. Other slots stay. -/
def mark : Slot → Slot
  | some ⟨.constant, constant⟩ => some ⟨.constant, { constant with isArrayLength := true }⟩
  | slot => slot

variable (slot : Slot)

theorem mark_of_kind {slot : Slot} (other : slot.kind? ≠ some .constant) : slot.mark = slot := by
  match slot with
  | none => rfl
  | some ⟨kind, payload⟩ =>
    cases kind
    case constant => exact absurd rfl other
    all_goals rfl

@[simp] theorem mark_mark : slot.mark.mark = slot.mark := by
  match slot with
  | none => rfl
  | some ⟨kind, payload⟩ => cases kind <;> rfl

@[simp] theorem kind?_mark : slot.mark.kind? = slot.kind? := by
  match slot with
  | none => rfl
  | some ⟨kind, payload⟩ => cases kind <;> rfl

@[simp] theorem as?_constantOp_mark : slot.mark.as? .constantOp = slot.as? .constantOp := by
  match slot with
  | none => rfl
  | some ⟨kind, payload⟩ => cases kind <;> rfl

end Slot

namespace EntityStore

variable {store : EntityStore} {id : ResultId}

theorem ext_getElem? {a b : EntityStore}
    (same : ∀ index : Nat, a.slots[index]? = b.slots[index]?) : a = b := by
  cases a
  cases b
  exact congrArg EntityStore.mk (Array.ext_getElem? same)

theorem find?_eq_some {kind : Kind} {payload : kind.Payload} : store.find? id kind = some payload ↔
    store.slots[id.index]? = some (some ⟨kind, payload⟩) := by
  constructor
  · intro found
    obtain ⟨slot, held, read⟩ := Option.bind_eq_some_iff.mp found
    obtain ⟨entity, rfl, same⟩ := Option.bind_eq_some_iff.mp read
    rw [held, Entity.as?_eq_some.mp same]
  · intro held
    simp [find?, held, Slot.as?]

/-- The store with the constants among `ids` marked as array lengths, and nothing
else changed. -/
def mark (store : EntityStore) (ids : List ResultId) : EntityStore :=
  ⟨store.slots.mapIdx fun index slot => if ids.any (·.index == index) then slot.mark else slot⟩

theorem getElem?_mark (ids : List ResultId) (index : Nat) :
    (store.mark ids).slots[index]? = store.slots[index]?.map fun slot =>
      if ids.any (·.index == index) then slot.mark else slot := by
  simp only [mark, Array.getElem?_mapIdx]

@[simp] theorem size_mark (ids : List ResultId) : (store.mark ids).size = store.size := by
  simp only [size, mark, Array.size_mapIdx]

@[simp] theorem mark_nil : store.mark [] = store := by
  apply ext_getElem?
  intro index
  simp [getElem?_mark]

theorem mark_mark (first second : List ResultId) :
    (store.mark first).mark second = store.mark (first ++ second) := by
  apply ext_getElem?
  intro index
  simp only [getElem?_mark, Option.map_map, List.any_append, Bool.or_eq_true]
  congr 1
  funext slot
  by_cases early : first.any (·.index == index) = true <;>
    by_cases late : second.any (·.index == index) = true <;> simp [early, late]

theorem mark_congr {first second : List ResultId} (same : ∀ id, id ∈ first ↔ id ∈ second) :
    store.mark first = store.mark second := by
  have alike : ∀ index, first.any (·.index == index) = second.any (·.index == index) := by
    intro index
    rw [Bool.eq_iff_iff]
    simp only [List.any_eq_true, same]
  simp only [mark, alike]

private theorem bind_mark {β : Type} (read : Slot → Option β)
    (kept : ∀ slot : Slot, read slot.mark = read slot) (ids : List ResultId) (index : Nat) :
    (store.mark ids).slots[index]?.bind read = store.slots[index]?.bind read := by
  rw [getElem?_mark]
  cases store.slots[index]? with
  | none => rfl
  | some slot =>
    simp only [Option.map_some, Option.bind_some]
    split
    · exact kept slot
    · rfl

@[simp] theorem kind?_mark (ids : List ResultId) : (store.mark ids).kind? id = store.kind? id :=
  bind_mark _ Slot.kind?_mark ids id.index

/-- The ids an operation is computed from; an entity of another kind has none. -/
def arguments (store : EntityStore) (id : ResultId) : List ResultId :=
  ((store.find? id .constantOp).map (·.arguments)).getD []

@[simp] theorem arguments_mark (ids : List ResultId) :
    (store.mark ids).arguments id = store.arguments id := by
  simp only [arguments, find?]
  rw [bind_mark _ Slot.as?_constantOp_mark]

/-- An array length can come from the id. -/
def Supplies (store : EntityStore) (id : ResultId) : Prop :=
  id.index < store.size ∧ (store.kind? id = some .constant ∨
    store.kind? id = some .constantOp ∨ store.kind? id = some .undef)

instance : Decidable (store.Supplies id) := inferInstanceAs (Decidable (_ ∧ _))

/-- The fault of an id no array length can come from. -/
def blame (store : EntityStore) (id : ResultId) : Fault :=
  if id.index < store.size then .wrongKind id (some .constant) (store.kind? id)
  else .outOfBounds id store.size

def refusal? (store : EntityStore) (id : ResultId) : Option Fault :=
  if store.Supplies id then none else some (store.blame id)

theorem refusal?_eq_none : store.refusal? id = none ↔ store.Supplies id := by
  by_cases supplied : store.Supplies id <;> simp [refusal?, supplied]

theorem refusal?_eq_some {fault : Fault} :
    store.refusal? id = some fault ↔ ¬ store.Supplies id ∧ fault = store.blame id := by
  by_cases supplied : store.Supplies id <;> simp [refusal?, supplied, eq_comm]

@[simp] theorem supplies_mark (ids : List ResultId) :
    (store.mark ids).Supplies id ↔ store.Supplies id := by
  simp only [Supplies, size_mark, kind?_mark]

@[simp] theorem blame_mark (ids : List ResultId) : (store.mark ids).blame id = store.blame id := by
  simp only [blame, size_mark, kind?_mark]

@[simp] theorem refusal?_mark (ids : List ResultId) :
    (store.mark ids).refusal? id = store.refusal? id := by
  simp only [refusal?, supplies_mark, blame_mark]

private theorem mark_singleton {slot : Slot} (held : store.slots[id.index]? = some slot) :
    store.mark [id] = ⟨store.slots.setIfInBounds id.index slot.mark⟩ := by
  apply ext_getElem?
  intro index
  rw [getElem?_mark, Array.getElem?_setIfInBounds]
  by_cases same : id.index = index
  · subst same
    have inside := (Array.getElem?_eq_some_iff.mp held).1
    rw [held, if_pos rfl, if_pos inside]
    simp
  · simp [same]

private theorem mark_other {slot : Slot} (held : store.slots[id.index]? = some slot)
    (other : slot.kind? ≠ some .constant) : store.mark [id] = store := by
  rw [mark_singleton held, Slot.mark_of_kind other]
  apply ext_getElem?
  intro index
  rw [Array.getElem?_setIfInBounds]
  by_cases same : id.index = index
  · subst same
    rw [if_pos rfl, if_pos (Array.getElem?_eq_some_iff.mp held).1, held]
  · rw [if_neg same]

theorem visit_eq : store.visit id = match store.refusal? id with
    | some fault => .error fault
    | none => .ok ((store.arguments id).reverse, store.mark [id]) := by
  cases held : store.slots[id.index]? with
  | none =>
    have outside : ¬ id.index < store.size := Nat.not_lt.mpr (Array.getElem?_eq_none_iff.mp held)
    simp [visit, slot, held, refusal?, Supplies, blame, outside]
  | some slot =>
    have inside : id.index < store.size := (Array.getElem?_eq_some_iff.mp held).1
    have kind : store.kind? id = slot.kind? := by rw [kind?, held, Option.bind_some]
    simp only [visit, EntityStore.slot, held, refusal?, Supplies, blame, inside, kind, arguments, find?]
    match slot with
    | none => rfl
    | some ⟨kind, payload⟩ =>
      cases kind
      case constant => rw [mark_singleton held]; rfl
      case constantOp | undef => rw [mark_other held (by simp [Slot.kind?])]; rfl
      all_goals rfl

end EntityStore

end Shader

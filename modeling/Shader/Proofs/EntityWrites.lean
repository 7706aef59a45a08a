import Shader.Proofs.StoreGrowth

/-! When a read or a write of one slot is accepted, and what a write leaves in the other
slots. An id past the bound is refused before the kind of its slot is looked at. -/

namespace Shader

namespace Slot

private theorem all_kind_iff {slot : Slot} {kind : Kind} :
    slot.all (·.kind = kind) = true ↔ slot.kind? = none ∨ slot.kind? = some kind := by
  cases slot <;> simp [kind?]

theorem as?_eq_some {slot : Slot} {kind : Kind} {payload : kind.Payload} :
    slot.as? kind = some payload ↔ slot = some ⟨kind, payload⟩ := by
  cases slot <;> simp [as?, Entity.as?_eq_some]

theorem as?_eq_none {slot : Slot} {kind : Kind} : slot.as? kind = none ↔ slot.kind? ≠ some kind := by
  cases slot <;> simp [as?, kind?, Entity.as?_eq_none]

private theorem modify?_eq_map {slot : Slot} {kind : Kind} {change : kind.Payload → kind.Payload} :
    slot.modify? kind change = (slot.as? kind).map fun payload => ⟨kind, change payload⟩ := by
  cases slot with
  | none => rfl
  | some entity => exact Entity.modify?_eq_map

end Slot

namespace EntityStore

variable {store next : EntityStore} {id : ResultId} {kind : Kind} {fault : Fault} {index : Nat}

theorem kind?_of_slot {slot : Slot} (held : store.slot id = .ok slot) : store.kind? id = slot.kind? := by
  rw [kind?, slot_eq_ok.mp held, Option.bind_some]

private theorem slot_of_lt (inside : id.index < store.size) : ∃ slot, store.slot id = .ok slot :=
  ⟨_, slot_eq_ok.mpr (Array.getElem?_eq_getElem inside)⟩

theorem slot_eq_error : store.slot id = .error fault ↔
    ¬ id.index < store.size ∧ fault = .outOfBounds id store.size := by
  by_cases inside : id.index < store.size
  · obtain ⟨slot, held⟩ := slot_of_lt inside
    simp [held, inside]
  · have missing : store.slots[id.index]? = none := Array.getElem?_eq_none (Nat.not_lt.mp inside)
    simp [EntityStore.slot, missing, inside, eq_comm]

theorem find?_of_slot {slot : Slot} (held : store.slot id = .ok slot) : store.find? id kind = slot.as? kind := by
  rw [find?, slot_eq_ok.mp held, Option.bind_some]

theorem kind?_of_find? {payload : kind.Payload} (found : store.find? id kind = some payload) :
    store.kind? id = some kind := by
  rw [kind?, find?_eq_some.mp found]
  rfl

theorem fetch_eq_ok {payload : kind.Payload} :
    store.fetch id kind = .ok payload ↔ store.find? id kind = some payload := by
  rw [fetch]
  cases held : store.slot id with
  | ok slot =>
    rw [find?_of_slot held]
    cases read : slot.as? kind <;> simp [read]
  | error cause =>
    have missing := Array.getElem?_eq_none (Nat.not_lt.mp (slot_eq_error.mp held).1)
    simp [find?, missing]

theorem fetch_eq_error : store.fetch id kind = .error fault ↔
    ¬ id.index < store.size ∧ fault = .outOfBounds id store.size ∨
      id.index < store.size ∧ store.kind? id ≠ some kind ∧ fault = .wrongKind id kind (store.kind? id) := by
  rw [fetch]
  cases held : store.slot id with
  | ok slot =>
    have inside := lt_size_of_slot held
    rw [kind?_of_slot held, ← Slot.as?_eq_none]
    cases read : slot.as? kind <;> simp [read, inside, eq_comm]
  | error cause =>
    obtain ⟨outside, rfl⟩ := slot_eq_error.mp held
    simp [outside, eq_comm]

theorem put_eq_ok {payload : kind.Payload} : store.put id kind payload = .ok next ↔
    (id.index < store.size ∧ (store.kind? id = none ∨ store.kind? id = some kind)) ∧
      next = store.write id ⟨kind, payload⟩ := by
  rw [put]
  cases held : store.slot id with
  | ok slot =>
    rw [kind?_of_slot held, ← Slot.all_kind_iff]
    by_cases takes : slot.all (·.kind = kind) = true
    · simp only [takes, lt_size_of_slot held, if_true, true_and, Except.ok.injEq]
      exact eq_comm
    · simp [takes]
  | error cause => simp [(slot_eq_error.mp held).1]

theorem put_eq_error {payload : kind.Payload} : store.put id kind payload = .error fault ↔
    ¬ id.index < store.size ∧ fault = .outOfBounds id store.size ∨
      id.index < store.size ∧ ∃ found, store.kind? id = some found ∧ found ≠ kind ∧
        fault = .kindChange id (some found) kind := by
  rw [put]
  cases held : store.slot id with
  | ok slot =>
    have inside := lt_size_of_slot held
    rw [kind?_of_slot held]
    cases slot with
    | none => simp [inside, Slot.kind?]
    | some entity =>
      by_cases same : entity.kind = kind
      · simp [inside, Slot.kind?, same]
      · simp [inside, Slot.kind?, same, eq_comm (b := fault)]
  | error cause =>
    obtain ⟨outside, rfl⟩ := slot_eq_error.mp held
    simp [outside, eq_comm]

/-- Reading a payload to change it is accepted or refused as reading it is. -/
theorem modify_eq_map_fetch {change : kind.Payload → kind.Payload} : store.modify id kind change =
    (store.fetch id kind).map fun payload => store.write id ⟨kind, change payload⟩ := by
  rw [modify, fetch]
  cases store.slot id with
  | error fault => rfl
  | ok slot =>
    simp only [Slot.modify?_eq_map]
    cases slot.as? kind <;> rfl

theorem modify_eq_ok {change : kind.Payload → kind.Payload} : store.modify id kind change = .ok next ↔
    ∃ payload, store.find? id kind = some payload ∧ next = store.write id ⟨kind, change payload⟩ := by
  simp only [modify_eq_map_fetch, ← fetch_eq_ok]
  cases store.fetch id kind <;> simp [Except.map, eq_comm]

theorem modify_eq_error {change : kind.Payload → kind.Payload} : store.modify id kind change = .error fault ↔
    ¬ id.index < store.size ∧ fault = .outOfBounds id store.size ∨
      id.index < store.size ∧ store.kind? id ≠ some kind ∧ fault = .wrongKind id kind (store.kind? id) := by
  rw [modify_eq_map_fetch, ← fetch_eq_error]
  cases store.fetch id kind <;> simp [Except.map]

theorem getElem?_write_self {entity : Entity} (inside : id.index < store.size) :
    (store.write id entity).slots[id.index]? = some (some entity) :=
  Array.getElem?_setIfInBounds_self_of_lt inside

theorem getElem?_write_of_ne {entity : Entity} (apart : id.index ≠ index) :
    (store.write id entity).slots[index]? = store.slots[index]? :=
  Array.getElem?_setIfInBounds_ne apart

/-! ### After growth -/

section

variable (size : Nat)

theorem fetch_growTo {payload : kind.Payload} (fetched : store.fetch id kind = .ok payload) :
    (store.growTo size).fetch id kind = .ok payload :=
  fetch_eq_ok.mpr ((find?_growTo size).trans (fetch_eq_ok.mp fetched))

theorem put_growTo {payload : kind.Payload} (stored : store.put id kind payload = .ok next) :
    (store.growTo size).put id kind payload = .ok (next.growTo size) := by
  obtain ⟨⟨inside, takes⟩, rfl⟩ := put_eq_ok.mp stored
  rw [put_eq_ok, kind?_growTo, write_growTo size inside]
  exact ⟨⟨Nat.lt_of_lt_of_le inside (size_le_growTo size), takes⟩, rfl⟩

theorem modify_growTo {change : kind.Payload → kind.Payload} (changed : store.modify id kind change = .ok next) :
    (store.growTo size).modify id kind change = .ok (next.growTo size) := by
  obtain ⟨payload, found, rfl⟩ := modify_eq_ok.mp changed
  have inside := lt_size_of_fetch (fetch_eq_ok.mpr found)
  rw [modify_eq_ok, find?_growTo]
  exact ⟨payload, found, (write_growTo size inside _).symm⟩

end

end EntityStore

end Shader

import Shader.Proofs.EntityWrites
import Shader.Proofs.ModuleEdits

/-! The kind of an id never changes once it has one. An edit makes one of four things of
a slot: it keeps it, stores a payload of the kind the slot has or may still take, changes
the payload in place, or marks a constant as an array length. -/

namespace Shader

private theorem Slot.mark_cases (slot : Slot) : slot.mark = slot ∨ ∃ constant : Constant,
    constant.isArrayLength = false ∧ slot = some ⟨.constant, constant⟩ := by
  by_cases other : slot.kind? = some .constant
  · obtain ⟨⟨kind, constant⟩, rfl, rfl⟩ := Option.map_eq_some_iff.mp other
    cases flag : constant.isArrayLength with
    | false => exact .inr ⟨constant, flag, rfl⟩
    | true =>
      refine .inl ?_
      rw [mark, ← flag]
  · exact .inl (mark_of_kind other)

namespace EntityStore

/-- What an edit can make of the slot of an id. -/
inductive Turns (store : EntityStore) (id : ResultId) : Edit → Slot → Slot → Prop where
  | kept (edit : Edit) (slot : Slot) : Turns store id edit slot slot
  | stored {kind : Kind} {payload : kind.Payload} {slot : Slot}
      (takes : slot.kind? = none ∨ slot.kind? = some kind) :
      Turns store id (.put id kind payload) slot (some ⟨kind, payload⟩)
  | changed {kind : Kind} {change : kind.Payload → kind.Payload} {payload : kind.Payload} :
      Turns store id (.modify id kind change) (some ⟨kind, payload⟩) (some ⟨kind, change payload⟩)
  | marked {start : ResultId} {constant : Constant} (reached : store.Reaches start id)
      (unmarked : constant.isArrayLength = false) :
      Turns store id (.markArrayLength start) (some ⟨.constant, constant⟩)
        (some ⟨.constant, { constant with isArrayLength := true }⟩)

variable {store : EntityStore} {id : ResultId} {edit : Edit} {slot next : Slot}

private theorem Turns.kind?_eq {kind : Kind} (turns : store.Turns id edit slot next)
    (known : slot.kind? = some kind) : next.kind? = some kind := by
  cases turns with
  | kept => exact known
  | stored takes =>
    rw [known] at takes
    exact (takes.resolve_left (Option.some_ne_none kind)).symm
  | changed | marked => exact known

private theorem turns_write {named : ResultId} {entity : Entity} (held : store.slot id = .ok slot)
    (turns : named = id → store.Turns id edit slot (some entity)) :
    ∃ next, (store.write named entity).slot id = .ok next ∧ store.Turns id edit slot next := by
  by_cases same : named = id
  · subst same
    exact ⟨_, slot_eq_ok.mpr (getElem?_write_self (lt_size_of_slot held)), turns rfl⟩
  · refine ⟨slot, ?_, .kept edit slot⟩
    rw [slot_eq_ok, getElem?_write_of_ne (mt ResultId.index_inj.mp same), slot_eq_ok.mp held]

private theorem turns_mark {start : ResultId} {ids : List ResultId} (held : store.slot id = .ok slot)
    (reached : ∀ other ∈ ids, store.Reaches start other) :
    ∃ next, (store.mark ids).slot id = .ok next ∧ store.Turns id (.markArrayLength start) slot next := by
  refine ⟨if ids.any (·.index == id.index) then slot.mark else slot, ?_, ?_⟩
  · rw [slot_eq_ok, getElem?_mark, slot_eq_ok.mp held, Option.map_some]
  · split
    next listed =>
      obtain ⟨other, member, same⟩ := List.any_eq_true.mp listed
      have reaches := reached other member
      rw [ResultId.index_inj.mp (eq_of_beq same)] at reaches
      rcases slot.mark_cases with same | ⟨constant, unmarked, rfl⟩
      · rw [same]
        exact .kept _ slot
      · exact .marked reaches unmarked
    next => exact .kept _ slot

theorem turns_perform (held : store.slot id = .ok slot) (edit : Edit) :
    ∃ next, (store.perform edit).state.slot id = .ok next ∧ store.Turns id edit slot next := by
  cases edit with
  | put named kind payload =>
    rw [perform]
    cases stored : store.put named kind payload with
    | error fault => exact ⟨slot, held, .kept _ slot⟩
    | ok result =>
      obtain ⟨⟨_, takes⟩, rfl⟩ := put_eq_ok.mp stored
      refine turns_write held ?_
      rintro rfl
      exact .stored (kind?_of_slot held ▸ takes)
  | modify named kind change =>
    rw [perform]
    cases changed : store.modify named kind change with
    | error fault => exact ⟨slot, held, .kept _ slot⟩
    | ok result =>
      obtain ⟨payload, found, rfl⟩ := modify_eq_ok.mp changed
      refine turns_write held ?_
      rintro rfl
      rw [find?_of_slot held, Slot.as?_eq_some] at found
      exact found ▸ .changed
  | markArrayLength start =>
    obtain ⟨ids, state, reached⟩ := exists_state_markArrayLength store start
    rw [perform, state]
    exact turns_mark held reached

end EntityStore

namespace Module

variable {m : Module} {edits : List Edit} {id : ResultId} {slot : Slot}

/-- Only an edit of the entities turns a slot; growth adds slots after the others. -/
theorem turns_perform (held : m.entities.slot id = .ok slot) (edit : Edit) :
    ∃ next, (m.perform edit).state.entities.slot id = .ok next ∧
      (next = slot ∨ ∃ made, edit = .entity made ∧ m.entities.Turns id made slot next) := by
  have kept : ∀ {after : Module}, after.entities = m.entities → after.entities.slot id = .ok slot :=
    fun same => by rw [same, held]
  cases edit with
  | growTo bound => exact ⟨slot, EntityStore.slot_growTo _ held, .inl rfl⟩
  | mint count =>
    refine ⟨slot, ?_, .inl rfl⟩
    rw [perform, mint]
    split
    · exact EntityStore.slot_growTo _ held
    · exact held
  | entity made =>
    obtain ⟨next, present, turns⟩ := EntityStore.turns_perform held made
    exact ⟨next, present, .inr ⟨made, rfl, turns⟩⟩
  | annotate | controlFlow | entryPoint =>
    exact ⟨slot, kept (Outcome.view_ofExcept Module.entities fun _ => rfl), .inl rfl⟩
  | setSource | declare => exact ⟨slot, held, .inl rfl⟩

theorem kind?_perform {kind : Kind} (known : m.entities.kind? id = some kind) (edit : Edit) :
    (m.perform edit).state.entities.kind? id = some kind := by
  obtain ⟨slot, present, same⟩ := Option.bind_eq_some_iff.mp known
  obtain ⟨next, after, turns⟩ := turns_perform (EntityStore.slot_eq_ok.mpr present) edit
  rw [EntityStore.kind?_of_slot after]
  rcases turns with rfl | ⟨made, _, turns⟩
  · exact same
  · exact turns.kind?_eq same

theorem kind?_run {kind : Kind} (known : m.entities.kind? id = some kind) (edits : List Edit) :
    (m.run edits).entities.kind? id = some kind := by
  induction edits generalizing m with
  | nil => exact known
  | cons edit edits ih => exact ih (kind?_perform known edit)

/-- The edit is addressed to the payload of the id. -/
def Edit.Writes (id : ResultId) : Edit → Prop
  | .entity (.put named _ _) | .entity (.modify named _ _) => named = id
  | _ => False

theorem slot_perform (held : m.entities.slot id = .ok slot) {edit : Edit} (spared : ¬ edit.Writes id) :
    ∃ next, (m.perform edit).state.entities.slot id = .ok next ∧ (next = slot ∨ next = slot.mark) := by
  obtain ⟨next, present, same | ⟨made, rfl, turns⟩⟩ := turns_perform held edit
  · exact ⟨next, present, .inl same⟩
  · refine ⟨next, present, ?_⟩
    cases turns with
    | kept => exact .inl rfl
    | stored | changed => exact absurd rfl spared
    | marked => exact .inr rfl

theorem slot_run (held : m.entities.slot id = .ok slot) (spared : ∀ edit ∈ edits, ¬ edit.Writes id) :
    ∃ last, (m.run edits).entities.slot id = .ok last ∧ (last = slot ∨ last = slot.mark) := by
  induction edits generalizing m slot with
  | nil => exact ⟨slot, held, .inl rfl⟩
  | cons edit edits ih =>
    obtain ⟨next, present, step⟩ := slot_perform held (spared edit List.mem_cons_self)
    obtain ⟨last, final, run⟩ := ih present fun later member => spared later (List.mem_cons_of_mem _ member)
    refine ⟨last, final, ?_⟩
    rcases step with rfl | rfl
    · exact run
    · rw [Slot.mark_mark, or_self] at run
      exact .inr run

section Put

variable {kind : Kind} {payload : kind.Payload}

private theorem fault?_put : (m.perform (.entity (.put id kind payload))).fault? =
    (Outcome.ofExcept m.entities (m.entities.put id kind payload)).fault? := rfl

theorem put_accepted : (m.perform (.entity (.put id kind payload))).fault? = none ↔
    id.index < m.bound ∧ (m.entities.kind? id = none ∨ m.entities.kind? id = some kind) := by
  simp only [fault?_put, Outcome.fault?_ofExcept_eq_none, EntityStore.put_eq_ok, exists_and_left, exists_eq,
    and_true, bound]

theorem put_refused {fault : Fault} : (m.perform (.entity (.put id kind payload))).fault? = some fault ↔
    ¬ id.index < m.bound ∧ fault = .outOfBounds id m.bound ∨
      id.index < m.bound ∧ ∃ found, m.entities.kind? id = some found ∧ found ≠ kind ∧
        fault = .kindChange id (some found) (some kind) := by
  rw [fault?_put, Outcome.fault?_ofExcept_eq_some, EntityStore.put_eq_error, bound]

private theorem entities_of_put {next : Module}
    (done : m.perform (.entity (.put id kind payload)) = .done next) :
    id.index < m.entities.size ∧ next = { m with entities := m.entities.write id ⟨kind, payload⟩ } := by
  have accepted : (Outcome.ofExcept m.entities (m.entities.put id kind payload)).fault? = none :=
    fault?_put.symm.trans (congrArg Outcome.fault? done)
  obtain ⟨entities, stored⟩ := Outcome.fault?_ofExcept_eq_none.mp accepted
  obtain ⟨⟨inside, _⟩, rfl⟩ := EntityStore.put_eq_ok.mp stored
  rw [perform, EntityStore.perform, stored] at done
  exact ⟨inside, (congrArg Outcome.state done).symm⟩

end Put

/-- What storing under an id does, and what the slots keep through any run. -/
structure KeepsKinds (m : Module) : Prop where
  kinds : ∀ edits id kind, m.entities.kind? id = some kind → (m.run edits).entities.kind? id = some kind
  accepts : ∀ id kind payload, (m.perform (.entity (.put id kind payload))).fault? = none ↔
    id.index < m.bound ∧ (m.entities.kind? id = none ∨ m.entities.kind? id = some kind)
  refuses : ∀ id kind payload fault, (m.perform (.entity (.put id kind payload))).fault? = some fault ↔
    ¬ id.index < m.bound ∧ fault = .outOfBounds id m.bound ∨
      id.index < m.bound ∧ ∃ found, m.entities.kind? id = some found ∧ found ≠ kind ∧
        fault = .kindChange id (some found) (some kind)
  stored : ∀ id kind payload next, m.perform (.entity (.put id kind payload)) = .done next →
    next.entities.fetch id kind = .ok payload ∧ ∀ index, index ≠ id.index →
      next.entities.slots[index]? = m.entities.slots[index]?
  turns : ∀ edit id slot, m.entities.slot id = .ok slot →
    ∃ next, (m.perform edit).state.entities.slot id = .ok next ∧
      (next = slot ∨ ∃ made, edit = .entity made ∧ m.entities.Turns id made slot next)
  unwritten : ∀ edits id slot, m.entities.slot id = .ok slot → (∀ edit ∈ edits, ¬ edit.Writes id) →
    ∃ last, (m.run edits).entities.slot id = .ok last ∧ (last = slot ∨ last = slot.mark)

theorem keepsKinds (m : Module) : m.KeepsKinds where
  kinds _ _ _ known := kind?_run known _
  accepts _ _ _ := put_accepted
  refuses _ _ _ _ := put_refused
  stored id kind payload next done := by
    obtain ⟨inside, rfl⟩ := entities_of_put done
    constructor
    · rw [EntityStore.fetch_eq_ok, EntityStore.find?_eq_some, EntityStore.getElem?_write_self inside]
    · exact fun index apart => EntityStore.getElem?_write_of_ne (Ne.symm apart)
  turns edit _ _ held := turns_perform held edit
  unwritten _ _ _ held spared := slot_run held spared

def oneConstant : Module :=
  (ofWords []).run [.growTo 3, .entity (.put ⟨1⟩ .constant (.scalar .null 4))]

/-- A constant that is stored anew, asked to be a type, changed, marked and grown past. -/
theorem keepsKinds_oneConstant :
    (oneConstant.perform (.entity (.put ⟨1⟩ .type {}))).fault? =
      some (.kindChange ⟨1⟩ (some .constant) (some .type)) ∧
    (oneConstant.run [.entity (.put ⟨1⟩ .constant (.scalar .null 8)), .entity (.put ⟨1⟩ .type {}),
      .entity (.modify ⟨1⟩ .constant fun constant => { constant with specialization := true }),
      .entity (.markArrayLength ⟨1⟩), .growTo 9]).entities.kind? ⟨1⟩ = some .constant ∧
    ∃ next, oneConstant.perform (.entity (.put ⟨2⟩ .undef {})) = .done next ∧
      next.entities.fetch ⟨2⟩ .undef = .ok {} := by
  have laws := keepsKinds oneConstant
  have known : oneConstant.entities.kind? ⟨1⟩ = some .constant := by decide
  refine ⟨(laws.refuses _ _ _ _).mpr (.inr (by decide)), laws.kinds _ _ _ known, ?_⟩
  have accepted := (laws.accepts ⟨2⟩ .undef {}).mpr (by decide)
  have done := Outcome.eq_done accepted
  exact ⟨_, done, (laws.stored _ _ _ _ done).1⟩

end Module

end Shader

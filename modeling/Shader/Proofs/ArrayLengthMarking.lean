import Mathlib.Data.List.TakeWhile
import Shader.Module
import Shader.Proofs.ArrayLengthWalk

/-! What marking an array length does to a module whose operations have no cycle
below the length: when it is accepted, which constants it marks, and where it
stops when it is refused. -/

namespace Shader

namespace EntityStore

variable {store : EntityStore} {id : ResultId}

theorem afterVisits_done {visits : List ResultId} : (store.afterVisits visits).fault? = none ↔
    ∀ id ∈ visits, store.Supplies id := by
  simp only [afterVisits, List.findSome?_eq_none_iff, refusal?_eq_none]

theorem state_afterVisits_done {visits : List ResultId} (supplied : ∀ id ∈ visits, store.Supplies id) :
    (store.afterVisits visits).state = store.mark visits := by
  have whole : visits.takeWhile (fun id => (store.refusal? id).isNone) = visits := by
    apply List.takeWhile_eq_self_iff.mpr
    intro id member
    rw [refusal?_eq_none.mpr (supplied id member), Option.isNone_none]
  rw [afterVisits, whole]

theorem afterVisits_fault {visits : List ResultId} {fault : Fault}
    (refused : (store.afterVisits visits).fault? = some fault) :
    ∃ before bad after, visits = before ++ bad :: after ∧ (∀ id ∈ before, store.Supplies id) ∧
      ¬ store.Supplies bad ∧ fault = store.blame bad ∧
      (store.afterVisits visits).state = store.mark before := by
  obtain ⟨before, bad, after, split, found, earlier⟩ := List.findSome?_eq_some_iff.mp refused
  obtain ⟨rejected, blamed⟩ := refusal?_eq_some.mp found
  have supplied : ∀ id ∈ before, store.Supplies id :=
    fun id member => refusal?_eq_none.mp (earlier id member)
  refine ⟨before, bad, after, split, supplied, rejected, blamed, ?_⟩
  have stop : visits.takeWhile (fun id => (store.refusal? id).isNone) = before := by
    rw [split, List.takeWhile_append_of_pos, List.takeWhile_cons_of_neg, List.append_nil]
    · simp [found]
    · intro id member
      simp [earlier id member]
  rw [afterVisits, stop]

end EntityStore

/-- The constants among the chosen ids are marked, and nothing else differs. -/
structure Marks (chosen : ResultId → Prop) (before after : Module) : Prop where
  frame : after = { before with entities := after.entities }
  marked : ∀ id constant, chosen id → before.entities.find? id .constant = some constant →
    after.entities.find? id .constant = some { constant with isArrayLength := true }
  kept : ∀ index : Nat,
    (∀ id, chosen id → before.entities.kind? id = some .constant → id.index ≠ index) →
    after.entities.slots[index]? = before.entities.slots[index]?

namespace Marks

theorem of_mark (m : Module) (ids : List ResultId) :
    Marks (· ∈ ids) m { m with entities := m.entities.mark ids } where
  frame := rfl
  marked id constant member found := by
    have chosen : ids.any (·.index == id.index) = true :=
      List.any_eq_true.mpr ⟨id, member, beq_self_eq_true _⟩
    have held := EntityStore.find?_eq_some.mp found
    rw [EntityStore.find?_eq_some, EntityStore.getElem?_mark, held, Option.map_some, if_pos chosen,
      Slot.mark]
  kept index spared := by
    rw [EntityStore.getElem?_mark]
    cases held : m.entities.slots[index]? with
    | none => rfl
    | some slot =>
      rw [Option.map_some]
      split
      next chosen =>
        obtain ⟨id, member, same⟩ := List.any_eq_true.mp chosen
        have same := eq_of_beq same
        have other : slot.kind? ≠ some .constant := by
          intro constant
          refine spared id member ?_ same
          rw [EntityStore.kind?, same, held, Option.bind_some, constant]
        rw [Slot.mark_of_kind other]
      next => rfl

private theorem congr {chosen other : ResultId → Prop} {before after : Module}
    (same : ∀ id, chosen id ↔ other id) (marks : Marks chosen before after) : Marks other before after := by
  have equal : chosen = other := funext fun id => propext (same id)
  exact equal ▸ marks

end Marks

namespace Module

variable {m : Module} {id : ResultId}

theorem perform_markArrayLength : m.perform (.entity (.markArrayLength id)) =
    (m.entities.markArrayLength id).map fun entities => { m with entities } := rfl

private theorem map_entities_inj {first second : Outcome EntityStore} :
    (first.map fun entities => { m with entities }) = (second.map fun entities => { m with entities }) ↔
      first = second := by
  obtain ⟨state, fault?⟩ := first
  obtain ⟨other, cause?⟩ := second
  simp [Outcome.map]

/-- Marking is accepted if everything the length is computed from can supply one.
Then the constants among it are marked, and nothing else has changed. -/
theorem markArrayLength_exact (m : Module) (id : ResultId) (acyclic : m.entities.Acyclic id) :
    ((m.perform (.entity (.markArrayLength id))).fault? = none ↔
      ∀ other, m.entities.Reaches id other → m.entities.Supplies other) ∧
    ((m.perform (.entity (.markArrayLength id))).fault? = none →
      Marks (m.entities.Reaches id) m (m.perform (.entity (.markArrayLength id))).state) := by
  obtain ⟨visits, order, walk, _⟩ := acyclic.exists_visits
  have reached : ∀ other, other ∈ visits ↔ m.entities.Reaches id other := by
    simp [order.mem_iff]
  have accepted : (m.perform (.entity (.markArrayLength id))).fault? = none ↔
      ∀ other, m.entities.Reaches id other → m.entities.Supplies other := by
    simp only [perform_markArrayLength, Outcome.map, walk, EntityStore.afterVisits_done, reached]
  refine ⟨accepted, fun done => ?_⟩
  have supplied : ∀ other ∈ visits, m.entities.Supplies other :=
    fun other member => accepted.mp done other ((reached other).mp member)
  simp only [perform_markArrayLength, Outcome.map, walk, EntityStore.state_afterVisits_done supplied]
  exact (Marks.of_mark m visits).congr reached

/-- A length that is computed from one constant several times over. -/
def sharedLength : Module where
  entities := ⟨#[none, some ⟨.constant, .scalar .null 4⟩,
    some ⟨.constantOp, { arguments := [⟨1⟩, ⟨1⟩] }⟩,
    some ⟨.constantOp, { arguments := [⟨2⟩, ⟨1⟩, ⟨2⟩] }⟩, some ⟨.constant, .scalar .null 8⟩]⟩
  annotations := ⟨.replicate 5 default⟩

theorem markArrayLength_sharedLength : sharedLength.entities.Acyclic ⟨3⟩ ∧
    (sharedLength.perform (.entity (.markArrayLength ⟨3⟩))).fault? = none ∧
    Marks (sharedLength.entities.Reaches ⟨3⟩) sharedLength
      (sharedLength.perform (.entity (.markArrayLength ⟨3⟩))).state := by
  have acyclic : sharedLength.entities.Acyclic ⟨3⟩ := .of_decreasing (by decide) _
  have accepted : (sharedLength.perform (.entity (.markArrayLength ⟨3⟩))).fault? = none := by decide
  exact ⟨acyclic, accepted, (markArrayLength_exact sharedLength ⟨3⟩ acyclic).2 accepted⟩

/-- The walk and the recursion agree, and a refusal is that of the first id in
depth-first order that is refused: the constants before it have been marked, and
nothing else has changed. -/
theorem markArrayLength_recursive (m : Module) (id : ResultId) (acyclic : m.entities.Acyclic id) :
    (∀ outcome, m.entities.Recursion id outcome ↔
      m.perform (.entity (.markArrayLength id)) = outcome.map fun entities => { m with entities }) ∧
    ∃ visits, (∀ order, m.entities.Preorder [id] order ↔ order = visits) ∧
      ∀ fault, (m.perform (.entity (.markArrayLength id))).fault? = some fault →
        ∃ before bad after, visits = before ++ bad :: after ∧
          (∀ other ∈ before, m.entities.Supplies other) ∧ ¬ m.entities.Supplies bad ∧
          fault = (if bad.index < m.bound then .wrongKind bad (some .constant) (m.entities.kind? bad)
            else .outOfBounds bad m.bound) ∧
          Marks (· ∈ before) m (m.perform (.entity (.markArrayLength id))).state := by
  obtain ⟨visits, order, walk, recursion⟩ := acyclic.exists_visits
  refine ⟨?_, visits, ?_, ?_⟩
  · intro outcome
    rw [recursion, perform_markArrayLength, walk]
    exact ⟨fun same => same ▸ rfl, fun same => (map_entities_inj.mp same).symm⟩
  · intro other
    exact ⟨fun same => same.unique order, fun same => same ▸ order⟩
  · intro fault refused
    simp only [perform_markArrayLength, Outcome.map, walk] at refused ⊢
    obtain ⟨before, bad, after, split, supplied, unsupplied, blamed, marked⟩ :=
      EntityStore.afterVisits_fault refused
    refine ⟨before, bad, after, split, supplied, unsupplied, blamed, ?_⟩
    rw [marked]
    exact Marks.of_mark m before

/-- A length with an argument that was never declared, between two constants. -/
def gapLength : Module where
  entities := ⟨#[none, some ⟨.constant, .scalar .null 4⟩, some ⟨.constant, .scalar .null 8⟩, none,
    some ⟨.constantOp, { arguments := [⟨1⟩, ⟨3⟩, ⟨2⟩] }⟩]⟩
  annotations := ⟨.replicate 5 default⟩

theorem markArrayLength_gapLength : gapLength.entities.Acyclic ⟨4⟩ ∧
    gapLength.entities.Recursion ⟨4⟩ {
      state := gapLength.entities.mark [⟨2⟩]
      fault? := some (.wrongKind ⟨3⟩ (some .constant) none) } := by
  have acyclic : gapLength.entities.Acyclic ⟨4⟩ := .of_decreasing (by decide) _
  exact ⟨acyclic, ((markArrayLength_recursive gapLength ⟨4⟩ acyclic).1 _).mpr (by decide)⟩

end Module

end Shader

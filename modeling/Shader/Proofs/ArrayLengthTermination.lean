import Shader.Proofs.ArrayLengthMarking

/-! When the walk that marks an array length comes to an end. Shared arguments are gone
through once for each way that leads to them, so nothing that the walk leaves behind gets
smaller with every visit; what decides is whether the operations below the length have
a cycle. -/

namespace Shader

namespace EntityStore

variable {store : EntityStore} {id : ResultId} {rest pending : List ResultId}

def pendingAfter (store : EntityStore) : (visits : Nat) → (pending : List ResultId) →
    Except Fault (List ResultId)
  | 0, pending => .ok pending
  | _ + 1, [] => .ok []
  | visits + 1, id :: rest =>
    match store.visit id with
    | .error fault => .error fault
    | .ok (next, store) => store.pendingAfter visits (next ++ rest)

theorem drain_eq_none {visits : Nat} : store.drain visits pending = none ↔
    ∃ first rest, store.pendingAfter visits pending = .ok (first :: rest) := by
  induction visits generalizing store pending with
  | zero => cases pending <;> simp [drain, pendingAfter]
  | succ visits ih =>
    cases pending with
    | nil => simp [drain, pendingAfter]
    | cons id rest =>
      rw [drain, pendingAfter]
      cases store.visit id with
      | error fault => simp
      | ok visited => exact ih

/-- The id is computed from one that is computed from itself. -/
def Circular (store : EntityStore) (id : ResultId) : Prop :=
  ∃ other, store.Reaches id other ∧ Relation.TransGen store.Uses other other

private theorem Circular.exists_argument (circular : store.Circular id) :
    ∃ argument, store.Uses id argument ∧ store.Circular argument := by
  obtain ⟨other, reached, cycle⟩ := circular
  rcases Relation.ReflTransGen.cases_head reached with rfl | ⟨argument, used, reached⟩
  · obtain ⟨argument, used, back⟩ := Relation.TransGen.head'_iff.mp cycle
    exact ⟨argument, used, id, back, cycle⟩
  · exact ⟨argument, used, other, reached, cycle⟩

/-- Some pending id leads into a cycle, and none of them to an id that would be refused. -/
structure Unending (store : EntityStore) (pending : List ResultId) : Prop where
  circular : ∃ id ∈ pending, store.Circular id
  supplied : ∀ id ∈ pending, ∀ other, store.Reaches id other → store.Supplies other

private theorem Unending.visit (unending : store.Unending (id :: rest)) :
    store.Unending ((store.arguments id).reverse ++ rest) where
  circular := by
    obtain ⟨entry, member, circular⟩ := unending.circular
    rcases List.mem_cons.mp member with rfl | member
    · -- the id may have been on the only way into the cycle, which goes on with an argument
      obtain ⟨argument, used, circular⟩ := circular.exists_argument
      exact ⟨argument, List.mem_append_left rest (List.mem_reverse.mpr used), circular⟩
    · exact ⟨entry, List.mem_append_right _ member, circular⟩
  supplied := by
    intro start member other reached
    rcases List.mem_append.mp member with used | member
    · exact unending.supplied id List.mem_cons_self other (.head (List.mem_reverse.mp used) reached)
    · exact unending.supplied start (List.mem_cons_of_mem id member) other reached

theorem Unending.pendingAfter (unending : store.Unending pending) (marked : List ResultId) (visits : Nat) :
    ∃ first rest, (store.mark marked).pendingAfter visits pending = .ok (first :: rest) := by
  induction visits generalizing pending marked with
  | zero =>
    obtain ⟨id, member, _⟩ := unending.circular
    obtain ⟨first, rest, rfl⟩ := List.exists_cons_of_ne_nil (List.ne_nil_of_mem member)
    exact ⟨first, rest, rfl⟩
  | succ visits ih =>
    cases pending with
    | nil =>
      obtain ⟨id, member, _⟩ := unending.circular
      cases member
    | cons id rest =>
      have accepted : (store.mark marked).refusal? id = none := by
        rw [refusal?_mark, refusal?_eq_none]
        exact unending.supplied id List.mem_cons_self id .refl
      rw [EntityStore.pendingAfter, visit_eq, accepted]
      -- marks leave the graph as it is, so the next visit finds the same ways
      simp only [arguments_mark, mark_mark]
      exact ih unending.visit (marked ++ [id])

theorem Acyclic.exists_drain (acyclic : store.Acyclic id) :
    ∃ visits, ∀ more ≥ visits, store.drain more [id] = some (store.markArrayLength id) := by
  obtain ⟨visits, order, result, _⟩ := acyclic.exists_visits
  refine ⟨visits.length, fun more enough => ?_⟩
  have drained := drain_preorder order [] enough
  rw [mark_nil] at drained
  rw [drained, result]

end EntityStore

namespace Module

structure WalkEnds (m : Module) (id : ResultId) : Prop where
  unfinished : ∀ visits, m.entities.drain visits [id] = none ↔
    ∃ first rest, m.entities.pendingAfter visits [id] = .ok (first :: rest)
  ends : m.entities.Acyclic id →
    ∃ visits, ∀ more ≥ visits, m.entities.drain more [id] = some (m.entities.markArrayLength id)
  goesOn : (∃ other, m.entities.Reaches id other ∧ Relation.TransGen m.entities.Uses other other) →
    (∀ other, m.entities.Reaches id other → m.entities.Supplies other) →
      ∀ visits, ∃ first rest, m.entities.pendingAfter visits [id] = .ok (first :: rest)

/-- The loop ends if nothing below the length is computed from itself. If something is and
no id below the length is refused, then there is an id to visit after any number of visits. -/
theorem walk_ends (m : Module) (id : ResultId) : m.WalkEnds id where
  unfinished _ := EntityStore.drain_eq_none
  ends := EntityStore.Acyclic.exists_drain
  goesOn circular supplied visits := by
    have unending : m.entities.Unending [id] := by
      refine ⟨⟨id, List.mem_singleton_self id, circular⟩, ?_⟩
      intro start only
      rw [List.mem_singleton.mp only]
      exact supplied
    have pending := unending.pendingAfter [] visits
    rwa [EntityStore.mark_nil] at pending

/-- Two operations with one another among their arguments, beside a constant. -/
def loopedLength : Module where
  entities := ⟨#[none, some ⟨.constantOp, { arguments := [⟨3⟩, ⟨2⟩, ⟨3⟩] }⟩,
    some ⟨.constantOp, { arguments := [⟨1⟩, ⟨3⟩] }⟩, some ⟨.constant, .scalar .null 4⟩]⟩
  annotations := ⟨.replicate 4 default⟩

theorem walk_ends_loopedLength :
    (∃ visits, sharedLength.entities.drain visits [⟨3⟩] = some (sharedLength.entities.markArrayLength ⟨3⟩)) ∧
    ∀ visits, ∃ first rest, loopedLength.entities.pendingAfter visits [⟨1⟩] = .ok (first :: rest) := by
  obtain ⟨visits, ended⟩ := (walk_ends sharedLength ⟨3⟩).ends (.of_decreasing (by decide) _)
  refine ⟨⟨visits, ended visits (Nat.le_refl visits)⟩, ?_⟩
  have forth : (⟨2⟩ : ResultId) ∈ loopedLength.entities.arguments ⟨1⟩ := by decide
  have back : (⟨1⟩ : ResultId) ∈ loopedLength.entities.arguments ⟨2⟩ := by decide
  have closed : ∀ id ∈ [(⟨1⟩ : ResultId), ⟨2⟩, ⟨3⟩], ∀ argument ∈ loopedLength.entities.arguments id,
      argument ∈ [(⟨1⟩ : ResultId), ⟨2⟩, ⟨3⟩] := by decide
  have supplied : ∀ id ∈ [(⟨1⟩ : ResultId), ⟨2⟩, ⟨3⟩], loopedLength.entities.Supplies id := by decide
  refine (walk_ends loopedLength ⟨1⟩).goesOn ⟨⟨1⟩, .refl, .tail (.single forth) back⟩ fun other reached => ?_
  exact supplied other (EntityStore.mem_of_reaches closed List.mem_cons_self reached)

end Module

end Shader

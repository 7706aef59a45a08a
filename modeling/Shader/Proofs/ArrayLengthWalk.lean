import Shader.Proofs.ArrayLengthGraph

/-! Marking an array length by recursion on its arguments, which needs no list of
pending ids, and by the walk that keeps such a list. Both visit the same ids: they
mark the constants before the first id that is refused, and blame that one. -/

namespace Shader.EntityStore

mutual

/-- Marking by recursion, as it ends. A constant is marked, an operation hands on
to its arguments from the last to the first, an undef has nothing to mark, and
anything else is refused. -/
inductive Recursion : EntityStore → ResultId → Outcome EntityStore → Prop where
  | outOfBounds {store : EntityStore} {id : ResultId} (missing : store.slots[id.index]? = none) :
      Recursion store id { state := store, fault? := some (.outOfBounds id store.size) }
  | constant {store : EntityStore} {id : ResultId} {constant : Constant}
      (held : store.slots[id.index]? = some (some ⟨.constant, constant⟩)) :
      Recursion store id
        (.done (store.write id ⟨.constant, { constant with isArrayLength := true }⟩))
  | operation {store : EntityStore} {id : ResultId} {op : ConstantOp} {outcome : Outcome EntityStore}
      (held : store.slots[id.index]? = some (some ⟨.constantOp, op⟩))
      (arguments : Batch store op.arguments.reverse outcome) : Recursion store id outcome
  | undef {store : EntityStore} {id : ResultId} {undef : Undef}
      (held : store.slots[id.index]? = some (some ⟨.undef, undef⟩)) :
      Recursion store id (.done store)
  | wrongKind {store : EntityStore} {id : ResultId} {slot : Slot}
      (held : store.slots[id.index]? = some slot)
      (other : slot.kind? ∉ [some .constant, some .constantOp, some .undef]) :
      Recursion store id
        { state := store, fault? := some (.wrongKind id (some .constant) slot.kind?) }

/-- One call after another, up to the first that is refused. -/
inductive Batch : EntityStore → List ResultId → Outcome EntityStore → Prop where
  | nil {store : EntityStore} : Batch store [] (.done store)
  | stop {store : EntityStore} {id : ResultId} {rest : List ResultId} {outcome : Outcome EntityStore}
      (first : Recursion store id outcome) (refused : outcome.fault? ≠ none) :
      Batch store (id :: rest) outcome
  | cons {store : EntityStore} {id : ResultId} {rest : List ResultId} {outcome last : Outcome EntityStore}
      (first : Recursion store id outcome) (accepted : outcome.fault? = none)
      (others : Batch outcome.state rest last) : Batch store (id :: rest) last

end

variable {store : EntityStore} {id : ResultId} {pending visits : List ResultId}
  {outcome : Outcome EntityStore}

theorem Batch.nil_iff : store.Batch [] outcome ↔ outcome = .done store := by
  constructor
  · intro batch
    cases batch
    rfl
  · intro same
    rw [same]
    exact .nil

theorem Batch.cons_iff {rest : List ResultId} : store.Batch (id :: rest) outcome ↔
    ∃ first, store.Recursion id first ∧
      if first.fault? = none then first.state.Batch rest outcome else outcome = first := by
  constructor
  · intro batch
    cases batch with
    | stop first refused => exact ⟨outcome, first, by rw [if_neg refused]⟩
    | cons first accepted others => exact ⟨_, first, by rwa [if_pos accepted]⟩
  · intro split
    obtain ⟨first, call, next⟩ := split
    by_cases accepted : first.fault? = none
    · rw [if_pos accepted] at next
      exact .cons call accepted next
    · rw [if_neg accepted] at next
      subst next
      exact .stop call accepted

theorem Batch.singleton_iff : store.Batch [id] outcome ↔ store.Recursion id outcome := by
  have single : ∀ first : Outcome EntityStore,
      (if first.fault? = none then first.state.Batch [] outcome else outcome = first) ↔ outcome = first := by
    intro first
    obtain ⟨state, fault?⟩ := first
    cases fault? with
    | none => exact nil_iff
    | some fault => simp
  simp only [cons_iff, single, exists_eq_right']

private theorem Recursion.visited (call : store.Recursion id outcome) : match store.visit id with
    | .error fault => outcome = { state := store, fault? := some fault }
    | .ok (next, after) => after.Batch next outcome := by
  cases call with
  | outOfBounds missing => rw [visit, slot, missing]
  | constant held | undef held =>
    rw [visit, slot, held]
    exact .nil
  | operation held arguments =>
    rw [visit, slot, held]
    exact arguments
  | @wrongKind _ _ slot held other =>
    rw [visit, EntityStore.slot, held]
    cases slot with
    | none => rfl
    | some entity =>
      obtain ⟨kind, payload⟩ := entity
      cases kind
      case constant | constantOp | undef => simp [Slot.kind?] at other
      all_goals rfl

private theorem Recursion.of_visit (visited : match store.visit id with
    | .error fault => outcome = { state := store, fault? := some fault }
    | .ok (next, after) => after.Batch next outcome) : store.Recursion id outcome := by
  rw [visit, slot] at visited
  cases held : store.slots[id.index]? with
  | none =>
    simp only [held] at visited
    subst visited
    exact .outOfBounds held
  | some slot =>
    simp only [held] at visited
    cases slot with
    | none =>
      subst visited
      exact .wrongKind held (by simp [Slot.kind?])
    | some entity =>
      obtain ⟨kind, payload⟩ := entity
      cases kind
      case constant =>
        rw [Batch.nil_iff.mp visited]
        exact .constant held
      case constantOp => exact .operation held visited
      case undef =>
        rw [Batch.nil_iff.mp visited]
        exact .undef held
      all_goals
        subst visited
        exact .wrongKind held (by simp [Slot.kind?])

theorem Recursion.refused_iff {fault : Fault} (refused : store.refusal? id = some fault) :
    store.Recursion id outcome ↔ outcome = { state := store, fault? := some fault } := by
  have step : store.visit id = .error fault := by rw [visit_eq, refused]
  refine ⟨fun call => ?_, fun same => of_visit ?_⟩
  · simpa only [step] using call.visited
  · rwa [step]

/-- A call that is not refused marks the id and leaves the rest to its arguments. -/
theorem Recursion.supplied_iff (supplied : store.refusal? id = none) :
    store.Recursion id outcome ↔ (store.mark [id]).Batch (store.arguments id).reverse outcome := by
  have step : store.visit id = .ok ((store.arguments id).reverse, store.mark [id]) := by
    rw [visit_eq, supplied]
  refine ⟨fun call => ?_, fun batch => of_visit ?_⟩
  · simpa only [step] using call.visited
  · rwa [step]

/-! ### The walk

Like the recursion, it is read off the depth-first order. -/

/-- What comes of visits in the given order: the constants before the first id
that is refused are marked, and that id is blamed. -/
def afterVisits (store : EntityStore) (visits : List ResultId) : Outcome EntityStore where
  state := store.mark (visits.takeWhile fun id => (store.refusal? id).isNone)
  fault? := visits.findSome? store.refusal?

@[simp] theorem afterVisits_nil : store.afterVisits [] = .done store := by
  simp only [afterVisits, List.takeWhile_nil, mark_nil, List.findSome?_nil, Outcome.done]

private theorem afterVisits_refused {fault : Fault} (refused : store.refusal? id = some fault) :
    store.afterVisits (id :: visits) = { state := store, fault? := some fault } := by
  simp [afterVisits, refused]

private theorem afterVisits_supplied (supplied : store.refusal? id = none) :
    store.afterVisits (id :: visits) = (store.mark [id]).afterVisits visits := by
  have same : (store.mark [id]).refusal? = store.refusal? := funext fun _ => refusal?_mark [id]
  simp [afterVisits, supplied, mark_mark, same]

private theorem exists_state_afterVisits (store : EntityStore) (marked visits : List ResultId) :
    ∃ reached, ((store.mark marked).afterVisits visits).state = store.mark reached :=
  ⟨_, mark_mark marked _⟩

private theorem afterVisits_append (first second : List ResultId) :
    store.afterVisits (first ++ second) = match (store.afterVisits first).fault? with
      | some _ => store.afterVisits first
      | none => (store.afterVisits first).state.afterVisits second := by
  induction first generalizing store with
  | nil => simp [Outcome.done]
  | cons id rest ih =>
    cases refused : store.refusal? id with
    | some fault => simp only [List.cons_append, afterVisits_refused refused]
    | none => rw [List.cons_append, afterVisits_supplied refused, afterVisits_supplied refused, ih]

/-- The pending ids stand for the part of the order that is still to come. -/
theorem drain_preorder (order : store.Preorder pending visits) (marked : List ResultId) {limit : Nat}
    (enough : visits.length ≤ limit) :
    (store.mark marked).drain limit pending = some ((store.mark marked).afterVisits visits) := by
  induction visits generalizing pending marked limit with
  | nil =>
    cases order
    rw [drain, afterVisits_nil]
  | cons first later ih =>
    match pending, limit with
    | [], _ => cases order
    | _ :: _, 0 => simp at enough
    | next :: rest, limit + 1 =>
      obtain ⟨others, same, remaining⟩ := order.cons_inv
      obtain ⟨rfl, rfl⟩ := List.cons.inj same
      rw [drain, visit_eq]
      cases refused : (store.mark marked).refusal? first with
      | some fault => rw [afterVisits_refused refused]
      | none =>
        rw [afterVisits_supplied refused, arguments_mark, mark_mark]
        exact ih remaining _ (Nat.le_of_succ_le_succ enough)

theorem Batch.iff_preorder (order : store.Preorder pending visits) (marked : List ResultId)
    (outcome : Outcome EntityStore) : (store.mark marked).Batch pending outcome ↔
      outcome = (store.mark marked).afterVisits visits := by
  induction order generalizing marked outcome with
  | done => rw [nil_iff, afterVisits_nil]
  | @visit id rest below after _ _ deeper later =>
    rw [cons_iff, List.cons_append]
    cases refused : (store.mark marked).refusal? id with
    | some fault => simp [Recursion.refused_iff refused, afterVisits_refused refused]
    | none =>
      have call : ∀ first, (store.mark marked).Recursion id first ↔
          first = (store.mark (marked ++ [id])).afterVisits below := by
        intro first
        rw [Recursion.supplied_iff refused, arguments_mark, mark_mark]
        exact deeper _ _
      simp only [call, exists_eq_left]
      rw [afterVisits_supplied refused, mark_mark, afterVisits_append]
      cases ((store.mark (marked ++ [id])).afterVisits below).fault? with
      | some fault => simp
      | none =>
        obtain ⟨reached, same⟩ := exists_state_afterVisits store (marked ++ [id]) below
        simp only [same, if_true]
        exact later reached outcome

/-- Where there is no cycle, the walk and the recursion both come to the result
that the depth-first order gives. -/
theorem Acyclic.exists_visits (acyclic : store.Acyclic id) : ∃ visits, store.Preorder [id] visits ∧
    store.markArrayLength id = store.afterVisits visits ∧
    ∀ outcome, store.Recursion id outcome ↔ outcome = store.afterVisits visits := by
  obtain ⟨visits, order, short⟩ := acyclic.exists_preorder
  refine ⟨visits, order, ?_, ?_⟩
  · have walk := drain_preorder order [] short
    rw [mark_nil] at walk
    rw [markArrayLength, walk, Option.getD_some]
  · intro outcome
    have batch := Batch.iff_preorder order [] outcome
    rw [mark_nil] at batch
    rw [← Batch.singleton_iff, batch]

private theorem exists_state_drain {limit : Nat} {pending : List ResultId} {outcome : Outcome EntityStore}
    (marked : List ResultId) (drained : (store.mark marked).drain limit pending = some outcome) :
    ∃ reached, outcome.state = store.mark (marked ++ reached) ∧
      ∀ other ∈ reached, ∃ start ∈ pending, store.Reaches start other := by
  have unmoved : ∀ marked pending : List ResultId, ∃ reached, store.mark marked = store.mark (marked ++ reached) ∧
      ∀ other ∈ reached, ∃ start ∈ pending, store.Reaches start other :=
    fun _ _ => ⟨[], by rw [List.append_nil], fun _ member => (List.not_mem_nil member).elim⟩
  induction limit generalizing pending marked with
  | zero =>
    cases pending with
    | nil =>
      cases drained
      exact unmoved _ _
    | cons first rest => cases drained
  | succ limit ih =>
    cases pending with
    | nil =>
      cases drained
      exact unmoved _ _
    | cons first rest =>
      rw [drain, visit_eq] at drained
      cases refused : (store.mark marked).refusal? first with
      | some fault =>
        simp only [refused, Option.some.injEq] at drained
        subst drained
        exact unmoved _ _
      | none =>
        simp only [refused, mark_mark, arguments_mark] at drained
        obtain ⟨reached, state, origin⟩ := ih _ drained
        refine ⟨first :: reached, by rw [state, List.append_assoc, List.singleton_append], ?_⟩
        intro other member
        rcases List.mem_cons.mp member with rfl | member
        · exact ⟨other, List.mem_cons_self, .refl⟩
        · obtain ⟨start, next, reaches⟩ := origin other member
          rcases List.mem_append.mp next with used | pending
          · exact ⟨first, List.mem_cons_self, .head (List.mem_reverse.mp used) reaches⟩
          · exact ⟨start, List.mem_cons_of_mem _ pending, reaches⟩

theorem exists_state_markArrayLength (store : EntityStore) (id : ResultId) :
    ∃ reached, (store.markArrayLength id).state = store.mark reached ∧
      ∀ other ∈ reached, store.Reaches id other := by
  rw [markArrayLength]
  cases drained : store.drain store.visitLimit [id] with
  | none => exact ⟨[], mark_nil.symm, fun _ member => (List.not_mem_nil member).elim⟩
  | some outcome =>
    have unmarked : (store.mark []).drain store.visitLimit [id] = some outcome := by
      rw [mark_nil, drained]
    obtain ⟨reached, state, origin⟩ := exists_state_drain [] unmarked
    refine ⟨reached, state, fun other member => ?_⟩
    obtain ⟨start, only, reaches⟩ := origin other member
    rwa [List.mem_singleton.mp only] at reaches

end Shader.EntityStore

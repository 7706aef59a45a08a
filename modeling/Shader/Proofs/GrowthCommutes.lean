import Shader.Proofs.IdMinting

/-! Growth is invisible. Reads that tolerate what is missing answer alike before and
after it, and whatever else succeeds does so after it too, with the same result grown
by as much. A run can therefore be given its final bound in advance. -/

namespace Shader

namespace EntityStore

variable {store next : EntityStore} {id : ResultId} (size : Nat)

private theorem arguments_growTo : (store.growTo size).arguments id = store.arguments id := by
  simp only [arguments, find?_growTo]

private theorem Supplies.growTo (supplied : store.Supplies id) : (store.growTo size).Supplies id := by
  obtain ⟨inside, kinds⟩ := supplied
  refine ⟨Nat.lt_of_lt_of_le inside (size_le_growTo size), ?_⟩
  simpa only [kind?_growTo] using kinds

private theorem mark_growTo (ids : List ResultId) :
    (store.growTo size).mark ids = (store.mark ids).growTo size := by
  apply ext_getElem?
  intro index
  have same : (store.mark ids).slots.size = store.slots.size := size_mark ids
  simp only [growTo, getElem?_mark, getElem?_grow, same]
  by_cases inside : index < store.slots.size
  · simp only [if_pos inside]
  · simp only [if_neg inside]
    by_cases added : index < size
    · -- a slot that growth adds is empty, and an empty slot has nothing to mark
      simp only [if_pos added, Option.map_some, Option.some.injEq]
      split <;> rfl
    · simp only [if_neg added, Option.map_none]

private theorem visit_growTo {pending : List ResultId} (visited : store.visit id = .ok (pending, next)) :
    (store.growTo size).visit id = .ok (pending, next.growTo size) := by
  rw [visit_eq] at visited ⊢
  cases refused : store.refusal? id with
  | some fault => simp [refused] at visited
  | none =>
    simp only [refused] at visited
    cases visited
    have supplied := (refusal?_eq_none.mp refused).growTo size
    simp only [refusal?_eq_none.mpr supplied, arguments_growTo, mark_growTo]

private theorem drain_growTo {visits : Nat} {pending : List ResultId}
    (drained : store.drain visits pending = some (.done next)) :
    (store.growTo size).drain visits pending = some (.done (next.growTo size)) := by
  induction visits generalizing store pending with
  | zero =>
    cases pending with
    | nil =>
      cases drained
      rfl
    | cons first rest => cases drained
  | succ visits ih =>
    cases pending with
    | nil =>
      cases drained
      rfl
    | cons first rest =>
      rw [drain] at drained ⊢
      cases visited : store.visit first with
      | error fault => simp [visited, Outcome.done] at drained
      | ok result =>
        rw [visit_growTo size visited]
        simp only [visited] at drained
        exact ih drained

private theorem visitLimit_growTo : (store.growTo size).visitLimit = store.visitLimit := by
  simp only [visitLimit, ofKind_growTo]

theorem markArrayLength_growTo (marked : store.markArrayLength id = .done next) :
    (store.growTo size).markArrayLength id = .done (next.growTo size) := by
  rw [markArrayLength] at marked ⊢
  rw [visitLimit_growTo]
  cases drained : store.drain store.visitLimit [id] with
  | none => simp [drained, Outcome.done] at marked
  | some outcome =>
    rw [drained, Option.getD_some] at marked
    rw [drain_growTo size (drained.trans (congrArg some marked)), Option.getD_some]

theorem perform_growTo {edit : Edit} (performed : store.perform edit = .done next) :
    (store.growTo size).perform edit = .done (next.growTo size) := by
  cases edit with
  | put id kind payload =>
    have stored := put_growTo size (Outcome.ofExcept_eq_done.mp performed)
    exact Outcome.ofExcept_eq_done.mpr stored
  | modify id kind change =>
    have changed := modify_growTo size (Outcome.ofExcept_eq_done.mp performed)
    exact Outcome.ofExcept_eq_done.mpr changed
  | markArrayLength id => exact markArrayLength_growTo size performed

/-! ### Chains of types -/

private theorem resolve_growTo {reads more : Nat} {resolved : ResultId} (enough : reads ≤ more)
    (found : store.resolve reads id = some (.ok resolved)) :
    (store.growTo size).resolve more id = some (.ok resolved) := by
  induction reads generalizing id more with
  | zero => cases found
  | succ reads ih =>
    obtain ⟨more, rfl⟩ : ∃ fewer, more = fewer + 1 := ⟨more - 1, by omega⟩
    rw [resolve] at found ⊢
    cases fetched : store.fetch id .type with
    | error fault => simp [fetched] at found
    | ok type =>
      simp only [fetched] at found
      simp only [fetch_growTo size fetched]
      split at found
      next indirect =>
        rw [if_pos indirect]
        exact ih (Nat.le_of_succ_le_succ enough) found
      next direct => rw [if_neg direct, found]

theorem blockType_growTo {var : Variable} {resolved : ResultId}
    (found : store.blockType var = .ok resolved) : (store.growTo size).blockType var = .ok resolved := by
  rw [blockType] at found ⊢
  cases answer : store.resolve (store.size + 1) var.type with
  | none => simp [answer] at found
  | some result =>
    rw [answer, Option.getD_some] at found
    have enough : store.size + 1 ≤ (store.growTo size).size + 1 := Nat.succ_le_succ (size_le_growTo size)
    rw [resolve_growTo size enough (answer.trans (congrArg some found)), Option.getD_some]

end EntityStore

private theorem EntryPointTable.apply_of_le {table next : EntryPointTable} {bound larger : Nat} {edit : Edit}
    (grown : bound ≤ larger) (applied : table.apply bound edit = .ok next) :
    table.apply larger edit = .ok next := by
  cases edit with
  | add entry =>
    simp only [apply, add] at applied ⊢
    split at applied
    next inside => rwa [if_pos (Nat.lt_of_lt_of_le inside grown)]
    next => cases applied
  | modify id change | choose id => exact applied

private theorem ControlFlow.stray?_of_le {flow : ControlFlow} {bound larger : Nat} (grown : bound ≤ larger)
    (inside : flow.stray? bound = none) : flow.stray? larger = none := by
  refine IdSet.find?_toList_eq_none.mpr fun id member => ?_
  have below := IdSet.find?_toList_eq_none.mp inside id member
  rw [decide_eq_true_eq] at below ⊢
  omega

namespace Module

variable {m next : Module} {edit : Edit} {edits : List Edit} (size : Nat)

private theorem bound_le_growTo : m.bound ≤ (m.growTo size).bound := by
  rw [bound_growTo]
  omega

theorem growTo_comm (other : Nat) : (m.growTo size).growTo other = (m.growTo other).growTo size := by
  simp only [growTo, EntityStore.growTo_comm size other, AnnotationStore.growTo_comm size other]

theorem Coherent.growTo_bound (coherent : m.Coherent) : m.growTo m.bound = m := by
  have slots : grow m.entities.slots m.bound = m.entities.slots := grow_of_le (Nat.le_refl _)
  have records : grow m.annotations.records m.bound = m.annotations.records :=
    grow_of_le (Nat.le_of_eq coherent.sizes)
  simp only [Module.growTo, EntityStore.growTo, AnnotationStore.growTo, slots, records]

/-- A mint is the one edit that depends on the bound itself. -/
private theorem Accepts.after_growTo (accepted : m.Accepts edit next) (other : ∀ count, edit ≠ .mint count) :
    (m.growTo size).Accepts edit (next.growTo size) := by
  cases accepted with
  | growTo bound =>
    rw [growTo_comm]
    exact .growTo bound
  | mint => exact absurd rfl (other _)
  | entity performed => exact .entity (EntityStore.perform_growTo size performed)
  | annotate annotated => exact .annotate (AnnotationStore.annotate_growTo size annotated _)
  | controlFlow applied => exact .controlFlow applied
  | entryPoint applied => exact .entryPoint (EntryPointTable.apply_of_le (bound_le_growTo size) applied)
  | setSource source => exact .setSource source
  | declare declaration => exact .declare declaration

/-- Readers that tolerate what is missing cannot tell the modules apart. -/
structure AnswersAlike (m other : Module) : Prop where
  notes : ∀ id part, other.annotations.read id part = m.annotations.read id part
  flags : ∀ id part, other.annotations.flags id part = m.annotations.flags id part
  kinds : ∀ id, other.entities.kind? id = m.entities.kind? id
  payloads : ∀ id kind, other.entities.find? id kind = m.entities.find? id kind
  listings : ∀ kind, other.entities.ofKind kind = m.entities.ofKind kind

theorem answersAlike_growTo (m : Module) (size : Nat) : m.AnswersAlike (m.growTo size) where
  notes _ _ := AnnotationStore.read_growTo size
  flags _ _ := congrArg (·.decorations.flags) (AnnotationStore.read_growTo size)
  kinds _ := EntityStore.kind?_growTo size
  payloads _ _ := EntityStore.find?_growTo size
  listings _ := EntityStore.ofKind_growTo size

/-- Readers that refuse what is missing get the same answer wherever they got one. -/
structure StillAnswers (m other : Module) : Prop where
  payloads : ∀ id kind payload, m.entities.fetch id kind = .ok payload →
    other.entities.fetch id kind = .ok payload
  blockTypes : ∀ var id, m.entities.blockType var = .ok id → other.entities.blockType var = .ok id
  bufferBlocks : ∀ var flags, m.bufferBlockFlags var = .ok flags →
    other.bufferBlockFlags var = .ok flags
  sound : m.fault? = none → other.fault? = none

private theorem bufferBlockFlags_growTo {var : Variable} {flags : FlagSet}
    (found : m.bufferBlockFlags var = .ok flags) : (m.growTo size).bufferBlockFlags var = .ok flags := by
  rw [bufferBlockFlags] at found ⊢
  cases resolved : m.entities.blockType var with
  | error fault => simp [resolved] at found
  | ok id =>
    cases fetched : m.entities.fetch id .type with
    | error fault => simp [resolved, fetched] at found
    | ok type =>
      have same : (m.growTo size).structFlags id type = m.structFlags id type := by
        simp only [structFlags, (answersAlike_growTo m size).flags]
      simp only [resolved, fetched] at found
      simp only [growTo, EntityStore.blockType_growTo size resolved, EntityStore.fetch_growTo size fetched]
      rw [← same] at found
      exact found

private theorem fault?_growTo (sound : m.fault? = none) : (m.growTo size).fault? = none := by
  rw [fault?] at sound ⊢
  split at sound
  next sizes =>
    have grown : (m.growTo size).entities.size = (m.growTo size).annotations.size := by
      simp only [growTo, EntityStore.size_growTo, AnnotationStore.size_growTo, sizes]
    rw [if_pos grown]
    simp only [Option.or_eq_none_iff, Option.map_eq_none_iff] at sound ⊢
    exact ⟨⟨sound.1.1, ControlFlow.stray?_of_le (bound_le_growTo size) sound.1.2⟩, sound.2⟩
  next => cases sound

theorem stillAnswers_growTo (m : Module) (size : Nat) : m.StillAnswers (m.growTo size) where
  payloads _ _ _ := EntityStore.fetch_growTo size
  blockTypes _ _ := EntityStore.blockType_growTo size
  bufferBlocks _ _ := bufferBlockFlags_growTo size
  sound := fault?_growTo size

/-- An edit that succeeds does so after growth, and leads to the same module grown. -/
theorem perform_growTo (done : (m.perform edit).fault? = none) (other : ∀ count, edit ≠ .mint count) :
    (m.growTo size).perform edit = .done ((m.perform edit).state.growTo size) :=
  ((accepts_of_done done).after_growTo size other).perform

theorem run_growTo (all : m.accepted edits = edits) (other : ∀ count, .mint count ∉ edits) :
    (m.growTo size).run edits = (m.run edits).growTo size ∧ (m.growTo size).accepted edits = edits := by
  induction edits generalizing m with
  | nil => exact ⟨rfl, rfl⟩
  | cons edit edits ih =>
    obtain ⟨done, rest⟩ := accepted_cons_eq_self all
    have grown := perform_growTo size done fun count same => other count (same ▸ List.mem_cons_self)
    obtain ⟨same, kept⟩ := ih rest fun count member => other count (List.mem_cons_of_mem _ member)
    refine ⟨?_, ?_⟩
    · rw [run_cons, run_cons, grown, Outcome.done, same]
    · rw [accepted, grown]
      simp only [Outcome.done, if_true, kept]

/-- Growth shows in no answer that was given before it, and commutes with every edit
but a mint. So a run without mints and refusals ends in the same module if it is given
its final bound at the start. -/
theorem growth_invisible (m : Module) (reached : m.Reachable) :
    (∀ size, m.AnswersAlike (m.growTo size) ∧ m.StillAnswers (m.growTo size)) ∧
    (∀ size edit, (∀ count, edit ≠ .mint count) → (m.perform edit).fault? = none →
      (m.growTo size).perform edit = .done ((m.perform edit).state.growTo size)) ∧
    ∀ edits, (∀ count, .mint count ∉ edits) → m.accepted edits = edits →
      m.run (.growTo (.ofNat (m.run edits).bound) :: edits) = m.run edits := by
  refine ⟨?_, ?_, ?_⟩
  · exact fun size => ⟨answersAlike_growTo m size, stillAnswers_growTo m size⟩
  · exact fun size edit other done => perform_growTo size done other
  · intro edits other all
    have final := reached.run edits
    have word : (UInt32.ofNat (m.run edits).bound).toNat = (m.run edits).bound :=
      ResultId.index_ofIndex final.bounded.word
    rw [run_cons, perform, Outcome.done, word, (run_growTo _ all other).1, final.coherent.growTo_bound]

/-- A run whose writes are spread over two growths, with a walk between them. -/
def lateGrowth : List Edit :=
  [.growTo 3, .entity (.put ⟨1⟩ .constant (.scalar .null 4)),
    .entity (.put ⟨2⟩ .constantOp { arguments := [⟨1⟩] }), .entity (.markArrayLength ⟨2⟩),
    .annotate ⟨2⟩ (.member 1) (.rename "extent"), .growTo 5,
    .entryPoint (.add (.declare ⟨4⟩ "main" ⟨0⟩)), .growTo 4]

theorem growth_invisible_lateGrowth : (ofWords []).Reachable ∧
    (∀ count, .mint count ∉ lateGrowth) ∧ (ofWords []).accepted lateGrowth = lateGrowth ∧
    ((ofWords []).run lateGrowth).bound = 5 ∧
    (ofWords []).run (.growTo 5 :: lateGrowth) = (ofWords []).run lateGrowth := by
  have unminted : ∀ count, .mint count ∉ lateGrowth := by simp [lateGrowth]
  have all : (ofWords []).accepted lateGrowth = lateGrowth := rfl
  have final : ((ofWords []).run lateGrowth).bound = 5 := by decide
  have presized := (growth_invisible (ofWords []) (.words [])).2.2 lateGrowth unminted all
  rw [final] at presized
  exact ⟨.words [], unminted, all, final, presized⟩

end Module

end Shader

import Shader.Module
import Shader.Proofs.AnnotationHistory
import Shader.Proofs.BlockTypeChain

/-! Which flags the type behind a variable has as a buffer block. They are read off the
struct and as many of its members as the type declares, however many members the
annotations have a note for. -/

namespace Shader

namespace FlagSet

variable {set : FlagSet} {sets : List FlagSet} {bit : Word}

private theorem mem_foldl_inter : bit ∈ sets.foldl (· ∩ ·) set ↔ bit ∈ set ∧ ∀ other ∈ sets, bit ∈ other := by
  induction sets generalizing set with
  | nil => simp
  | cons first rest ih => rw [List.foldl_cons, ih, mem_inter, List.forall_mem_cons, and_assoc]

theorem mem_common : bit ∈ common sets ↔ sets ≠ [] ∧ ∀ set ∈ sets, bit ∈ set := by
  cases sets with
  | nil => simp [common]
  | cons set rest => rw [common, mem_foldl_inter, List.forall_mem_cons, and_iff_right (List.cons_ne_nil set rest)]

end FlagSet

private theorem AnnotationStore.flags_unrecorded {store : AnnotationStore} {id : ResultId} {index : Nat}
    (past : store.memberCount id ≤ index) : store.flags id (.member index) = ∅ := by
  rw [memberCount] at past
  rw [flags, read]
  cases held : store.record? id with
  | none => rfl
  | some record =>
    rw [held, Option.elim_some] at past
    rw [Option.bind_some, Annotations.find?, Array.getElem?_eq_none past]
    rfl

namespace Module

variable {m other : Module} {var : Variable} {id : ResultId} {type : TypeDecl} {bit : Word}

theorem mem_structFlags : bit ∈ m.structFlags id type ↔ bit ∈ m.annotations.flags id .whole ∨
    type.members ≠ [] ∧ ∀ index < type.members.length, bit ∈ m.annotations.flags id (.member index) := by
  simp only [structFlags, FlagSet.mem_union, FlagSet.mem_common, List.forall_mem_map, List.mem_range, ne_eq,
    List.map_eq_nil_iff, List.range_eq_nil, List.length_eq_zero_iff]

/-- The parts of the struct that its flags are read off are the whole and the members it declares. -/
theorem structFlags_congr (same : ∀ part : Part, part.reach ≤ type.members.length →
    other.annotations.flags id part = m.annotations.flags id part) :
    other.structFlags id type = m.structFlags id type := by
  have members : (List.range type.members.length).map (fun index => other.annotations.flags id (.member index)) =
      (List.range type.members.length).map fun index => m.annotations.flags id (.member index) :=
    List.map_congr_left fun index member => same (.member index) (List.mem_range.mp member)
  rw [structFlags, structFlags, same .whole (Nat.zero_le _), members]

theorem bufferBlockFlags_of_resolved (resolved : m.entities.blockType var = .ok id) :
    ∃ type, m.entities.fetch id .type = .ok type ∧ m.bufferBlockFlags var =
      if type.base = .struct then .ok (m.structFlags id type) else .error (.notAStruct id) := by
  cases EntityStore.exists_end_of_blockType resolved with
  | @direct type held _ =>
    have fetched := EntityStore.fetch_eq_ok.mpr held
    refine ⟨type, fetched, ?_⟩
    rw [bufferBlockFlags, resolved]
    simp only [fetched]

structure ReadsFlags (m : Module) (var : Variable) (id : ResultId) (type : TypeDecl) : Prop where
  held : m.entities.fetch id .type = .ok type
  refuses : ∀ fault, m.bufferBlockFlags var = .error fault ↔ type.base ≠ .struct ∧ fault = .notAStruct id
  flags : type.base = .struct → ∃ flags, m.bufferBlockFlags var = .ok flags ∧
    ∀ bit, bit ∈ flags ↔ bit ∈ m.annotations.flags id .whole ∨
      type.members ≠ [] ∧ ∀ index < type.members.length, bit ∈ m.annotations.flags id (.member index)
  unrecorded : ∀ index, m.annotations.memberCount id ≤ index → m.annotations.flags id (.member index) = ∅
  beyond : ∀ annotations : AnnotationStore, (∀ part : Part, part.reach ≤ type.members.length →
    annotations.flags id part = m.annotations.flags id part) →
      ({ m with annotations } : Module).bufferBlockFlags var = m.bufferBlockFlags var

/-- A buffer block has the flags of its struct and those that all declared members have. A
member that was never written to counts as one without flags, and notes on members
that the struct does not declare count for nothing. -/
theorem bufferBlockFlags_exact (m : Module) {var : Variable} {id : ResultId}
    (resolved : m.entities.blockType var = .ok id) : ∃ type, m.ReadsFlags var id type := by
  obtain ⟨type, fetched, result⟩ := bufferBlockFlags_of_resolved resolved
  refine ⟨type, fetched, ?_, ?_, fun _ => AnnotationStore.flags_unrecorded, ?_⟩
  · intro fault
    rw [result]
    by_cases struct : type.base = .struct <;> simp [struct, eq_comm]
  · intro struct
    exact ⟨_, result.trans (if_pos struct), fun _ => mem_structFlags⟩
  · intro annotations same
    have also : ({ m with annotations } : Module).entities.blockType var = .ok id := resolved
    obtain ⟨again, refetched, changed⟩ := bufferBlockFlags_of_resolved also
    cases fetched.symm.trans refetched
    rw [result, changed, structFlags_congr same]

/-- A struct of two members behind a pointer, with a flag that both of them have, flags of one
of them, and a note on a third. -/
def sharedFlags : Module :=
  (ofWords []).run [.growTo 4, .entity (.put ⟨1⟩ .type (.ofMembers [⟨2⟩, ⟨2⟩])),
    .entity (.put ⟨3⟩ .type (.pointerTo ⟨1⟩ .struct ⟨12⟩)),
    .annotate ⟨1⟩ .whole (.decorate (.set ⟨2⟩ 0)), .annotate ⟨3⟩ .whole (.decorate (.set ⟨25⟩ 0)),
    .annotate ⟨1⟩ (.member 0) (.decorate (.set ⟨24⟩ 0)), .annotate ⟨1⟩ (.member 0) (.decorate (.set ⟨35⟩ 0)),
    .annotate ⟨1⟩ (.member 2) (.decorate (.set ⟨35⟩ 0)), .annotate ⟨1⟩ (.member 1) (.decorate (.set ⟨24⟩ 0))]

theorem bufferBlockFlags_exact_sharedFlags : sharedFlags.entities.blockType { type := ⟨3⟩ } = .ok ⟨1⟩ ∧
    ∃ flags, sharedFlags.bufferBlockFlags { type := ⟨3⟩ } = .ok flags ∧ 2 ∈ flags ∧ 24 ∈ flags ∧
      35 ∉ flags ∧ 25 ∉ flags := by
  have resolved : sharedFlags.entities.blockType { type := ⟨3⟩ } = .ok ⟨1⟩ := by decide
  refine ⟨resolved, ?_⟩
  obtain ⟨type, reads⟩ := bufferBlockFlags_exact sharedFlags resolved
  have held : sharedFlags.entities.fetch ⟨1⟩ .type = .ok (.ofMembers [⟨2⟩, ⟨2⟩]) := by decide
  cases held.symm.trans reads.held
  obtain ⟨flags, found, mem⟩ := reads.flags rfl
  refine ⟨flags, found, ?_⟩
  simp only [mem]
  decide

end Module

/-! ### What the flags are read from

The types along the chain behind the variable, and the flags of the type at its end and of the
members that type declares. Two modules that agree on these have the same flags, whatever else is
recorded in either. -/

namespace EntityStore

variable {store other : EntityStore} {start id link : ResultId} {reads more steps : Nat}
  {answer again : Except Fault ResultId}

theorem EndsWithin.mono (ends : store.EndsWithin start reads answer) (longer : reads ≤ more) :
    store.EndsWithin start more answer := by
  obtain ⟨steps, enough, here⟩ := ends
  exact ⟨steps, Nat.lt_of_lt_of_le enough longer, here⟩

theorem EndsWithin.unique (ends : store.EndsWithin start reads answer)
    (also : store.EndsWithin start more again) : answer = again := by
  have first := resolve_eq_some.mpr (ends.mono (Nat.le_max_left reads more))
  have second := resolve_eq_some.mpr (also.mono (Nat.le_max_right reads more))
  exact Option.some.inj (first.symm.trans second)

private theorem blockType_of_endsWithin {var : Variable} (ends : store.EndsWithin var.type reads answer) :
    store.blockType var = answer := by
  have straight : ¬ store.Revisits var.type := by
    intro round
    cases (round.resolve_eq_none reads).symm.trans (resolve_eq_some.mpr ends)
  exact (resolve_eq_some.mp (resolve_blockType straight)).unique ends

/-- The second store has the types that the chain of the first goes through. -/
def AgreesAlong (store other : EntityStore) (start : ResultId) : Prop :=
  ∀ steps link, store.chain start steps = some link → other.find? link .type = store.find? link .type

namespace AgreesAlong

private theorem chain_eq (agrees : store.AgreesAlong other start)
    (reached : store.chain start steps = some link) : other.chain start steps = some link := by
  induction steps generalizing link with
  | zero => exact reached
  | succ steps ih =>
    obtain ⟨before, earlier, next⟩ := Option.bind_eq_some_iff.mp reached
    rw [chain, ih earlier, Option.bind_some, parent?, agrees steps before earlier]
    exact next

private theorem endsWithin (agrees : store.AgreesAlong other start)
    (ends : store.EndsWithin start reads (.ok id)) : other.EndsWithin start reads (.ok id) := by
  obtain ⟨steps, enough, last, reached, stops⟩ := ends
  refine ⟨steps, enough, last, agrees.chain_eq reached, ?_⟩
  cases stops with
  | direct held direct => exact .direct ((agrees steps _ reached).trans held) direct

private theorem find?_end (agrees : store.AgreesAlong other start)
    (ends : store.EndsWithin start reads (.ok id)) : other.find? id .type = store.find? id .type := by
  obtain ⟨steps, _, last, reached, stops⟩ := ends
  cases stops with
  | direct => exact agrees steps _ reached

end AgreesAlong

end EntityStore

namespace Module

variable {m other : Module} {var : Variable} {id : ResultId}

/-- The second module has what the flags of the variable are read from in the first, where
`id` is the type at the end of the chain. -/
structure SameFootprint (m other : Module) (var : Variable) (id : ResultId) : Prop where
  types : ∀ steps link, m.entities.chain var.type steps = some link →
    other.entities.find? link .type = m.entities.find? link .type
  whole : other.annotations.flags id .whole = m.annotations.flags id .whole
  members : ∀ type, m.entities.find? id .type = some type → ∀ index < type.members.length,
    other.annotations.flags id (.member index) = m.annotations.flags id (.member index)

/-- Nothing outside the footprint has an influence on the flags of a buffer block, nor on
whether its type is refused. -/
theorem bufferBlockFlags_footprint (m other : Module) {var : Variable} {id : ResultId}
    (resolved : m.entities.blockType var = .ok id) (same : m.SameFootprint other var id) :
    other.bufferBlockFlags var = m.bufferBlockFlags var := by
  have agrees : m.entities.AgreesAlong other.entities var.type := same.types
  have ends := EntityStore.endsWithin_of_blockType resolved
  have also : other.entities.blockType var = .ok id :=
    EntityStore.blockType_of_endsWithin (agrees.endsWithin ends)
  obtain ⟨type, fetched, result⟩ := bufferBlockFlags_of_resolved resolved
  obtain ⟨again, refetched, changed⟩ := bufferBlockFlags_of_resolved also
  have held := EntityStore.fetch_eq_ok.mp fetched
  have found := (agrees.find?_end ends).symm.trans (EntityStore.fetch_eq_ok.mp refetched)
  cases held.symm.trans found
  have flags : other.structFlags id type = m.structFlags id type := by
    refine structFlags_congr fun part declared => ?_
    cases part with
    | whole => exact same.whole
    | member index => exact same.members type held index declared
  rw [result, changed, flags]

def arrayedBlock : Module :=
  (ofWords []).run [.growTo 5, .entity (.put ⟨1⟩ .type (.ofMembers [⟨2⟩, ⟨2⟩])),
    .entity (.put ⟨4⟩ .type { base := .struct, array := [8], parent := ⟨1⟩ }),
    .entity (.put ⟨3⟩ .type (.pointerTo ⟨4⟩ .struct ⟨12⟩)),
    .annotate ⟨1⟩ .whole (.decorate (.set ⟨2⟩ 0)), .annotate ⟨1⟩ (.member 0) (.decorate (.set ⟨24⟩ 0))]

/-- The same block with a name for its second member, a flag on a third and on the pointer,
another operand and more ids. -/
def arrayedBlockAside : Module :=
  arrayedBlock.run [.growTo 9, .entity (.put ⟨2⟩ .type (.scalar .float 32)),
    .annotate ⟨1⟩ .whole (.decorate (.set ⟨2⟩ 7)), .annotate ⟨1⟩ (.member 1) (.rename "tail"),
    .annotate ⟨1⟩ (.member 2) (.decorate (.set ⟨35⟩ 0)), .annotate ⟨3⟩ .whole (.decorate (.set ⟨24⟩ 0)),
    .controlFlow (.insert .loopHeader ⟨5⟩), .entryPoint (.add (.declare ⟨6⟩ "main" ⟨0⟩))]

theorem bufferBlockFlags_footprint_arrayedBlock : arrayedBlock.entities.blockType { type := ⟨3⟩ } = .ok ⟨1⟩ ∧
    arrayedBlock.SameFootprint arrayedBlockAside { type := ⟨3⟩ } ⟨1⟩ ∧
    (arrayedBlock.annotations.memberCount ⟨1⟩ = 1 ∧ arrayedBlockAside.annotations.memberCount ⟨1⟩ = 3) ∧
    ∃ flags, arrayedBlockAside.bufferBlockFlags { type := ⟨3⟩ } = .ok flags ∧ 2 ∈ flags ∧ 24 ∉ flags := by
  have resolved : arrayedBlock.entities.blockType { type := ⟨3⟩ } = .ok ⟨1⟩ := by decide
  have held : arrayedBlock.entities.find? ⟨1⟩ .type = some (.ofMembers [⟨2⟩, ⟨2⟩]) := by decide
  have stops : arrayedBlock.entities.chain ⟨3⟩ 3 = none := by decide
  have same : arrayedBlock.SameFootprint arrayedBlockAside { type := ⟨3⟩ } ⟨1⟩ := by
    refine ⟨fun steps link reached => ?_, by decide, fun type found => ?_⟩
    · have short : steps < 3 := by
        refine Nat.lt_of_not_le fun long => ?_
        have further := EntityStore.isSome_chain_of_le long (Option.isSome_of_eq_some reached)
        rw [stops] at further
        cases further
      obtain rfl | rfl | rfl : steps = 0 ∨ steps = 1 ∨ steps = 2 := by omega
      all_goals
        cases reached
        decide
    · cases held.symm.trans found
      decide
  refine ⟨resolved, same, by decide, ?_⟩
  rw [bufferBlockFlags_footprint arrayedBlock arrayedBlockAside resolved same]
  exact ⟨arrayedBlock.structFlags ⟨1⟩ (.ofMembers [⟨2⟩, ⟨2⟩]), by decide⟩

end Module

end Shader

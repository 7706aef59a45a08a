import Shader.Proofs.ControlFlowRuns
import Shader.Proofs.ControlFlowSoundness
import Shader.Proofs.FlagSetListing

/-! How often a block is listed among the ids of the control flow, and what the checks
may leave out because of it. Each role lists a block once, so the listing tells how many
roles the block plays. Links are not listed themselves, and the search for an overlap
skips the switch merges; both are covered by what the other roles list. -/

namespace Shader

/-- No two roles share a bit, and none of the five bits is spare. -/
private theorem Role.map_bit_all : all.map bit = List.range 5 := rfl

namespace Roles

variable {roles other : Roles}

@[simp] theorem contains_empty (role : Role) : (∅ : Roles).contains role = false :=
  BitVec.getLsbD_zero

theorem ext_contains (same : ∀ role, roles.contains role = other.contains role) : roles = other := by
  have bits : roles.bits = other.bits := by
    refine BitVec.eq_of_getLsbD_eq fun index inside => ?_
    have named : index ∈ Role.all.map Role.bit := Role.map_bit_all ▸ List.mem_range.mpr inside
    obtain ⟨role, _, place⟩ := List.mem_map.mp named
    exact place ▸ same role
  cases roles
  exact congrArg Roles.mk bits

theorem size_eq_countP (roles : Roles) : roles.size = Role.all.countP roles.contains := by
  rw [size, FlagSet.toNat_cpop_eq_countP, ← Role.map_bit_all, List.countP_map]
  rfl

private theorem size_eq_zero : roles.size = 0 ↔ roles = ∅ := by
  rw [size_eq_countP, List.countP_eq_zero]
  constructor
  · intro none
    refine ext_contains fun role => ?_
    rw [contains_empty, ← Bool.not_eq_true]
    exact none role role.mem_all
  · intro empty role _
    simp [empty]

end Roles

private theorem IdSet.count_toList (set : IdSet) (id : ResultId) :
    set.toList.count id = if set.contains id then 1 else 0 := by
  have once : set.toList.Nodup :=
    Std.ExtTreeSet.distinct_toList.imp fun apart same => apart (Std.compare_eq_iff_eq.mpr same)
  rw [once.count]
  simp only [Std.ExtTreeSet.mem_toList, Std.ExtTreeSet.contains_iff_mem]

namespace ControlFlow

variable {flow : ControlFlow} {block : ResultId}

/-! ### Listed once for each role -/

theorem size_roles (flow : ControlFlow) (block : ResultId) :
    (flow.roles block).size = Role.all.countP fun role => (flow.blocks role).contains block := by
  rw [Roles.size_eq_countP]
  exact List.countP_congr fun role _ => by rw [roles, Roles.contains_select]

private theorem count_flatMap (flow : ControlFlow) (block : ResultId) (named : List Role) :
    (named.flatMap fun role => (flow.blocks role).toList).count block =
      named.countP fun role => (flow.blocks role).contains block := by
  induction named with
  | nil => rfl
  | cons role named ih =>
    rw [List.flatMap_cons, List.count_append, IdSet.count_toList, ih, List.countP_cons, Nat.add_comm]

theorem count_ids (flow : ControlFlow) (block : ResultId) : flow.ids.count block = (flow.roles block).size := by
  rw [ids, count_flatMap, size_roles]

theorem mem_ids_iff_roles : block ∈ flow.ids ↔ flow.roles block ≠ ∅ := by
  rw [← List.count_pos_iff, count_ids, Nat.pos_iff_ne_zero, ne_eq, Roles.size_eq_zero]

/-! ### Links -/

private theorem Linked.perform (linked : flow.Linked) (edit : Edit) : (flow.perform edit).state.Linked := by
  cases applied : flow.apply edit with
  | ok next =>
    rw [perform_of_ok applied]
    exact linked.apply applied
  | error fault =>
    rw [perform_of_error applied]
    exact linked

theorem Linked.run (linked : flow.Linked) (edits : List Edit) : (flow.run edits).Linked :=
  run_keeps Linked linked fun _ held edit _ => held.perform edit

/-! ### Overlaps -/

/-- The blocks in which the search for an overlap looks. -/
def mergesVisited (flow : ControlFlow) : List ResultId :=
  (flow.loopMerges ∪ flow.selectionMerges).toList

private theorem overlap?_eq_find? (flow : ControlFlow) : flow.overlap? =
    flow.mergesVisited.find? fun block => 1 < (flow.roles block ∩ .anyMerge).size := rfl

private theorem Overlaps.visited (overlapping : flow.Overlaps block) : block ∈ flow.mergesVisited :=
  Std.ExtTreeSet.mem_toList.mpr overlapping.mem_union

/-- A block is listed once for each role it plays, and the listing has both ends of every
link that edits make. A block has two merge roles where it is a merge of two sorts, and
the search for an overlap visits it then. -/
theorem ids_match_roles :
    (∀ (flow : ControlFlow) (block : ResultId),
      flow.ids.count block = (flow.roles block).size ∧
      (block ∈ flow.ids ↔ flow.roles block ≠ ∅)) ∧
    (∀ (edits : List Edit) (target header : ResultId), (run {} edits).headerOf[target]? = some header →
      target ∈ (run {} edits).ids ∧ header ∈ (run {} edits).ids) ∧
    ∀ flow : ControlFlow,
      (flow.overlap? = flow.mergesVisited.find? fun block => 1 < (flow.roles block ∩ .anyMerge).size) ∧
      ∀ block, (1 < (flow.roles block ∩ .anyMerge).size ↔ flow.Overlaps block) ∧
        (flow.Overlaps block → block ∈ flow.mergesVisited) := by
  refine ⟨?_, ?_, ?_⟩
  · exact fun flow block => ⟨flow.count_ids block, mem_ids_iff_roles⟩
  · intro edits target header found
    have linked : (run {} edits).Linked := linked_empty.run edits
    rw [linked.mem_ids, linked.mem_ids]
    exact ⟨.inr (.inl ⟨header, found⟩), .inr (.inr ⟨target, found⟩)⟩
  · exact fun flow => ⟨flow.overlap?_eq_find?, fun block => ⟨one_lt_size_merges_iff, Overlaps.visited⟩⟩

/-- Block 1 opens a loop and ends a selection, block 5 ends that loop and a switch, and
a link to a block that opens nothing is refused. -/
def crowdedBlocks : List Edit :=
  [.loop ⟨1⟩ ⟨5⟩ ⟨2⟩, .selection ⟨1⟩, .switch ⟨5⟩, .link ⟨2⟩ ⟨9⟩]

theorem ids_match_roles_crowdedBlocks :
    (run {} crowdedBlocks).ids.count ⟨1⟩ = (⟨0b01001⟩ : Roles).size ∧
    (run {} crowdedBlocks).headerOf[(⟨2⟩ : ResultId)]? = some ⟨1⟩ ∧
    ⟨2⟩ ∈ (run {} crowdedBlocks).ids ∧ ⟨1⟩ ∈ (run {} crowdedBlocks).ids ∧
    (run {} crowdedBlocks).Overlaps ⟨5⟩ ∧ ⟨5⟩ ∈ (run {} crowdedBlocks).mergesVisited := by
  obtain ⟨counted, links, overlaps⟩ := ids_match_roles
  have played : (run {} crowdedBlocks).roles ⟨1⟩ = ⟨0b01001⟩ := by decide
  have linked : (run {} crowdedBlocks).headerOf[(⟨2⟩ : ResultId)]? = some ⟨1⟩ := by decide
  have overlapping : (run {} crowdedBlocks).Overlaps ⟨5⟩ := .inr (.inl ⟨by decide, by decide⟩)
  obtain ⟨target, header⟩ := links _ _ _ linked
  exact ⟨played ▸ (counted _ _).1, linked, target, header, overlapping, ((overlaps _).2 _).2 overlapping⟩

end ControlFlow

end Shader

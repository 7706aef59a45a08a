import Shader.Proofs.ControlFlowRuns

/-! What the searches for a fault find. Sets of ids list ascending, so a search that stops at
its first hit has found the least id of its sort. One of the searches looks at two of the three
merge roles only, another passes the links over, and neither misses anything:
an overlap takes two merge roles, and edits link no block that has no role. -/

namespace Shader

/-- The id has the property, and every other id that has it is larger. -/
structure Least (holds : ResultId → Prop) (id : ResultId) : Prop where
  has : holds id
  le : ∀ other, holds other → id.index ≤ other.index

namespace Least

variable {holds other : ResultId → Prop} {id : ResultId}

theorem unique {first second : ResultId} (a : Least holds first) (b : Least holds second) :
    first = second :=
  ResultId.index_inj.mp (Nat.le_antisymm (a.le second b.has) (b.le first a.has))

theorem congr (same : ∀ id, holds id ↔ other id) : Least holds id ↔ Least other id := by
  have equal : holds = other := funext fun id => propext (same id)
  rw [equal]

theorem of_le {bound larger : Nat} (grown : bound ≤ larger)
    (least : Least (fun id => holds id ∧ bound ≤ id.index) id) (past : larger ≤ id.index) :
    Least (fun id => holds id ∧ larger ≤ id.index) id where
  has := ⟨least.has.1, past⟩
  le other found := least.le other ⟨found.1, Nat.le_trans grown found.2⟩

end Least

namespace IdSet

variable {set : IdSet} {test : ResultId → Bool}

theorem find?_toList_eq_none :
    set.toList.find? test = none ↔ ∀ id ∈ set, ¬ test id = true := by
  simp only [List.find?_eq_none, Std.ExtTreeSet.mem_toList]

private theorem find?_toList_least {id : ResultId} (found : set.toList.find? test = some id) :
    Least (fun id => id ∈ set ∧ test id = true) id := by
  obtain ⟨hit, before, after, split, missed⟩ := List.find?_eq_some_iff_append.mp found
  have member : id ∈ set := Std.ExtTreeSet.mem_toList.mp (List.mem_of_find?_eq_some found)
  refine ⟨⟨member, hit⟩, ?_⟩
  intro other ⟨present, holds⟩
  have listed := Std.ExtTreeSet.mem_toList.mpr present
  have ordered := Std.ExtTreeSet.ordered_toList (t := set)
  rw [split] at listed ordered
  rcases List.mem_append.mp listed with early | late
  · have refused := missed other early
    simp [holds] at refused
  · rcases List.mem_cons.mp late with rfl | late
    · exact Nat.le_refl _
    · have larger := List.rel_of_pairwise_cons (List.pairwise_append.mp ordered).2.1 late
      exact Nat.le_of_lt (ResultId.lt_iff_index.mp (ResultId.compare_eq_lt.mp larger))

theorem find?_toList_eq_some {id : ResultId} :
    set.toList.find? test = some id ↔ Least (fun id => id ∈ set ∧ test id = true) id := by
  refine ⟨find?_toList_least, fun least => ?_⟩
  cases found : set.toList.find? test with
  | none => exact absurd least.has.2 (find?_toList_eq_none.mp found id least.has.1)
  | some first => rw [(find?_toList_least found).unique least]

end IdSet

/-! ### Overlaps, strays and links -/

private theorem Roles.one_lt_size_merges (holds : Role → Bool) :
    1 < (Roles.select holds ∩ .anyMerge).size ↔
      holds .loopMerge = true ∧ holds .selectionMerge = true ∨
      holds .loopMerge = true ∧ holds .switchMerge = true ∨
      holds .selectionMerge = true ∧ holds .switchMerge = true := by
  have bits : ∀ a b c d e : Bool, 1 < ((⟨.ofBoolListLE [a, b, c, d, e]⟩ : Roles) ∩ .anyMerge).size ↔
      c = true ∧ d = true ∨ c = true ∧ e = true ∨ d = true ∧ e = true := by decide
  exact bits _ _ _ _ _

namespace ControlFlow

/-- The block is a merge of two sorts. -/
def Overlaps (flow : ControlFlow) (block : ResultId) : Prop :=
  block ∈ flow.loopMerges ∧ block ∈ flow.selectionMerges ∨
  block ∈ flow.loopMerges ∧ block ∈ flow.switchMerges ∨
  block ∈ flow.selectionMerges ∧ block ∈ flow.switchMerges

/-- The id plays a role or stands on either side of a link. -/
def Mentions (flow : ControlFlow) (id : ResultId) : Prop :=
  (∃ role, id ∈ flow.blocks role) ∨
  (∃ header, flow.headerOf[id]? = some header) ∨ ∃ target : ResultId, flow.headerOf[target]? = some id

/-- Every link leads from a continue target to a loop header. -/
def Linked (flow : ControlFlow) : Prop :=
  ∀ target header, flow.headerOf[target]? = some header →
    target ∈ flow.continueTargets ∧ header ∈ flow.loopHeaders

variable {flow next : ControlFlow} {edit : Edit} {id : ResultId} {bound : Nat}

theorem linkFault?_eq_none (linked : flow.Linked) : flow.linkFault? = none := by
  simp only [linkFault?, List.findSome?_eq_none_iff]
  intro ⟨target, header⟩ member
  have known := linked target header (Std.ExtTreeMap.mem_toList_iff_getElem?_eq_some.mp member)
  simp [known]

theorem one_lt_size_merges_iff : 1 < (flow.roles id ∩ .anyMerge).size ↔ flow.Overlaps id := by
  simp only [roles, Roles.one_lt_size_merges, blocks, Std.ExtTreeSet.contains_iff_mem, Overlaps]

theorem Overlaps.mem_union (overlapping : flow.Overlaps id) : id ∈ flow.loopMerges ∪ flow.selectionMerges := by
  rw [Std.ExtTreeSet.mem_union_iff]
  rcases overlapping with ⟨loop, _⟩ | ⟨loop, _⟩ | ⟨selection, _⟩
  · exact .inl loop
  · exact .inl loop
  · exact .inr selection

private theorem overlap_iff :
    (id ∈ flow.loopMerges ∪ flow.selectionMerges ∧
      decide (1 < (flow.roles id ∩ .anyMerge).size) = true) ↔ flow.Overlaps id := by
  rw [decide_eq_true_eq, one_lt_size_merges_iff]
  exact and_iff_right_of_imp Overlaps.mem_union

theorem overlap?_eq_some : flow.overlap? = some id ↔ Least flow.Overlaps id :=
  IdSet.find?_toList_eq_some.trans (Least.congr fun _ => overlap_iff)

theorem overlap?_eq_none : flow.overlap? = none ↔ ∀ id, ¬ flow.Overlaps id := by
  refine IdSet.find?_toList_eq_none.trans (forall_congr' fun id => ?_)
  rw [← not_and, overlap_iff]

theorem mem_ids : id ∈ flow.ids ↔ ∃ role, id ∈ flow.blocks role := by
  simp only [ids, List.mem_flatMap, Std.ExtTreeSet.mem_toList, Role.mem_all, true_and]

/-- Links add nothing to the ids of the roles. -/
theorem Linked.mem_ids (linked : flow.Linked) : id ∈ flow.ids ↔ flow.Mentions id := by
  rw [ControlFlow.mem_ids]
  refine ⟨Or.inl, ?_⟩
  intro mentioned
  rcases mentioned with plays | ⟨header, linkedTo⟩ | ⟨target, linkedFrom⟩
  · exact plays
  · exact ⟨.continueTarget, (linked id header linkedTo).1⟩
  · exact ⟨.loopHeader, (linked target id linkedFrom).2⟩

private theorem stray_iff (linked : flow.Linked) :
    (id ∈ Std.ExtTreeSet.ofList flow.ids ∧ decide (bound ≤ id.index) = true) ↔
      flow.Mentions id ∧ bound ≤ id.index := by
  rw [Std.ExtTreeSet.mem_ofList, List.contains_iff_mem, linked.mem_ids, decide_eq_true_eq]

theorem stray?_eq_some (linked : flow.Linked) : flow.stray? bound = some id ↔
    Least (fun id => flow.Mentions id ∧ bound ≤ id.index) id :=
  IdSet.find?_toList_eq_some.trans (Least.congr fun _ => stray_iff linked)

theorem stray?_eq_none (linked : flow.Linked) :
    flow.stray? bound = none ↔ ∀ id, flow.Mentions id → id.index < bound := by
  refine IdSet.find?_toList_eq_none.trans (forall_congr' fun id => ?_)
  rw [← not_and, stray_iff linked, not_and, Nat.not_le]

private theorem mem_blocks_of_apply (applied : flow.apply edit = .ok next) (role : Role)
    (kept : role ≠ .selectionMerge) (member : id ∈ flow.blocks role) : id ∈ next.blocks role :=
  (mem_blocks_apply applied role id).mpr (.inr ⟨member, edit.not_withdraws role kept id⟩)

private theorem headerFor?_known {target header : ResultId} (applied : flow.apply edit = .ok next)
    (found : edit.headerFor? target = some header) :
    target ∈ next.continueTargets ∧ header ∈ next.loopHeaders := by
  cases edit with
  | link named opened =>
    obtain ⟨listed, known, rfl⟩ := link_eq_ok.mp applied
    by_cases same : named = target
    · rw [Edit.headerFor?, if_pos same, Option.some.injEq] at found
      exact ⟨same ▸ listed, found ▸ known⟩
    · simp [Edit.headerFor?, same] at found
  | loop opened merge named =>
    have continues := mem_blocks_apply applied .continueTarget target
    have opens := mem_blocks_apply applied .loopHeader header
    by_cases both : named = target ∧ named ≠ opened
    · rw [Edit.headerFor?, if_pos both, Option.some.injEq] at found
      exact ⟨continues.mpr (.inl both), opens.mpr (.inl found)⟩
    · simp [Edit.headerFor?, both] at found
  | insert | selection | switch => cases found

theorem linked_empty : Linked {} := by
  intro target header found
  simp at found

theorem Linked.apply (linked : flow.Linked) (applied : flow.apply edit = .ok next) : next.Linked := by
  intro target header found
  rw [headerOf_apply applied] at found
  cases given : edit.headerFor? target with
  | some opened =>
    simp only [given, Option.some_or, Option.some.injEq] at found
    exact found ▸ headerFor?_known applied given
  | none =>
    simp only [given, Option.none_or] at found
    obtain ⟨listed, opened⟩ := linked target header found
    exact ⟨mem_blocks_of_apply applied .continueTarget (by decide) listed,
      mem_blocks_of_apply applied .loopHeader (by decide) opened⟩

end ControlFlow

end Shader

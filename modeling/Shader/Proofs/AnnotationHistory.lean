import Mathlib.Data.List.Induction
import Shader.Proofs.ModuleInvariant
import Shader.Proofs.NoteHistory
import Shader.Proofs.StoreGrowth

/-! The annotations of a module after any run. Each part of each id is a note of its
own, which the accepted edits addressed to it have written in order; growth, edits
of other parts and edits of other components leave it alone. -/

namespace Shader

/-- How long a list of members has to be to hold the part. -/
def Part.reach : Part → Nat
  | .whole => 0
  | .member index => index + 1

namespace Annotations

variable {annotations : Annotations} {part place : Part} {change : Note → Note}

theorem find?_modify : ((annotations.modify part change).find? place).getD default =
    if place = part then change ((annotations.find? part).getD default)
    else (annotations.find? place).getD default := by
  -- members that the list grows by on the way are blank, like those that are missing
  have blank : ∀ (size index : Nat), (grow annotations.members size)[index]?.getD default =
      annotations.members[index]?.getD default :=
    fun size _ => view_getElem?_grow (·.getD default) rfl size
  cases part with
  | whole => cases place <;> rfl
  | member index =>
    cases place with
    | whole => rfl
    | member other =>
      have inside : index < (grow annotations.members (index + 1)).size := by
        rw [size_grow]
        omega
      simp only [modify, find?, Array.getElem?_modify, Part.member.injEq]
      by_cases same : other = index
      · subst same
        rw [if_pos rfl, if_pos rfl, ← blank (other + 1), Array.getElem?_eq_getElem inside]
        rfl
      · rw [if_neg (Ne.symm same), if_neg same, blank]

private theorem size_members_modify :
    (annotations.modify part change).members.size = max annotations.members.size part.reach := by
  cases part with
  | whole => exact (Nat.max_zero _).symm
  | member index => exact Array.size_modify.trans (size_grow _ _)

end Annotations

namespace AnnotationStore

variable {store next : AnnotationStore} {bound : Nat} {id : ResultId} {part : Part} {edit : Note.Edit}

theorem record?_annotate (annotated : store.annotate bound id part edit = .ok next) (other : ResultId) :
    next.record? other = if id = other then
      (store.record? other).map (·.modify part (·.apply edit)) else store.record? other := by
  obtain ⟨_, rfl⟩ := annotate_eq_ok.mp annotated
  simp only [record?, Array.getElem?_modify, ResultId.index_inj]

private theorem record?_of_annotate (annotated : store.annotate bound id part edit = .ok next) :
    ∃ record, store.record? id = some record :=
  ⟨_, Array.getElem?_eq_getElem (annotate_eq_ok.mp annotated).1⟩

theorem read_annotate (annotated : store.annotate bound id part edit = .ok next) (other : ResultId)
    (place : Part) : next.read other place = if id = other ∧ part = place then
      (store.read other place).apply edit else store.read other place := by
  by_cases same : id = other
  · subst same
    obtain ⟨record, held⟩ := record?_of_annotate annotated
    simp only [read, record?_annotate annotated, held, if_true, Option.map_some, Option.bind_some,
      Annotations.find?_modify, true_and, eq_comm (a := place)]
    split
    next here => rw [here]
    next => rfl
  · rw [read, record?_annotate annotated, if_neg same, if_neg (not_and_of_not_left _ same), read]

def memberCount (store : AnnotationStore) (id : ResultId) : Nat :=
  (store.record? id).elim 0 (·.members.size)

private theorem memberCount_growTo (size : Nat) : (store.growTo size).memberCount id = store.memberCount id :=
  view_getElem?_grow (fun record : Option Annotations => record.elim 0 (·.members.size)) rfl size

private theorem memberCount_annotate (annotated : store.annotate bound id part edit = .ok next)
    (other : ResultId) : next.memberCount other = if id = other then max (store.memberCount other) part.reach
      else store.memberCount other := by
  by_cases same : id = other
  · subst same
    obtain ⟨record, held⟩ := record?_of_annotate annotated
    simp only [memberCount, record?_annotate annotated, held, if_true, Option.map_some, Option.elim_some,
      Annotations.size_members_modify]
  · simp only [memberCount, record?_annotate annotated, if_neg same]

end AnnotationStore

namespace Module

namespace Edit

/-- The edit that is made to one part of an id's annotations, if it is addressed there. -/
def note? (id : ResultId) (part : Part) : Edit → Option Note.Edit
  | .annotate named place edit => if named = id ∧ place = part then some edit else none
  | _ => none

def member? (id : ResultId) : Edit → Option Nat
  | .annotate named (.member index) _ => if named = id then some index else none
  | _ => none

end Edit

theorem read_run (m : Module) (edits : List Edit) (id : ResultId) (part : Part) :
    (m.run edits).annotations.read id part =
      ((m.accepted edits).filterMap (·.note? id part)).foldl Note.apply (m.annotations.read id part) := by
  rw [List.foldl_filterMap]
  refine view_run (·.annotations.read id part) _ ?_ (fun _ _ => rfl) m edits
  intro m edit next accepted
  cases accepted with
  | growTo | mint => exact AnnotationStore.read_growTo _
  | annotate annotated =>
    rw [AnnotationStore.read_annotate annotated, Edit.note?]
    split <;> rfl
  | entity | controlFlow | entryPoint | setSource | declare => rfl

theorem memberCount_run (m : Module) (edits : List Edit) (id : ResultId) :
    (m.run edits).annotations.memberCount id = ((m.accepted edits).filterMap (·.member? id)).foldl
      (fun count index => max count (index + 1)) (m.annotations.memberCount id) := by
  rw [List.foldl_filterMap]
  refine view_run (·.annotations.memberCount id) _ ?_ (fun _ _ => rfl) m edits
  intro m edit next accepted
  cases accepted with
  | growTo | mint => exact AnnotationStore.memberCount_growTo _
  | @annotate named part _ _ annotated =>
    rw [AnnotationStore.memberCount_annotate annotated]
    cases part with
    | whole => simp [Edit.member?, Part.reach]
    | member index =>
      simp only [Edit.member?, Part.reach]
      split <;> rfl
  | entity | controlFlow | entryPoint | setSource | declare => rfl

private theorem foldl_max_succ (indices : List Nat) :
    indices.foldl (fun count index => max count (index + 1)) 0 = indices.max?.elim 0 (· + 1) := by
  cases indices with
  | nil => rfl
  | cons index indices =>
    rw [List.foldl_cons, Nat.zero_max, List.max?_cons', Option.elim_some]
    exact List.foldl_hom (· + 1) (fun largest index => Nat.succ_max_succ largest index)

theorem Coherent.fault?_annotate {m : Module} (coherent : m.Coherent) (id : ResultId) (part : Part)
    (edit : Note.Edit) : (m.perform (.annotate id part edit)).fault? =
      if id.index < m.bound then none else some (.outOfBounds id m.bound) := by
  rw [perform, AnnotationStore.annotate, ← coherent.sizes, bound]
  by_cases inside : id.index < m.entities.size
  · rw [if_pos inside, if_pos inside]
    rfl
  · rw [if_neg inside, if_neg inside]
    rfl

/-- After any run from an empty module, each note recalls the accepted edits that were
addressed to it, and an id lists members up to the last one an edit was addressed to.
The next edit to a note is accepted if its id is below the bound. -/
theorem annotations_recall (words : List Word) (edits : List Edit) (id : ResultId) :
    (∀ part, Note.Recalls (((ofWords words).accepted edits).filterMap (·.note? id part))
      (((ofWords words).run edits).annotations.read id part)) ∧
    (((ofWords words).run edits).annotations.record? id).elim 0 (·.members.size) =
      (((ofWords words).accepted edits).filterMap (·.member? id)).max?.elim 0 (· + 1) ∧
    ∀ part edit, (((ofWords words).run edits).perform (.annotate id part edit)).fault? =
      if id.index < ((ofWords words).run edits).bound then none
      else some (.outOfBounds id ((ofWords words).run edits).bound) := by
  refine ⟨?_, ?_, ((Reachable.words words).run edits).coherent.fault?_annotate id⟩
  · intro part
    rw [read_run]
    exact Note.Recalls.foldl _
  · rw [← foldl_max_succ]
    exact memberCount_run _ edits id

/-- A member that is written, cleared and written again, around a name that comes before its
id and is lost. -/
def rewrittenMember : List Edit :=
  [.growTo 3, .annotate ⟨1⟩ (.member 2) (.decorate (.set ⟨35⟩ 8)), .annotate ⟨3⟩ .whole (.rename "early"),
    .annotate ⟨1⟩ (.member 2) (.decorate (.unset ⟨35⟩)), .annotate ⟨1⟩ (.member 0) (.rename "first"),
    .annotate ⟨1⟩ (.member 2) (.decorate (.set ⟨35⟩ 16)), .growTo 4]

theorem annotations_recall_rewrittenMember :
    (((ofWords []).run rewrittenMember).annotations.read ⟨1⟩ (.member 2)).decorations.has ⟨35⟩ = true ∧
    (((ofWords []).run rewrittenMember).annotations.read ⟨1⟩ (.member 2)).decorations.operand ⟨35⟩ = 16 ∧
    (((ofWords []).run rewrittenMember).annotations.record? ⟨1⟩).elim 0 (·.members.size) = 3 ∧
    (((ofWords []).run rewrittenMember).annotations.read ⟨3⟩ .whole).name = "" ∧
    (((ofWords []).run rewrittenMember).perform (.annotate ⟨3⟩ .whole (.rename "late"))).fault? = none := by
  obtain ⟨recalls, members, _⟩ := annotations_recall [] rewrittenMember ⟨1⟩
  obtain ⟨lost, _, accepted⟩ := annotations_recall [] rewrittenMember ⟨3⟩
  have set : ∃ edit ∈ Note.sinceUnset ⟨35⟩
      (((ofWords []).accepted rewrittenMember).filterMap (·.note? ⟨1⟩ (.member 2))), edit.Sets ⟨35⟩ :=
    ⟨.decorate (.set ⟨35⟩ 16), by decide, .inl ⟨16, rfl⟩⟩
  refine ⟨((recalls (.member 2)).has _).mpr set, ?_, ?_, ?_, ?_⟩
  · exact ((recalls (.member 2)).operand _).trans (by decide)
  · exact members.trans (by decide)
  · exact (lost .whole).name.trans (by decide)
  · exact (accepted _ _).trans (by decide)

end Module

end Shader

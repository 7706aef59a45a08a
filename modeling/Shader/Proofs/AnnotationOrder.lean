import Shader.Proofs.ModuleEdits
import Shader.Proofs.NoteOrder
import Shader.Proofs.Runs

/-! How far the annotations of a module depend on the order of their edits. Each name and each
decoration is a cell of its own, in the record of its id and there in the part that it belongs
to. Edits to different cells commute, although an edit to a member may also have to extend the
list of members, since the list ends up as long as the farthest of them needs it. -/

namespace Shader

namespace Annotations

variable (annotations : Annotations) {part place : Part} {first second : Note → Note}

theorem modify_comm (apart : part ≠ place ∨ ∀ note, second (first note) = first (second note)) :
    (annotations.modify part first).modify place second = (annotations.modify place second).modify part first := by
  cases part with
  | whole =>
    cases place with
    | whole => simp only [modify, apart.resolve_left (· rfl)]
    | member other => rfl
  | member index =>
    cases place with
    | whole => rfl
    | member other =>
      -- both lists are extended to the larger of the two indices before either member is changed
      have reaches : ∀ index : Nat, index < (grow annotations.members (index + 1)).size := by
        intro index
        rw [size_grow]
        omega
      have indices : index ≠ other ∨ ∀ note, second (first note) = first (second note) :=
        apart.imp_left fun parts same => parts (congrArg Part.member same)
      simp only [modify, grow_modify (reaches _), Shader.modify_comm indices,
        grow_grow_comm (index + 1) (other + 1)]

private theorem modify_twice (idempotent : ∀ note, first (first note) = first note) :
    (annotations.modify part first).modify part first = annotations.modify part first := by
  cases part with
  | whole => simp only [modify, idempotent]
  | member index =>
    have reached : index + 1 ≤ (grow annotations.members (index + 1)).size := by
      rw [size_grow]
      omega
    have twice : first ∘ first = first := funext idempotent
    simp only [modify, grow_of_le (reached.trans_eq Array.size_modify.symm), modify_modify, twice]

end Annotations

namespace AnnotationStore

structure Edit where
  id : ResultId
  part : Part
  edit : Note.Edit
  deriving DecidableEq, Repr

/-- What an edit can write to: the name or one decoration of one part of an id. -/
structure Cell where
  id : ResultId
  part : Part
  topic : Note.Topic
  deriving DecidableEq, Repr

def Edit.cell (edit : Edit) : Cell := ⟨edit.id, edit.part, edit.edit.topic⟩

/-- What the edit makes of the record of its id. -/
def Edit.change (edit : Edit) (record : Annotations) : Annotations :=
  record.modify edit.part (·.apply edit.edit)

/-- The store with an edit made to it, or as it was where the id has no record. -/
def revise (store : AnnotationStore) (edit : Edit) : AnnotationStore :=
  ⟨store.records.modify edit.id.index edit.change⟩

variable {store : AnnotationStore} {edit first second : Edit}

private theorem Edit.change_comm (record : Annotations) (ids : first.id = second.id)
    (apart : first.cell ≠ second.cell) :
    second.change (first.change record) = first.change (second.change record) := by
  refine record.modify_comm ?_
  by_cases parts : first.part = second.part
  · refine .inr fun note => note.apply_comm fun topics => apart ?_
    simp only [Edit.cell, ids, parts, topics]
  · exact .inl parts

private theorem Edit.change_change (edit : Edit) (record : Annotations) :
    edit.change (edit.change record) = edit.change record :=
  record.modify_twice fun note => note.apply_apply edit.edit

@[simp] theorem size_revise (edit : Edit) : (store.revise edit).size = store.size := Array.size_modify

theorem revise_comm (store : AnnotationStore) (apart : first.cell ≠ second.cell) :
    (store.revise first).revise second = (store.revise second).revise first := by
  refine congrArg AnnotationStore.mk (modify_comm ?_)
  by_cases ids : first.id = second.id
  · exact .inr fun record => Edit.change_comm record ids apart
  · exact .inl (mt ResultId.index_inj.mp ids)

theorem revise_revise (store : AnnotationStore) (edit : Edit) :
    (store.revise edit).revise edit = store.revise edit := by
  have twice : edit.change ∘ edit.change = edit.change := funext edit.change_change
  rw [revise, revise, modify_modify, twice]

private theorem revise_of_outside (outside : ¬ edit.id.index < store.size) : store.revise edit = store := by
  refine congrArg AnnotationStore.mk (Array.ext_getElem? fun index => ?_)
  rw [Array.getElem?_modify]
  split
  next same =>
    rw [← same, Array.getElem?_eq_none (Nat.not_lt.mp outside)]
    rfl
  next => rfl

end AnnotationStore

namespace Module

def Edit.ofNote (edit : AnnotationStore.Edit) : Edit := .annotate edit.id edit.part edit.edit

variable {m : Module} {edits others : List AnnotationStore.Edit}

theorem perform_ofNote (m : Module) (edit : AnnotationStore.Edit) : m.perform (.ofNote edit) =
    { state := { m with annotations := m.annotations.revise edit }
      fault? := if edit.id.index < m.annotations.size then none
        else some (.outOfBounds edit.id m.bound) } := by
  rw [Edit.ofNote, perform, AnnotationStore.annotate]
  split
  · rfl
  next outside =>
    rw [AnnotationStore.revise_of_outside outside]
    rfl

theorem run_ofNote (m : Module) (edits : List AnnotationStore.Edit) :
    m.run (edits.map .ofNote) = { m with annotations := edits.foldl .revise m.annotations } := by
  induction edits generalizing m with
  | nil => rfl
  | cons edit edits ih => rw [List.map_cons, run_cons, perform_ofNote, ih, List.foldl_cons]

private theorem size_foldl_revise (store : AnnotationStore) (edits : List AnnotationStore.Edit) :
    (edits.foldl .revise store).size = store.size := by
  induction edits generalizing store with
  | nil => rfl
  | cons edit edits ih => rw [List.foldl_cons, ih, AnnotationStore.size_revise]

private theorem fault?_ofNote_run (m : Module) (edits : List AnnotationStore.Edit)
    (edit : AnnotationStore.Edit) :
    ((m.run (edits.map .ofNote)).perform (.ofNote edit)).fault? = (m.perform (.ofNote edit)).fault? := by
  rw [run_ofNote, perform_ofNote, perform_ofNote, size_foldl_revise]
  rfl

/-- Two runs of edits to notes come to the same module, and refuse the same edits on the way. -/
structure RunsAlike (m : Module) (edits others : List AnnotationStore.Edit) : Prop where
  state : m.run (edits.map .ofNote) = m.run (others.map .ofNote)
  refusals : ∀ before edit after earlier later, edits = before ++ edit :: after →
    others = earlier ++ edit :: later →
      ((m.run (before.map .ofNote)).perform (.ofNote edit)).fault? =
        ((m.run (earlier.map .ofNote)).perform (.ofNote edit)).fault?

/-- The same edits in another order come to the same module, if the edits to each cell stay in
theirs; and an edit that is made again at once changes nothing more. -/
theorem notes_reordered (m : Module) {edits others : List AnnotationStore.Edit}
    (kept : ∀ cell, edits.filter (·.cell = cell) = others.filter (·.cell = cell)) :
    m.RunsAlike edits others ∧
    ∀ edit, (m.perform (.ofNote edit)).state.perform (.ofNote edit) = m.perform (.ofNote edit) := by
  refine ⟨⟨?_, ?_⟩, fun edit => ?_⟩
  · rw [run_ofNote, run_ofNote, (Rearranged.of_sorts kept).foldl_eq]
    exact fun first _ second _ apart store => store.revise_comm apart
  · intro before edit after earlier later _ _
    rw [fault?_ofNote_run, fault?_ofNote_run]
  · simp only [perform_ofNote, bound, AnnotationStore.revise_revise, AnnotationStore.size_revise]

/-- Two edits to one decoration of the last member, with edits to other cells around them that
unset what was never set, take a bit past the flag word, and name an id past the bound. -/
def farMember : List AnnotationStore.Edit :=
  [⟨⟨1⟩, .member 3, .decorate (.set ⟨35⟩ 8)⟩, ⟨⟨1⟩, .whole, .rename "block"⟩,
    ⟨⟨1⟩, .member 0, .decorate (.unset ⟨35⟩)⟩, ⟨⟨9⟩, .whole, .rename "lost"⟩,
    ⟨⟨1⟩, .member 3, .decorate (.setText ⟨35⟩ "late")⟩, ⟨⟨1⟩, .member 3, .decorate (.set ⟨5635⟩ 1)⟩]

def farMemberReordered : List AnnotationStore.Edit :=
  [⟨⟨9⟩, .whole, .rename "lost"⟩, ⟨⟨1⟩, .member 3, .decorate (.set ⟨5635⟩ 1)⟩,
    ⟨⟨1⟩, .member 3, .decorate (.set ⟨35⟩ 8)⟩, ⟨⟨1⟩, .member 3, .decorate (.setText ⟨35⟩ "late")⟩,
    ⟨⟨1⟩, .member 0, .decorate (.unset ⟨35⟩)⟩, ⟨⟨1⟩, .whole, .rename "block"⟩]

theorem notes_reordered_farMember :
    (∀ cell, farMember.filter (·.cell = cell) = farMemberReordered.filter (·.cell = cell)) ∧
    ((ofWords []).growTo 3).run (farMember.map .ofNote) =
      ((ofWords []).growTo 3).run (farMemberReordered.map .ofNote) ∧
    (((ofWords []).growTo 3).run (farMemberReordered.map .ofNote)).annotations.flags ⟨1⟩ (.member 3) =
      .ofList [35, 5635] := by
  have kept := filter_sort_eq_of_mem (by decide : ∀ edit ∈ farMember ++ farMemberReordered,
    farMember.filter (·.cell = edit.cell) = farMemberReordered.filter (·.cell = edit.cell))
  exact ⟨kept, (notes_reordered _ kept).1.state, by decide⟩

end Module

end Shader

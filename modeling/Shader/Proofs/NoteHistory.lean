import Mathlib.Data.List.DropRight
import Shader.Annotations
import Shader.Proofs.Runs

/-! A note after the edits made to it. Its name and the flag, operand and text of each
decoration are cells of their own: each holds what was last written there, and only
an edit that unsets a decoration clears the cells of that decoration. Operand and text
are one operand in two forms, so that what holds of both maps is stated once. -/

namespace Shader

theorem Enumerant.code_inj {family : Family} {a b : Enumerant family} : a.code = b.code ↔ a = b :=
  ⟨fun same => by cases a; cases b; exact congrArg _ same, congrArg _⟩

namespace Decorations

/-- The two forms an operand of a decoration comes in. -/
inductive Form where
  | word | text
  deriving DecidableEq, Repr

namespace Form

@[reducible] def Operand : Form → Type
  | word => Word
  | text => String

/-- What is read where no operand is kept. -/
def blank : (form : Form) → form.Operand
  | word => 0
  | text => ""

end Form

def stored (decorations : Decorations) : (form : Form) → Std.ExtTreeMap Decoration form.Operand
  | .word => decorations.operands
  | .text => decorations.texts

def read (decorations : Decorations) (form : Form) (decoration : Decoration) : form.Operand :=
  (decorations.stored form).getD decoration form.blank

namespace Edit

def decoration : Edit → Decoration
  | .set decoration _ | .setText decoration _ | .unset decoration => decoration

/-- What takes the place of the operand of the form; none if the operand stays. -/
def written? : (form : Form) → Edit → Option (Option form.Operand)
  | .word, .set _ operand => some (some operand)
  | .text, .setText _ text => some (some text)
  | _, .unset _ => some none
  | _, _ => none

end Edit

variable {decorations : Decorations} {form : Form}

theorem has_iff_mem {decoration : Decoration} :
    decorations.has decoration = true ↔ decoration.code ∈ decorations.flags := Iff.rfl

theorem mem_flags_iff {bit : Word} : bit ∈ decorations.flags ↔
    ∃ decoration : Decoration, decoration.code = bit ∧ decorations.has decoration = true :=
  ⟨fun member => ⟨⟨bit⟩, rfl, member⟩, fun ⟨_, same, member⟩ => same ▸ member⟩

theorem getElem?_stored_apply (edit : Edit) (decoration : Decoration) :
    ((decorations.apply edit).stored form)[decoration]? =
      if edit.decoration = decoration then (edit.written? form).getD (decorations.stored form)[decoration]?
      else (decorations.stored form)[decoration]? := by
  by_cases same : edit.decoration = decoration
  · subst same
    cases edit <;> cases form <;> simp [stored, apply, Edit.decoration, Edit.written?]
  · rw [if_neg same]
    cases edit with
    | set given value | setText given value | unset given =>
      have other : given ≠ decoration := same
      cases form <;> simp [stored, apply, Std.ExtTreeMap.getElem?_insert, Std.ExtTreeMap.getElem?_erase, other]

end Decorations

namespace Note

namespace Edit

def name? : Edit → Option String
  | .rename name => some name
  | .decorate _ => none

/-- The operand of the form that the decoration is given. -/
def given? (form : Decorations.Form) (decoration : Decoration) : Edit → Option form.Operand
  | .decorate edit => if edit.decoration = decoration then (edit.written? form).join else none
  | .rename _ => none

def operand? (decoration : Decoration) (edit : Edit) : Option Word := edit.given? .word decoration

def text? (decoration : Decoration) (edit : Edit) : Option String := edit.given? .text decoration

def Sets (edit : Edit) (decoration : Decoration) : Prop :=
  (∃ operand, edit = .decorate (.set decoration operand)) ∨
    ∃ text, edit = .decorate (.setText decoration text)

end Edit

variable {note : Note} {edits : List Edit} {edit : Edit} {decoration : Decoration} {form : Decorations.Form}

theorem name_apply : (note.apply edit).name = edit.name?.getD note.name := by
  cases edit <;> rfl

theorem has_apply : (note.apply edit).decorations.has decoration = true ↔ edit.Sets decoration ∨
    note.decorations.has decoration = true ∧ edit ≠ .decorate (.unset decoration) := by
  simp only [Decorations.has_iff_mem]
  cases edit with
  | rename name => simp [apply, Edit.Sets]
  | decorate edit =>
    cases edit with
    | set given operand | setText given text =>
      simp [apply, Decorations.apply, Edit.Sets, Enumerant.code_inj, eq_comm]
    | unset given =>
      simp [apply, Decorations.apply, Edit.Sets, Enumerant.code_inj, and_comm, eq_comm]

theorem read_apply (spared : edit ≠ .decorate (.unset decoration)) :
    (note.apply edit).decorations.read form decoration =
      (edit.given? form decoration).getD (note.decorations.read form decoration) := by
  cases edit with
  | rename name => rfl
  | decorate edit =>
    simp only [apply, Decorations.read, Edit.given?, Std.ExtTreeMap.getD_eq_getD_getElem?,
      Decorations.getElem?_stored_apply]
    by_cases own : edit.decoration = decoration
    · rw [if_pos own, if_pos own]
      cases edit with
      | set given operand | setText given text => cases form <;> rfl
      | unset given =>
        rw [← own] at spared
        exact absurd rfl spared
    · rw [if_neg own, if_neg own]
      rfl

private theorem read_apply_unset :
    (note.apply (.decorate (.unset decoration))).decorations.read form decoration = form.blank := by
  have own : (Decorations.Edit.unset decoration).decoration = decoration := rfl
  rw [apply, Decorations.read, Std.ExtTreeMap.getD_eq_getD_getElem?, Decorations.getElem?_stored_apply,
    if_pos own]
  cases form <;> rfl

/-- The edits after the last one that unset the decoration. -/
def sinceUnset (decoration : Decoration) (edits : List Edit) : List Edit :=
  edits.rtakeWhile (· ≠ .decorate (.unset decoration))

private theorem sinceUnset_unset : sinceUnset decoration (edits ++ [.decorate (.unset decoration)]) = [] := by
  simp [sinceUnset]

private theorem sinceUnset_concat (spared : edit ≠ .decorate (.unset decoration)) :
    sinceUnset decoration (edits ++ [edit]) = sinceUnset decoration edits ++ [edit] := by
  simp [sinceUnset, spared]

/-- What the edits to a note have left in each of its cells. -/
structure Recalls (edits : List Edit) (note : Note) : Prop where
  name : note.name = (edits.filterMap Edit.name?).getLast?.getD ""
  has : ∀ decoration, note.decorations.has decoration = true ↔
    ∃ edit ∈ sinceUnset decoration edits, edit.Sets decoration
  operand : ∀ decoration, note.decorations.operand decoration =
    ((sinceUnset decoration edits).filterMap (Edit.operand? decoration)).getLast?.getD 0
  text : ∀ decoration, note.decorations.text decoration =
    ((sinceUnset decoration edits).filterMap (Edit.text? decoration)).getLast?.getD ""
  flags : ∀ bit, bit ∈ note.decorations.flags ↔ ∃ decoration : Decoration,
    decoration.code = bit ∧ ∃ edit ∈ sinceUnset decoration edits, edit.Sets decoration

private theorem read_concat (form : Decorations.Form) (last : Edit)
    (recalled : note.decorations.read form decoration =
      ((sinceUnset decoration edits).filterMap (Edit.given? form decoration)).getLast?.getD form.blank) :
    (note.apply last).decorations.read form decoration =
      ((sinceUnset decoration (edits ++ [last])).filterMap (Edit.given? form decoration)).getLast?.getD
        form.blank := by
  by_cases unset : last = .decorate (.unset decoration)
  · subst unset
    rw [read_apply_unset, sinceUnset_unset]
    rfl
  · rw [read_apply unset, sinceUnset_concat unset, getLast?_filterMap_concat, recalled]

private theorem Recalls.concat (recalls : Recalls edits note) (last : Edit) :
    Recalls (edits ++ [last]) (note.apply last) := by
  have has : ∀ decoration, (note.apply last).decorations.has decoration = true ↔
      ∃ edit ∈ sinceUnset decoration (edits ++ [last]), edit.Sets decoration := by
    intro decoration
    rw [has_apply, recalls.has]
    by_cases unset : last = .decorate (.unset decoration)
    · simp [unset, sinceUnset_unset, Edit.Sets]
    · simp [unset, sinceUnset_concat, or_and_right, exists_or, or_comm]
  refine ⟨?_, has, ?_, ?_, ?_⟩
  · rw [name_apply, getLast?_filterMap_concat, recalls.name]
  · exact fun decoration => read_concat .word last (recalls.operand decoration)
  · exact fun decoration => read_concat .text last (recalls.text decoration)
  · intro bit
    simp only [Decorations.mem_flags_iff, has]

theorem Recalls.foldl (edits : List Edit) : Recalls edits (edits.foldl apply {}) := by
  induction edits using List.reverseRecOn with
  | nil =>
    refine ⟨rfl, ?_, fun _ => rfl, fun _ => rfl, ?_⟩
    · intro decoration
      simp [Decorations.has_iff_mem, sinceUnset]
    · intro bit
      simp [sinceUnset]
  | append_singleton edits last ih =>
    rw [List.foldl_concat]
    exact ih.concat last

end Note

end Shader

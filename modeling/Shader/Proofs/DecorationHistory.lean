import Shader.Proofs.FlagSetListing
import Shader.Proofs.NoteOrder
import Shader.Proofs.Runs

/-! Decorations whose flags are also changed directly. Such a change leaves every operand in
place, so the flag, the operand and the text of a decoration are cells of their own, and an
operand can outlive its flag. Records are equal if they agree on these cells. Where flags are
not changed directly, a decoration that is absent keeps nothing. -/

namespace Shader

namespace Decorations

inductive Change where
  | edit (edit : Edit)
  | flag (edit : FlagEdit)
  deriving DecidableEq, Repr

def change (decorations : Decorations) : Change → Decorations
  | .edit edit => decorations.apply edit
  | .flag edit => decorations.applyFlag edit

namespace Change

def flag? (decoration : Decoration) : Change → Option Bool
  | .edit (.set given _) | .edit (.setText given _) | .flag (.set given) =>
    if given = decoration then some true else none
  | .edit (.unset given) | .flag (.clear given) => if given = decoration then some false else none
  | .flag .reset => some false

/-- What is kept as the operand of the form after a change that concerns it. -/
def written? (form : Form) (decoration : Decoration) : Change → Option (Option form.Operand)
  | .edit made => if made.decoration = decoration then made.written? form else none
  | .flag _ => none

def operand? (decoration : Decoration) (change : Change) : Option (Option Word) :=
  change.written? .word decoration

def text? (decoration : Decoration) (change : Change) : Option (Option String) :=
  change.written? .text decoration

end Change

/-- What a record holds of one decoration, its flag set or not. -/
structure Kept where
  present : Bool
  operand : Option Word
  text : Option String
  deriving DecidableEq, Repr

def kept (decorations : Decorations) (decoration : Decoration) : Kept where
  present := decorations.has decoration
  operand := decorations.operands[decoration]?
  text := decorations.texts[decoration]?

def built (changes : List Change) : Decorations := changes.foldl change {}

variable {decorations other : Decorations} {decoration : Decoration} {changes : List Change}

/-! ### One change -/

private theorem has_change (change : Change) :
    (decorations.change change).has decoration = (change.flag? decoration).getD (decorations.has decoration) := by
  rw [Bool.eq_iff_iff, has_iff_mem]
  cases change with
  | edit edit =>
    cases edit with
    | set given operand | setText given text | unset given =>
      by_cases same : given = decoration <;>
        simp [Decorations.change, apply, Change.flag?, has_iff_mem, Enumerant.code_inj,
          eq_comm (a := decoration), same]
  | flag edit =>
    cases edit with
    | set given | clear given =>
      by_cases same : given = decoration <;>
        simp [Decorations.change, applyFlag, Change.flag?, has_iff_mem, Enumerant.code_inj,
          eq_comm (a := decoration), same]
    | reset => simp [Decorations.change, applyFlag, Change.flag?]

private theorem getElem?_stored_change (form : Form) (change : Change) :
    ((decorations.change change).stored form)[decoration]? =
      (change.written? form decoration).getD (decorations.stored form)[decoration]? := by
  cases change with
  | edit edit =>
    rw [Decorations.change, getElem?_stored_apply, Change.written?]
    split <;> rfl
  | flag edit => cases edit <;> cases form <;> rfl

private theorem split_change (split : decorations.flags.Split) (change : Change) :
    (decorations.change change).flags.Split := by
  cases change with
  | edit edit =>
    cases edit with
    | set given operand | setText given text => exact split.insert given.code
    | unset given => exact split.erase given.code
  | flag edit =>
    cases edit with
    | set given => exact split.insert given.code
    | clear given => exact split.erase given.code
    | reset => exact FlagSet.split_empty

private theorem kept_congr (has : decorations.has decoration = other.has decoration)
    (stored : ∀ form, (decorations.stored form)[decoration]? = (other.stored form)[decoration]?) :
    decorations.kept decoration = other.kept decoration := by
  rw [kept, kept, Kept.mk.injEq]
  exact ⟨has, stored .word, stored .text⟩

private theorem kept_apply_of_ne (decorations : Decorations) {edit : Edit}
    (other : edit.decoration ≠ decoration) :
    (decorations.apply edit).kept decoration = decorations.kept decoration := by
  refine kept_congr ((has_change (.edit edit)).trans ?_) fun form => ?_
  · cases edit with
    | set given operand | setText given text | unset given =>
      have other : given ≠ decoration := other
      simp [Change.flag?, other]
  · rw [getElem?_stored_apply, if_neg other]

private theorem kept_empty (decoration : Decoration) : kept {} decoration = ⟨false, none, none⟩ := by
  have absent : has {} decoration = false := by simp [← Bool.not_eq_true, has_iff_mem]
  simp [kept, absent]

private theorem kept_apply_unset :
    (decorations.apply (.unset decoration)).kept decoration = ⟨false, none, none⟩ := by
  rw [← kept_empty decoration]
  refine kept_congr ((has_change (.edit (.unset decoration))).trans ?_) fun form => ?_
  · simp [Change.flag?, (Kept.mk.inj (kept_empty decoration)).1]
  · cases form <;> simp [stored, apply]

/-! ### Runs -/

theorem has_built (decoration : Decoration) :
    (built changes).has decoration = (changes.filterMap (·.flag? decoration)).getLast?.getD false :=
  (cell_foldl (has · decoration) (fun _ => has_change) changes {}).trans
    (congrArg _ (Kept.mk.inj (kept_empty decoration)).1)

theorem read_built (form : Form) (decoration : Decoration) : (built changes).read form decoration =
    (changes.filterMap (·.written? form decoration)).getLast?.join.getD form.blank := by
  have last := cell_foldl (fun record : Decorations => (record.stored form)[decoration]?)
    (fun _ => getElem?_stored_change form) changes {}
  have blank : (stored {} form)[decoration]? = none := by cases form <;> simp [stored]
  rw [read, Std.ExtTreeMap.getD_eq_getD_getElem?, built, last, blank]
  cases (changes.filterMap (·.written? form decoration)).getLast? <;> rfl

/-- What the changes have left of each decoration: the last of them that concerns a flag decides
on it, and an operand is that of the last one that set it, unless it was unset since then. -/
structure Remembers (changes : List Change) (decorations : Decorations) : Prop where
  has : ∀ decoration, decorations.has decoration = true ↔
    (changes.filterMap (·.flag? decoration)).getLast? = some true
  operand : ∀ decoration, decorations.operand decoration =
    (changes.filterMap (·.operand? decoration)).getLast?.join.getD 0
  text : ∀ decoration, decorations.text decoration =
    (changes.filterMap (·.text? decoration)).getLast?.join.getD ""

theorem remembers_built (changes : List Change) : Remembers changes (built changes) where
  has decoration := by
    rw [has_built]
    cases (changes.filterMap (·.flag? decoration)).getLast? <;> simp
  operand := read_built .word
  text := read_built .text

theorem split_built (changes : List Change) : (built changes).flags.Split := by
  rw [built]
  induction changes using List.reverseRecOn with
  | nil => exact FlagSet.split_empty
  | append_singleton changes last ih =>
    rw [List.foldl_concat]
    exact split_change ih last

theorem eq_iff_kept (split : decorations.flags.Split) (also : other.flags.Split) :
    decorations = other ↔ ∀ decoration, decorations.kept decoration = other.kept decoration := by
  constructor
  · intro same decoration
    rw [same]
  · intro same
    simp only [kept, Kept.mk.injEq] at same
    refine ext_cells (split.eq_of_mem_iff also fun bit => ?_) fun form decoration => ?_
    · simp only [mem_flags_iff, (same _).1]
    · cases form with
      | word => exact (same decoration).2.1
      | text => exact (same decoration).2.2

/-! ### Operands without a flag -/

/-- An absent decoration keeps nothing, and leaves nothing behind when it is set and unset again. -/
structure Tidy (decorations : Decorations) : Prop where
  bare : ∀ decoration, decorations.has decoration = false → decorations.kept decoration = ⟨false, none, none⟩
  restored : ∀ edit : Edit, decorations.has edit.decoration = false →
    (decorations.apply edit).apply (.unset edit.decoration) = decorations

private theorem bare_apply
    (bare : decorations.has decoration = false → decorations.kept decoration = ⟨false, none, none⟩)
    (edit : Edit) (absent : (decorations.apply edit).has decoration = false) :
    (decorations.apply edit).kept decoration = ⟨false, none, none⟩ := by
  by_cases same : edit.decoration = decoration
  · subst same
    cases edit with
    | unset given => exact kept_apply_unset
    | set given operand | setText given text =>
      have present : (decorations.flags.insert given.code).contains given.code = true :=
        FlagSet.mem_insert.mpr (.inl rfl)
      cases absent.symm.trans present
  · have kept := decorations.kept_apply_of_ne same
    exact kept.trans (bare ((congrArg Kept.present kept).symm.trans absent))

theorem tidy_built (edits : List Edit) : (built (edits.map .edit)).Tidy := by
  have bare : ∀ decoration, (built (edits.map .edit)).has decoration = false →
      (built (edits.map .edit)).kept decoration = ⟨false, none, none⟩ := by
    intro decoration
    rw [built, List.foldl_map]
    induction edits using List.reverseRecOn with
    | nil => exact fun _ => kept_empty decoration
    | append_singleton edits last ih =>
      rw [List.foldl_concat]
      exact bare_apply ih last
  refine ⟨bare, fun edit absent => ?_⟩
  have split := split_built (edits.map .edit)
  have changed : (((built (edits.map .edit)).apply edit).apply (.unset edit.decoration)).flags.Split :=
    split_change (split_change split (.edit edit)) (.edit (.unset edit.decoration))
  refine (eq_iff_kept changed split).mpr fun decoration => ?_
  by_cases same : edit.decoration = decoration
  · subst same
    exact kept_apply_unset.trans (bare _ absent).symm
  · have unset : (Edit.unset edit.decoration).decoration ≠ decoration := same
    rw [kept_apply_of_ne _ unset, kept_apply_of_ne _ same]

/-- A record recalls the changes made to it, those to its flags included. It is decided by what it
holds of each decoration, and if its flags were never changed directly, it is tidy. -/
theorem changes_recalled (changes others : List Change) (edits : List Edit) :
    Remembers changes (built changes) ∧
    (built changes = built others ↔ ∀ decoration, (built changes).kept decoration = (built others).kept decoration) ∧
    (built (edits.map .edit)).Tidy :=
  ⟨remembers_built changes, eq_iff_kept (split_built changes) (split_built others), tidy_built edits⟩

/-- An operand that outlives its flag, and is found again when the flag is set. -/
example : (built [.edit (.set ⟨35⟩ 8), .edit (.setText ⟨5635⟩ "x"), .flag .reset, .flag (.set ⟨35⟩)]).toList =
    [(⟨35⟩, 8, "")] := by decide

end Decorations

end Shader

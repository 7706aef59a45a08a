import Shader.Proofs.ControlFlowHistory
import Shader.Proofs.ControlFlowSoundness

/-! Control flow that is announced by whole constructs, the way merge instructions
name them. Links and continue targets then go together, and whether the result is
sound can be read off the announcements: only merges of two sorts can go wrong. -/

namespace Shader.ControlFlow

inductive Construct where
  | loop (header merge target : ResultId)
  | selection (merge : ResultId)
  | switch (merge : ResultId)
  deriving DecidableEq, Repr

def Construct.edit : Construct → Edit
  | .loop header merge target => .loop header merge target
  | .selection merge => .selection merge
  | .switch merge => .switch merge

def ofConstructs (constructs : List Construct) : ControlFlow := run {} (constructs.map (·.edit))

variable {flow next : ControlFlow} {constructs : List Construct} {construct : Construct}
  {block : ResultId}

private theorem ofConstructs_concat : ofConstructs (constructs ++ [construct]) =
    ((ofConstructs constructs).perform construct.edit).state := by
  simp only [ofConstructs, List.map_append, List.map_cons, List.map_nil, run_concat]

private theorem Construct.exists_apply (flow : ControlFlow) (construct : Construct) :
    ∃ next, flow.apply construct.edit = .ok next := by
  cases construct <;> exact ⟨_, rfl⟩

/-- The continue targets are the blocks with a link, and no block is linked to itself. -/
structure Paired (flow : ControlFlow) : Prop where
  linked : flow.Linked
  keys : ∀ target, target ∈ flow.continueTargets ↔ target ∈ flow.headerOf
  apart : ∀ target header : ResultId, flow.headerOf[target]? = some header → target ≠ header

private theorem Construct.assigns_continueTarget : construct.edit.Assigns .continueTarget block ↔
    ∃ header, construct.edit.headerFor? block = some header := by
  cases construct with
  | loop header merge target => simp [edit, Edit.Assigns, Edit.headerFor?]
  | selection merge | switch merge => simp [edit, Edit.Assigns, Edit.headerFor?]

private theorem Construct.headerFor?_apart {target header : ResultId}
    (found : construct.edit.headerFor? target = some header) : target ≠ header := by
  cases construct with
  | loop opened merge named =>
    by_cases both : named = target ∧ named ≠ opened
    · simp only [edit, Edit.headerFor?, if_pos both, Option.some.injEq] at found
      exact both.1 ▸ found ▸ both.2
    · simp [edit, Edit.headerFor?, both] at found
  | selection merge | switch merge => simp [edit, Edit.headerFor?] at found

private theorem Paired.apply (paired : flow.Paired) (applied : flow.apply construct.edit = .ok next) :
    next.Paired where
  linked := paired.linked.apply applied
  keys target := by
    have listed := mem_blocks_apply applied .continueTarget target
    have kept : ¬ construct.edit.Withdraws .continueTarget target :=
      construct.edit.not_withdraws .continueTarget nofun target
    have linked : target ∈ next.headerOf ↔
        (∃ header, construct.edit.headerFor? target = some header) ∨ target ∈ flow.headerOf := by
      rw [Std.ExtTreeMap.mem_iff_isSome_getElem?, headerOf_apply applied, Option.isSome_or,
        Bool.or_eq_true, Option.isSome_iff_exists, Std.ExtTreeMap.mem_iff_isSome_getElem?]
    rw [linked, ← Construct.assigns_continueTarget, ← paired.keys]
    exact listed.trans (or_congr_right (and_iff_left kept))
  apart target header found := by
    rw [headerOf_apply applied] at found
    cases given : construct.edit.headerFor? target with
    | some opened =>
      simp only [given, Option.some_or, Option.some.injEq] at found
      exact found ▸ Construct.headerFor?_apart given
    | none =>
      simp only [given, Option.none_or] at found
      exact paired.apart target header found

theorem Paired.ofConstructs (constructs : List Construct) : (ofConstructs constructs).Paired := by
  induction constructs using List.reverseRecOn with
  | nil =>
    refine ⟨linked_empty, ?_, ?_⟩
    · intro target
      simp [ControlFlow.ofConstructs, run]
    · intro target header found
      simp [ControlFlow.ofConstructs, run] at found
  | append_singleton constructs construct ih =>
    obtain ⟨next, applied⟩ := construct.exists_apply (ControlFlow.ofConstructs constructs)
    rw [ofConstructs_concat, perform_of_ok applied]
    exact ih.apply applied

theorem mem_blocks_ofConstructs (role : Role) (kept : role ≠ .selectionMerge) (block : ResultId) :
    block ∈ (ofConstructs constructs).blocks role ↔
      ∃ construct ∈ constructs, construct.edit.Assigns role block := by
  refine (mem_blocks_run_of_kept _ role kept block).trans ?_
  simp only [List.mem_map, exists_exists_and_eq_and]

theorem mem_loopMerges_ofConstructs : block ∈ (ofConstructs constructs).loopMerges ↔
    ∃ header target, .loop header block target ∈ constructs := by
  refine (mem_blocks_ofConstructs .loopMerge nofun block).trans ?_
  constructor
  · rintro ⟨construct, announced, assigned⟩
    cases construct with
    | loop header merge target =>
      cases assigned
      exact ⟨header, target, announced⟩
    | selection merge | switch merge => cases assigned
  · rintro ⟨header, target, announced⟩
    exact ⟨_, announced, rfl⟩

theorem mem_switchMerges_ofConstructs : block ∈ (ofConstructs constructs).switchMerges ↔
    .switch block ∈ constructs := by
  refine (mem_blocks_ofConstructs .switchMerge nofun block).trans ?_
  constructor
  · rintro ⟨construct, announced, assigned⟩
    cases construct with
    | switch merge =>
      cases assigned
      exact announced
    | loop header merge target | selection merge => cases assigned
  · exact fun announced => ⟨_, announced, rfl⟩

/-- `first` is announced, and `second` no more after that. -/
def Construct.Outlasts (first second : Construct) (constructs : List Construct) : Prop :=
  ∃ before after, constructs = before ++ first :: after ∧ second ∉ after

private theorem Construct.outlasts_concat {first second last : Construct} :
    Outlasts first second (constructs ++ [last]) ↔
      last = first ∨ Outlasts first second constructs ∧ last ≠ second := by
  constructor
  · rintro ⟨before, after, split, spared⟩
    rcases List.eq_nil_or_concat after with rfl | ⟨others, final, rfl⟩
    · exact .inl (List.append_singleton_inj.mp split).2
    · rw [List.concat_eq_append, ← List.cons_append, ← List.append_assoc] at split
      obtain ⟨rfl, rfl⟩ := List.append_singleton_inj.mp split
      rw [List.concat_eq_append, List.mem_append, List.mem_singleton, not_or] at spared
      exact .inr ⟨⟨before, others, rfl, spared.1⟩, Ne.symm spared.2⟩
  · rintro (rfl | ⟨⟨before, after, rfl, spared⟩, other⟩)
    · exact ⟨constructs, [], rfl, List.not_mem_nil⟩
    · refine ⟨before, after ++ [last], by simp, ?_⟩
      simp [spared, Ne.symm other]

theorem mem_selectionMerges_ofConstructs : block ∈ (ofConstructs constructs).selectionMerges ↔
    Construct.Outlasts (.selection block) (.switch block) constructs := by
  induction constructs using List.reverseRecOn with
  | nil => simp [ofConstructs, run, Construct.Outlasts]
  | append_singleton constructs last ih =>
    rw [ofConstructs_concat, Construct.outlasts_concat, ← ih]
    refine (mem_blocks_perform .selectionMerge block).trans ?_
    rw [Edit.withdraws_iff]
    cases last <;> simp [Construct.edit, Edit.Assigns, blocks]

private theorem Construct.outlasts_self :
    Outlasts construct construct constructs ↔ construct ∈ constructs := by
  induction constructs using List.reverseRecOn with
  | nil => simp [Outlasts]
  | append_singleton constructs last ih =>
    rw [outlasts_concat, ih, List.mem_append, List.mem_singleton]
    by_cases same : last = construct
    · simp [same]
    · simp [same, Ne.symm same]

private theorem Construct.outlasts_of_not_mem {first second : Construct} (announced : first ∈ constructs)
    (absent : second ∉ constructs) : Outlasts first second constructs := by
  obtain ⟨before, after, rfl⟩ := List.append_of_mem announced
  exact ⟨before, after, rfl, fun later => absent (by simp [later])⟩

/-- The block gets a selection merge that the last switch announced for it comes
too early to take over. -/
def Reopens (constructs : List Construct) (block : ResultId) : Prop :=
  ∃ before after, constructs = before ++ .switch block :: after ∧ .switch block ∉ after ∧
    .selection block ∈ after

private theorem reopens_iff : Reopens constructs block ↔ .switch block ∈ constructs ∧
    Construct.Outlasts (.selection block) (.switch block) constructs := by
  constructor
  · rintro ⟨before, after, rfl, last, announced⟩
    obtain ⟨earlier, later, rfl⟩ := List.append_of_mem announced
    refine ⟨by simp, before ++ .switch block :: earlier, later, by simp, ?_⟩
    exact fun again => last (by simp [again])
  · rintro ⟨announced, before, after, rfl, spared⟩
    have early : .switch block ∈ before := by simpa [spared] using announced
    obtain ⟨earlier, later, rfl, last⟩ := Construct.outlasts_self.mpr early
    exact ⟨earlier, later ++ .selection block :: after, by simp, by simp [last, spared], by simp⟩

theorem overlaps_ofConstructs : (ofConstructs constructs).Overlaps block ↔
    (∃ header target, .loop header block target ∈ constructs) ∧
      (.selection block ∈ constructs ∨ .switch block ∈ constructs) ∨ Reopens constructs block := by
  have merged : (Construct.Outlasts (.selection block) (.switch block) constructs ∨
      .switch block ∈ constructs) ↔ .selection block ∈ constructs ∨ .switch block ∈ constructs := by
    constructor
    · rintro (⟨before, after, rfl, _⟩ | announced)
      · exact .inl (by simp)
      · exact .inr announced
    · intro announced
      by_cases switched : .switch block ∈ constructs
      · exact .inr switched
      · exact .inl (Construct.outlasts_of_not_mem (announced.resolve_right switched) switched)
  rw [Overlaps, mem_loopMerges_ofConstructs, mem_selectionMerges_ofConstructs,
    mem_switchMerges_ofConstructs, reopens_iff, ← merged, and_or_left, or_assoc]
  simp only [and_comm]

/-- Continue targets are the linked blocks, links lead from a block to the header of
another, and the control flow is sound unless some block is announced as the merge of
a loop and of something else, or as that of a selection after its last switch. -/
theorem ofConstructs_sound_iff (constructs : List Construct) :
    (∀ target, target ∈ (ofConstructs constructs).continueTargets ↔
      target ∈ (ofConstructs constructs).headerOf) ∧
    (∀ target header : ResultId, (ofConstructs constructs).headerOf[target]? = some header →
      target ≠ header ∧ header ∈ (ofConstructs constructs).loopHeaders) ∧
    ((ofConstructs constructs).fault? = none ↔
      (∀ block, ¬ ((∃ header target, .loop header block target ∈ constructs) ∧
        (.selection block ∈ constructs ∨ .switch block ∈ constructs))) ∧
      ∀ block before after, constructs = before ++ .switch block :: after →
        .switch block ∉ after → .selection block ∉ after) := by
  obtain ⟨linked, keys, apart⟩ := Paired.ofConstructs constructs
  refine ⟨keys, ?_, ?_⟩
  · exact fun target header found => ⟨apart target header found, (linked target header found).2⟩
  · rw [fault?, linkFault?_eq_none linked, Option.none_or, Option.map_eq_none_iff, overlap?_eq_none]
    simp only [overlaps_ofConstructs, not_or, forall_and, Reopens, not_exists, not_and]

example : (ofConstructs [.switch ⟨4⟩, .selection ⟨4⟩]).fault? = some (.mergeOverlap ⟨4⟩) := by decide

/-- Two loops with one continue target, a loop that continues itself, and a promoted switch. -/
def sharedTarget : List Construct :=
  [.loop ⟨1⟩ ⟨5⟩ ⟨2⟩, .selection ⟨4⟩, .loop ⟨3⟩ ⟨6⟩ ⟨2⟩, .loop ⟨7⟩ ⟨5⟩ ⟨7⟩, .switch ⟨4⟩]

theorem ofConstructs_sharedTarget :
    (ofConstructs sharedTarget).headerOf[(⟨2⟩ : ResultId)]? = some ⟨3⟩ ∧
    (⟨2⟩ : ResultId) ≠ ⟨3⟩ ∧ ⟨3⟩ ∈ (ofConstructs sharedTarget).loopHeaders ∧
    (ofConstructs sharedTarget).fault? = none ∧ ¬ Reopens sharedTarget ⟨4⟩ := by
  obtain ⟨_, links, sound⟩ := ofConstructs_sound_iff sharedTarget
  have linked : (ofConstructs sharedTarget).headerOf[(⟨2⟩ : ResultId)]? = some ⟨3⟩ := by decide
  have accepted : (ofConstructs sharedTarget).fault? = none := by decide
  refine ⟨linked, (links _ _ linked).1, (links _ _ linked).2, accepted, ?_⟩
  rintro ⟨before, after, split, last, again⟩
  exact (sound.mp accepted).2 ⟨4⟩ before after split last again

end Shader.ControlFlow

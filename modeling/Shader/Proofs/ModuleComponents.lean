import Shader.Proofs.ArrayLengthMarking
import Shader.Proofs.ModuleInvariant

/-! The components of a module, and how little the edits of different components have to
do with each other. An edit other than growth concerns one component. It leaves the others
and the bound as they are, and what it does to its own depends on nothing but that and the
bound. So edits of different components commute, whether or not they are refused. -/

namespace Shader

namespace Outcome

/-- The outcomes have the same fault, and the view cannot tell their states apart. -/
structure Alike {σ ρ : Type} (view : σ → ρ) (outcome other : Outcome σ) : Prop where
  fault : outcome.fault? = other.fault?
  view : view outcome.state = view other.state

private theorem Alike.ofExcept {σ τ ρ : Type} {view : σ → ρ} {before other : σ} {result : Except Fault τ}
    {record write : τ → σ} (unwritten : view before = view other)
    (written : ∀ value, view (record value) = view (write value)) :
    (ofExcept before (result.map record)).Alike view (ofExcept other (result.map write)) := by
  cases result with
  | ok value => exact ⟨rfl, written value⟩
  | error fault => exact ⟨rfl, unwritten⟩

end Outcome

namespace Module

inductive Component where
  | entities | annotations | controlFlow | entryPoints | source | declarations
  deriving DecidableEq, Repr

@[reducible] def Component.Content : Component → Type
  | .entities => EntityStore
  | .annotations => AnnotationStore
  | .controlFlow => ControlFlow
  | .entryPoints => EntryPointTable
  | .source => Source
  | .declarations => Declarations

def content (m : Module) : (component : Component) → component.Content
  | .entities => m.entities
  | .annotations => m.annotations
  | .controlFlow => m.controlFlow
  | .entryPoints => m.entryPoints
  | .source => m.source
  | .declarations => m.declarations

/-- The component an edit concerns. Growth concerns two, and is left out. -/
def Edit.component? : Edit → Option Component
  | .growTo _ | .mint _ => none
  | .entity _ => some .entities
  | .annotate _ _ _ => some .annotations
  | .controlFlow _ => some .controlFlow
  | .entryPoint _ => some .entryPoints
  | .setSource _ => some .source
  | .declare _ => some .declarations

variable {m other : Module} {edit : Edit} {component concerned : Component}

theorem ext_content (words : m.words = other.words)
    (same : ∀ component, m.content component = other.content component) : m = other := by
  cases m
  cases other
  cases words
  cases same .entities
  cases same .annotations
  cases same .controlFlow
  cases same .entryPoints
  cases same .source
  cases same .declarations
  rfl

/-! ### One edit -/

private theorem words_perform (concerns : edit.component? = some concerned) :
    (m.perform edit).state.words = m.words := by
  cases edit with
  | growTo | mint => cases concerns
  | annotate | controlFlow | entryPoint => exact Outcome.view_ofExcept Module.words fun _ => rfl
  | entity | setSource | declare => rfl

theorem bound_perform (concerns : edit.component? = some concerned) : (m.perform edit).state.bound = m.bound := by
  cases edit with
  | growTo | mint => cases concerns
  | entity edit => exact m.entities.size_perform edit
  | annotate | controlFlow | entryPoint => exact Outcome.view_ofExcept Module.bound fun _ => rfl
  | setSource | declare => rfl

theorem content_perform_of_ne (concerns : edit.component? = some concerned) (apart : component ≠ concerned) :
    (m.perform edit).state.content component = m.content component := by
  cases edit with
  | growTo | mint => cases concerns
  | annotate | controlFlow | entryPoint =>
    cases concerns
    refine Outcome.view_ofExcept (Module.content · component) fun _ => ?_
    cases component <;> first | rfl | exact absurd rfl apart
  | entity | setSource | declare =>
    cases concerns
    cases component <;> first | rfl | exact absurd rfl apart

/-- What an edit does to the component it concerns depends on that and the bound alone. -/
theorem perform_alike (concerns : edit.component? = some concerned) (bound : m.bound = other.bound)
    (same : m.content concerned = other.content concerned) :
    (m.perform edit).Alike (·.content concerned) (other.perform edit) := by
  cases edit with
  | growTo | mint => cases concerns
  | entity edit =>
    cases concerns
    have entities : m.entities = other.entities := same
    rw [perform, perform, entities]
    exact ⟨rfl, rfl⟩
  | annotate id part edit =>
    cases concerns
    have annotations : m.annotations = other.annotations := same
    rw [perform, perform, annotations, bound]
    exact .ofExcept same fun _ => rfl
  | controlFlow edit =>
    cases concerns
    have controlFlow : m.controlFlow = other.controlFlow := same
    rw [perform, perform, controlFlow]
    exact .ofExcept same fun _ => rfl
  | entryPoint edit =>
    cases concerns
    have entryPoints : m.entryPoints = other.entryPoints := same
    rw [perform, perform, entryPoints, bound]
    exact .ofExcept same fun _ => rfl
  | setSource source =>
    cases concerns
    exact ⟨rfl, rfl⟩
  | declare declaration =>
    cases concerns
    have declarations : m.declarations = other.declarations := same
    rw [perform, perform, declarations]
    exact ⟨rfl, rfl⟩

/-! ### Two edits -/

variable {first second : Edit} {a b : Component}

private theorem perform_after (m : Module) (concerns : first.component? = some a)
    (other : second.component? = some b)
    (apart : a ≠ b) : ((m.perform second).state.perform first).Alike (·.content a) (m.perform first) :=
  perform_alike concerns (bound_perform other) (content_perform_of_ne other apart)

private theorem words_comm (m : Module) (concerns : first.component? = some a)
    (other : second.component? = some b) :
    ((m.perform first).state.perform second).state.words = ((m.perform second).state.perform first).state.words := by
  rw [words_perform other, words_perform concerns, words_perform concerns, words_perform other]

/-- Edits of different components do not notice each other, refused or not, and the
module they lead to does not depend on their order. -/
theorem edits_commute (m : Module) (first second : Edit) (a b : Component) (concerns : first.component? = some a)
    (other : second.component? = some b) (apart : a ≠ b) :
    ((m.perform second).state.perform first).Alike (·.content a) (m.perform first) ∧
    ((m.perform first).state.perform second).Alike (·.content b) (m.perform second) ∧
    ((m.perform first).state.perform second).state = ((m.perform second).state.perform first).state := by
  have firstAlike := perform_after m concerns other apart
  have secondAlike := perform_after m other concerns (Ne.symm apart)
  refine ⟨firstAlike, secondAlike, ext_content (words_comm m concerns other) fun component => ?_⟩
  -- a component is as the one edit that concerns it has left it, or as it was
  by_cases isFirst : component = a
  · subst isFirst
    rw [content_perform_of_ne other apart, firstAlike.view]
  · by_cases isSecond : component = b
    · subst isSecond
      rw [content_perform_of_ne concerns isFirst, secondAlike.view]
    · rw [content_perform_of_ne other isSecond, content_perform_of_ne concerns isFirst,
        content_perform_of_ne concerns isFirst, content_perform_of_ne other isSecond]

/-- A walk that meets the gap after it has marked a constant. -/
def gapWalk : Edit := .entity (.markArrayLength ⟨4⟩)

def gapEntry : Edit := .entryPoint (.add (.declare ⟨4⟩ "main" ⟨5⟩))

theorem edits_commute_gapLength :
    gapWalk.component? = some .entities ∧ gapEntry.component? = some .entryPoints ∧
    ((gapLength.perform gapEntry).state.perform gapWalk).fault? = some (.wrongKind ⟨3⟩ (some .constant) none) ∧
    ((gapLength.perform gapWalk).state.perform gapEntry).fault? = none ∧
    ((gapLength.perform gapWalk).state.perform gapEntry).state =
      ((gapLength.perform gapEntry).state.perform gapWalk).state := by
  obtain ⟨walk, entry, same⟩ := edits_commute gapLength gapWalk gapEntry _ _ rfl rfl (by decide)
  exact ⟨rfl, rfl, walk.fault.trans (by decide), entry.fault.trans (by decide), same⟩

end Module

end Shader

import Mathlib.Logic.Relation
import Shader.Proofs.ArrayLengthMarks

/-! The graph of arguments an array length is computed from. Where it has no
cycle, going through it depth first comes to an end, however often arguments are
shared or repeated, and the number of visits stays below the limit of the walk. -/

namespace Shader.EntityStore

variable {store : EntityStore} {id : ResultId}

/-- The operation at the first id has the second among its arguments. -/
def Uses (store : EntityStore) (id argument : ResultId) : Prop := argument ∈ store.arguments id

/-- The ids an array length at `id` is computed from, itself included. -/
def Reaches (store : EntityStore) : ResultId → ResultId → Prop := Relation.ReflTransGen store.Uses

theorem mem_of_reaches {ids : List ResultId} {other : ResultId}
    (closed : ∀ id ∈ ids, ∀ argument ∈ store.arguments id, argument ∈ ids) (member : id ∈ ids)
    (reached : store.Reaches id other) : other ∈ ids := by
  induction reached with
  | refl => exact member
  | tail _ used known => exact closed _ known _ used

theorem reaches_congr {first second : EntityStore}
    (same : ∀ id argument, first.Uses id argument ↔ second.Uses id argument) {id other : ResultId} :
    first.Reaches id other ↔ second.Reaches id other := by
  have uses : first.Uses = second.Uses := funext fun id => funext fun argument => propext (same id argument)
  rw [Reaches, Reaches, uses]

/-- Nothing that `id` is computed from is computed from itself. -/
def Acyclic (store : EntityStore) (id : ResultId) : Prop :=
  ∀ other, store.Reaches id other → ¬ Relation.TransGen store.Uses other other

/-- The order of a depth-first visit that meets an id before its arguments and
the last argument first. An id met twice is gone through twice. -/
inductive Preorder (store : EntityStore) : List ResultId → List ResultId → Prop where
  | done : Preorder store [] []
  | visit {id : ResultId} {rest below after : List ResultId}
      (arguments : Preorder store (store.arguments id).reverse below)
      (others : Preorder store rest after) : Preorder store (id :: rest) (id :: below ++ after)

theorem mem_ofKind {kind : Kind} {payload : kind.Payload} (found : store.find? id kind = some payload) :
    (id, payload) ∈ store.ofKind kind := by
  obtain ⟨slot, held, read⟩ := Option.bind_eq_some_iff.mp found
  refine List.mem_filterMap.mpr ⟨(slot, id.index), ?_, ?_⟩
  · exact List.mk_mem_zipIdx_iff_getElem?.mpr (by rw [Array.getElem?_toList, held])
  · simp only [read, Option.map_some, ResultId.ofIndex_index]

private theorem mem_operations (busy : store.arguments id ≠ []) :
    ∃ op, (id, op) ∈ store.ofKind .constantOp ∧ store.arguments id = op.arguments := by
  cases found : store.find? id .constantOp with
  | none => simp [arguments, found] at busy
  | some op => exact ⟨op, mem_ofKind found, by simp [arguments, found]⟩

namespace Acyclic

theorem uses (acyclic : store.Acyclic id) {argument : ResultId} (used : store.Uses id argument) :
    store.Acyclic argument :=
  fun other reached => acyclic other (.head used reached)

private theorem apart (acyclic : store.Acyclic id) {argument other : ResultId}
    (used : store.Uses id argument) (reached : store.Reaches argument other) : other ≠ id := by
  intro same
  subst same
  exact acyclic other .refl (.head' used reached)

theorem congr {first second : EntityStore}
    (same : ∀ id argument, first.Uses id argument ↔ second.Uses id argument) (acyclic : first.Acyclic id) :
    second.Acyclic id := by
  have uses : first.Uses = second.Uses := funext fun id => funext fun argument => propext (same id argument)
  intro other reached
  rw [← uses]
  exact acyclic other ((reaches_congr same).mpr reached)

theorem of_decreasing (smaller : ∀ entry ∈ store.ofKind .constantOp, ∀ argument ∈ entry.2.arguments,
    argument.index < entry.1.index) (id : ResultId) : store.Acyclic id := by
  have step : ∀ {first last}, store.Uses first last → last.index < first.index := by
    intro first last used
    obtain ⟨op, member, same⟩ := mem_operations (List.ne_nil_of_mem used)
    exact smaller _ member _ (same ▸ used)
  have descends : ∀ {first last}, Relation.TransGen store.Uses first last → last.index < first.index := by
    intro first last path
    induction path with
    | single used => exact step used
    | tail _ used ih => exact Nat.lt_trans (step used) ih
  exact fun other _ cycle => Nat.lt_irrefl _ (descends cycle)

end Acyclic

namespace Preorder

variable {pending visits : List ResultId}

theorem append {first second order rest : List ResultId} (a : store.Preorder first order)
    (b : store.Preorder second rest) : store.Preorder (first ++ second) (order ++ rest) := by
  induction a with
  | done => exact b
  | visit arguments _ _ ih =>
    rw [List.append_assoc]
    exact .visit arguments ih

theorem cons_inv {rest : List ResultId} (order : store.Preorder (id :: rest) visits) :
    ∃ later, visits = id :: later ∧ store.Preorder ((store.arguments id).reverse ++ rest) later := by
  cases order with
  | visit arguments others => exact ⟨_, rfl, arguments.append others⟩

theorem unique (a : store.Preorder pending visits) {other : List ResultId}
    (b : store.Preorder pending other) : visits = other := by
  induction a generalizing other with
  | done => cases b; rfl
  | visit _ _ first second =>
    cases b with
    | visit arguments others => rw [first arguments, second others]

theorem congr {other : EntityStore} (same : ∀ id, store.arguments id = other.arguments id)
    (order : store.Preorder pending visits) : other.Preorder pending visits := by
  induction order with
  | done => exact .done
  | @visit id _ _ _ _ _ deeper later =>
    rw [same id] at deeper
    exact .visit deeper later

theorem mem_iff (order : store.Preorder pending visits) {other : ResultId} :
    other ∈ visits ↔ ∃ start ∈ pending, store.Reaches start other := by
  induction order with
  | done => simp
  | @visit id rest below after _ _ deeper later =>
    simp only [List.cons_append, List.mem_cons, List.mem_append, deeper, later, exists_eq_or_imp]
    constructor
    · intro visited
      rcases visited with rfl | ⟨argument, used, reached⟩ | found
      · exact .inl .refl
      · exact .inl (.head (List.mem_reverse.mp used) reached)
      · exact .inr found
    · intro reachable
      rcases reachable with reached | found
      · rcases Relation.ReflTransGen.cases_head reached with rfl | ⟨argument, used, reached⟩
        · exact .inl rfl
        · exact .inr (.inl ⟨argument, List.mem_reverse.mpr used, reached⟩)
      · exact .inr (.inr found)

private theorem of_each {cost : Nat} (each : ∀ id ∈ pending, ∃ visits,
    store.Preorder [id] visits ∧ visits.length ≤ cost) :
    ∃ visits, store.Preorder pending visits ∧ visits.length ≤ pending.length * cost := by
  induction pending with
  | nil => exact ⟨[], .done, Nat.zero_le _⟩
  | cons id rest ih =>
    obtain ⟨first, order, short⟩ := each id List.mem_cons_self
    obtain ⟨others, orders, shorts⟩ := ih fun other member => each other (List.mem_cons_of_mem _ member)
    refine ⟨first ++ others, order.append orders, ?_⟩
    rw [List.length_append, List.length_cons, Nat.succ_mul]
    omega

private theorem leaf (final : store.arguments id = []) : store.Preorder [id] [id] := by
  have arguments : store.Preorder (store.arguments id).reverse [] := by
    rw [final]
    exact .done
  exact .visit arguments .done

/-- A path meets each operation at most once, so below an operation there is one
less of them to meet. -/
private theorem exists_short {width : Nat} (narrow : ∀ id, (store.arguments id).length ≤ width)
    (operations : List ResultId) (id : ResultId) (acyclic : store.Acyclic id)
    (listed : ∀ other, store.Reaches id other → store.arguments other ≠ [] → other ∈ operations) :
    ∃ visits, store.Preorder [id] visits ∧ visits.length ≤ (width + 1).pow operations.length := by
  by_cases final : store.arguments id = []
  · exact ⟨[id], leaf final, Nat.one_le_pow _ _ (Nat.succ_pos _)⟩
  · have member := listed id .refl final
    have fewer : operations.length = (operations.erase id).length + 1 := by
      have shorter := List.length_erase_of_mem member
      have positive := List.length_pos_of_mem member
      omega
    let cost := (width + 1).pow (operations.erase id).length
    have positive : 1 ≤ cost := Nat.one_le_pow _ _ (Nat.succ_pos _)
    have each : ∀ argument ∈ (store.arguments id).reverse, ∃ visits, store.Preorder [argument] visits ∧
        visits.length ≤ cost := by
      intro argument used
      have used : store.Uses id argument := List.mem_reverse.mp used
      apply exists_short narrow (operations.erase id) argument (acyclic.uses used)
      intro other reached busy
      exact (List.mem_erase_of_ne (acyclic.apart used reached)).mpr
        (listed other (.head used reached) busy)
    obtain ⟨visits, order, short⟩ := of_each each
    rw [List.length_reverse] at short
    refine ⟨id :: visits ++ [], .visit order .done, ?_⟩
    calc (id :: visits ++ []).length = visits.length + 1 := by simp
      _ ≤ (store.arguments id).length * cost + cost := Nat.add_le_add short positive
      _ ≤ width * cost + cost := Nat.add_le_add_right (Nat.mul_le_mul_right cost (narrow id)) cost
      _ = cost * (width + 1) := by rw [← Nat.succ_mul, Nat.mul_comm]
      _ = (width + 1).pow operations.length := by rw [fewer]; rfl
termination_by operations.length

end Preorder

/-- The walk's limit is enough for every visit of a graph without cycles. -/
theorem Acyclic.exists_preorder (acyclic : store.Acyclic id) :
    ∃ visits, store.Preorder [id] visits ∧ visits.length ≤ store.visitLimit := by
  let widths := (store.ofKind .constantOp).map fun entry => entry.2.arguments.length
  have narrow : ∀ other, (store.arguments other).length ≤ widths.foldl max 0 := by
    intro other
    by_cases final : store.arguments other = []
    · rw [final]
      exact Nat.zero_le _
    · obtain ⟨op, member, same⟩ := mem_operations final
      have width : op.arguments.length ∈ widths := List.mem_map.mpr ⟨_, member, rfl⟩
      rw [same, List.foldl_max]
      exact Nat.le_trans (List.le_max?_getD_of_mem width) (Nat.le_max_right _ _)
  have listed : ∀ other, store.Reaches id other → store.arguments other ≠ [] →
      other ∈ (store.ofKind .constantOp).map (·.1) := by
    intro other _ busy
    obtain ⟨op, member, _⟩ := mem_operations busy
    exact List.mem_map.mpr ⟨_, member, rfl⟩
  simpa only [List.length_map, visitLimit] using Preorder.exists_short narrow _ id acyclic listed

end Shader.EntityStore

import Mathlib.Data.List.Forall2
import Mathlib.Tactic.ByContra
import QueryDomain.Arity

/-! Everything that a value or a domain contains at any depth, and induction over it. -/
namespace QueryDomain
namespace Value

/-- Induction over values, with the hypothesis for every item of a list. -/
@[elab_as_elim, induction_eliminator]
theorem induct {motive : Value → Prop} (text : ∀ content, motive (.text content))
    (integer : ∀ number, motive (.integer number)) (float : ∀ number, motive (.float number))
    (boolean : ∀ truth, motive (.boolean truth)) (null : motive .null)
    (list : ∀ items, (∀ item ∈ items, motive item) → motive (.list items))
    (condition : ∀ field comparator value, motive value →
      motive (.condition field comparator value))
    (operator : ∀ op, motive (.operator op)) (value : Value) : motive value :=
  match value with
  | .text content => text content
  | .integer number => integer number
  | .float number => float number
  | .boolean truth => boolean truth
  | .null => null
  | .list items =>
    list items fun item _ =>
      induct text integer float boolean null list condition operator item
  | .condition field comparator value =>
    condition field comparator value
      (induct text integer float boolean null list condition operator value)
  | .operator op => operator op

mutual
/-- The value itself, then everything in the items of a list and in the value of a condition. -/
def subvalues : Value → List Value
  | list items => list items :: subvaluesAll items
  | condition field comparator value => condition field comparator value :: subvalues value
  | value => [value]

def subvaluesAll : List Value → List Value
  | [] => []
  | item :: items => subvalues item ++ subvaluesAll items
end

theorem subvaluesAll_eq_flatMap (items : List Value) :
    subvaluesAll items = items.flatMap subvalues := by
  induction items with
  | nil => rfl
  | cons item items ih => rw [subvaluesAll, ih, List.flatMap_cons]

theorem mem_subvalues_self (value : Value) : value ∈ value.subvalues := by
  cases value <;> simp [subvalues]

theorem forall_subvalues_list {p : Value → Prop} {items : List Value} :
    (∀ v ∈ (list items).subvalues, p v) ↔
      p (list items) ∧ ∀ item ∈ items, ∀ v ∈ item.subvalues, p v := by
  simp only [subvalues, subvaluesAll_eq_flatMap, List.forall_mem_cons, List.forall_mem_flatMap]

theorem forall_subvalues_condition {p : Value → Prop} {field : String} {comparator : Comparator}
    {value : Value} :
    (∀ v ∈ (condition field comparator value).subvalues, p v) ↔
      p (condition field comparator value) ∧ ∀ v ∈ value.subvalues, p v := by
  simp only [subvalues, List.forall_mem_cons]

def isCondition : Value → Bool
  | condition .. => true
  | _ => false

def isOperator : Value → Bool
  | operator _ => true
  | _ => false

def isNode (v : Value) : Bool := v.isCondition || v.isOperator

theorem isNode_eq_false_iff {v : Value} :
    v.isNode = false ↔ v.isCondition = false ∧ v.isOperator = false := by
  rw [isNode, Bool.or_eq_false_iff]

@[simp] theorem isNode_toValue (n : Node) : n.toValue.isNode := by cases n <;> rfl

theorem isNode_iff {v : Value} : v.isNode ↔ ∃ n, v.toNode? = some n := by
  cases v <;> simp [isNode, isCondition, isOperator, toNode?]

theorem mapM_toNode?_eq_some_iff {items : List Value} {domain : Domain} :
    items.mapM toNode? = some domain ↔ items = domain.map Node.toValue := by
  constructor
  · intro h
    induction items generalizing domain with
    | nil =>
      cases h
      rfl
    | cons item items ih =>
      simp only [List.mapM_cons, Option.pure_def, Option.bind_eq_bind, Option.bind_eq_some_iff,
        Option.some.injEq] at h
      obtain ⟨n, hn, rest, hrest, rfl⟩ := h
      rw [List.map_cons, toValue_of_toNode? hn, ih hrest]
  · rintro rfl
    exact Domain.mapM_toNode?_toValue domain

theorem exists_domain_of_isNode {items : List Value} (h : ∀ item ∈ items, item.isNode) :
    ∃ domain : Domain, items = domain.map Node.toValue := by
  induction items with
  | nil => exact ⟨[], rfl⟩
  | cons item items ih =>
    obtain ⟨n, hn⟩ := isNode_iff.mp (h item (by simp))
    obtain ⟨domain, rfl⟩ := ih fun item hi => h item (by simp [hi])
    exact ⟨n :: domain, by rw [List.map_cons, toValue_of_toNode? hn]⟩

theorem subDomain?_eq_some_iff {items : List Value} {domain : Domain} :
    (list items).subDomain? = some domain ↔ items ≠ [] ∧ items = domain.map Node.toValue := by
  cases items with
  | nil => simp [subDomain?]
  | cons item items =>
    have hs : (list (item :: items)).subDomain? = (item :: items).mapM toNode? := rfl
    rw [hs, mapM_toNode?_eq_some_iff]
    simp

end Value

namespace Domain

open Value

/-- Every value and every member of a domain, at any depth. -/
def subvalues (domain : Domain) : List Value := subvaluesAll (domain.map Node.toValue)

theorem pendingFrom_congr {domain other : Domain}
    (h : List.Forall₂ (fun m n : Node => ∀ op, m = .operator op ↔ n = .operator op) domain other)
    (pending : List Demand) (position : Nat) :
    pendingFrom pending position domain = pendingFrom pending position other := by
  induction h generalizing pending position with
  | nil => rfl
  | @cons m n domain other hmn _ ih =>
    have hadvance : Demand.advance pending position m = Demand.advance pending position n := by
      cases m with
      | operator op => rw [(hmn op).mp rfl]
      | condition c =>
        cases n with
        | operator op => cases (hmn op).mpr rfl
        | condition d => rfl
    rw [pendingFrom, pendingFrom, hadvance]
    exact ih _ _

theorem pendingFrom_operators_ne_nil {domain : Domain} (h : ∀ n ∈ domain, n.toValue.isOperator)
    {pending : List Demand} (hne : pending ≠ [] ∨ domain ≠ []) (position : Nat) :
    pendingFrom pending position domain ≠ [] := by
  induction domain generalizing pending position with
  | nil =>
    rw [pendingFrom]
    simpa using hne
  | cons n domain ih =>
    cases n with
    | operator op =>
      exact ih (fun n hn => h n (by simp [hn])) (.inl (by simp [Demand.advance])) _
    | condition c =>
      exact absurd (h (.condition c) (by simp)) (by simp [Node.toValue, isOperator])

theorem check_eq_ok_iff {domain : Domain} :
    domain.check = .ok () ↔ pendingFrom [] 0 domain = [] := by
  rw [check]
  split
  · rename_i h
    simp [h]
  · rename_i h
    simp [h]

theorem validate_eq_ok_iff {domain result : Domain} :
    domain.validate = .ok result ↔ domain.check = .ok () ∧ domain = result := by
  rw [validate]
  cases domain.check <;> simp [Except.map]

theorem exists_condition_of_check {domain : Domain} (h : domain.check = .ok ())
    (hne : domain ≠ []) : ∃ n ∈ domain, n.toValue.isCondition := by
  by_contra hc
  have hall : ∀ n ∈ domain, n.toValue.isOperator := by
    intro n hn
    cases n with
    | operator op => rfl
    | condition c => exact absurd ⟨_, hn, rfl⟩ hc
  exact pendingFrom_operators_ne_nil hall (.inr hne) 0 (check_eq_ok_iff.mp h)

end Domain
end QueryDomain

import QueryDomain.Proofs.WellFormed

/-! What a value must be like for its literal form to be read as the value again. A condition has
to be in order by itself; only for a list do its items matter too, which decide together whether
it is read as a domain.

Values that are the same are built in the same way and differ in the signs of zeros at most. So they
are of the same kind and nested to the same depth. -/
namespace QueryDomain

open Text

/-- A text that can be put between quotes, since one of the two does not occur in it. -/
def Quotable (content : String) : Prop := '\x27' ∉ content.toList ∨ '\x22' ∉ content.toList

namespace Value

/-- Whether a value is a text that a reader may take for an operator. -/
def isSymbol : Value → Bool
  | text content => (Operator.ofSymbol? (trim content.toList)).isSome
  | _ => false

/-- Whether the literal form of a list is that of a domain. -/
def looksLikeDomain (items : List Value) : Bool :=
  items.any isCondition && items.all fun item => item.isNode || item.isSymbol

def Legible : Value → Prop
  | text content => Quotable content
  | integer number => 0 ≤ number.toInt
  | float number => ∃ x, number = .finite false x
  | list items =>
    if looksLikeDomain items then
      ∃ domain, (list items).subDomain? = some domain ∧ domain.check = .ok ()
    else ∀ item ∈ items, item.isOperator = false
  | condition field _ value => field ≠ "" ∧ trim field.toList = field.toList ∧ Quotable field ∧
    value.isBlank = false ∧ value.isNode = false
  | _ => True

theorem looksLikeDomain_iff {items : List Value} :
    looksLikeDomain items ↔
      (∃ item ∈ items, item.isCondition) ∧ ∀ item ∈ items, item.isNode ∨ item.isSymbol := by
  simp only [looksLikeDomain, Bool.and_eq_true, List.any_eq_true, List.all_eq_true,
    Bool.or_eq_true]

/-- A list is legible if it is a domain as far as it looks like one. -/
theorem legible_list_iff {items : List Value} :
    (list items).Legible ↔
      (looksLikeDomain items ∧ ∃ domain : Domain, items = domain.map Node.toValue ∧
        domain.check = .ok ()) ∨
      (looksLikeDomain items = false ∧ ∀ item ∈ items, item.isOperator = false) := by
  rw [Legible]
  by_cases h : looksLikeDomain items
  · have hne : items ≠ [] := by
      obtain ⟨⟨item, hi, -⟩, -⟩ := looksLikeDomain_iff.mp h
      exact List.ne_nil_of_mem hi
    simp [h, hne, subDomain?_eq_some_iff]
  · simp [h]

theorem legible_list_of_check {domain : Domain} (hc : domain.check = .ok ()) :
    (list (domain.map Node.toValue)).Legible := by
  rw [legible_list_iff]
  by_cases hlooks : looksLikeDomain (domain.map Node.toValue)
  · exact .inl ⟨hlooks, domain, rfl, hc⟩
  · right
    refine ⟨by simpa using hlooks, ?_⟩
    by_cases hne : domain = []
    · simp [hne]
    · exfalso
      obtain ⟨n, hn, hcondition⟩ := Domain.exists_condition_of_check hc hne
      apply hlooks
      rw [looksLikeDomain_iff]
      refine ⟨⟨n.toValue, List.mem_map_of_mem hn, hcondition⟩, ?_⟩
      intro item hi
      obtain ⟨n, -, rfl⟩ := List.mem_map.mp hi
      exact .inl (isNode_toValue n)

theorem sameAll_iff {items others : List Value} :
    sameAll items others ↔ List.Forall₂ (fun v w => v.same w) items others := by
  induction items generalizing others with
  | nil => cases others <;> simp [sameAll]
  | cons v items ih =>
    cases others with
    | nil => simp [sameAll]
    | cons w others => simp [sameAll, ih]

inductive Alike : Value → Value → Prop
  | text (content : String) : Alike (text content) (text content)
  | integer (number : Int64) : Alike (integer number) (integer number)
  | float {a b : Binary64} : a.same b → Alike (float a) (float b)
  | boolean (truth : Bool) : Alike (boolean truth) (boolean truth)
  | null : Alike null null
  | list {items others : List Value} : List.Forall₂ (fun v w => v.same w) items others →
    Alike (list items) (list others)
  | condition (field : String) (comparator : Comparator) {v w : Value} : v.same w →
    Alike (condition field comparator v) (condition field comparator w)
  | operator (op : Operator) : Alike (operator op) (operator op)

section Inversion

variable {v w : Value}

theorem alike_of_same (h : v.same w) : Alike v w := by
  unfold same at h
  split at h
  · rw [of_decide_eq_true h]
    exact .text _
  · rw [of_decide_eq_true h]
    exact .integer _
  · exact .float h
  · rw [of_decide_eq_true h]
    exact .boolean _
  · exact .null
  · exact .list (sameAll_iff.mp h)
  · simp only [Bool.and_eq_true, decide_eq_true_eq] at h
    obtain ⟨⟨rfl, rfl⟩, hs⟩ := h
    exact .condition _ _ hs
  · rw [of_decide_eq_true h]
    exact .operator _
  · cases h

theorem eq_text_of_same {content : String} (h : v.same (text content)) : v = text content := by
  cases alike_of_same h
  rfl

theorem eq_integer_of_same {number : Int64} (h : v.same (integer number)) :
    v = integer number := by
  cases alike_of_same h
  rfl

theorem exists_float_of_same {number : Binary64} (h : v.same (float number)) :
    ∃ other, v = float other ∧ other.same number := by
  cases alike_of_same h with
  | float hs => exact ⟨_, rfl, hs⟩

theorem exists_list_of_same {items : List Value} (h : v.same (list items)) :
    ∃ others, v = list others ∧ List.Forall₂ (fun v w => v.same w) others items := by
  cases alike_of_same h with
  | list hs => exact ⟨_, rfl, hs⟩

theorem exists_condition_of_same {field : String} {comparator : Comparator} {value : Value}
    (h : v.same (condition field comparator value)) :
    ∃ other, v = condition field comparator other ∧ other.same value := by
  cases alike_of_same h with
  | condition _ _ hs => exact ⟨_, rfl, hs⟩

theorem isCondition_eq_of_same (h : v.same w) : v.isCondition = w.isCondition := by
  cases alike_of_same h <;> rfl

theorem isOperator_eq_of_same (h : v.same w) : v.isOperator = w.isOperator := by
  cases alike_of_same h <;> rfl

theorem isNode_eq_of_same (h : v.same w) : v.isNode = w.isNode := by
  rw [isNode, isNode, isCondition_eq_of_same h, isOperator_eq_of_same h]

theorem isBlank_eq_of_same (h : v.same w) : v.isBlank = w.isBlank := by
  cases alike_of_same h <;> rfl

end Inversion

theorem depth_eq_of_same {v w : Value} (h : v.same w) : v.depth = w.depth := by
  induction w generalizing v with
  | list items ih =>
    obtain ⟨others, rfl, hf⟩ := exists_list_of_same h
    have hd : depths others = depths items := by
      clear h
      induction hf with
      | nil => rfl
      | @cons v w others items hvw _ ihf =>
        rw [depths, depths, ih w (by simp) hvw, ihf fun w hw v => ih w (by simp [hw])]
    rw [depth, depth, hd]
  | condition field comparator value ih =>
    obtain ⟨other, rfl, ho⟩ := exists_condition_of_same h
    rw [depth, depth, ih ho]
  | _ =>
    cases alike_of_same h
    rfl

theorem same_self {v : Value} (hl : ∀ w ∈ v.subvalues, w.Legible) : v.same v := by
  induction v with
  | list items ih =>
    obtain ⟨-, hl⟩ := forall_subvalues_list.mp hl
    rw [same, sameAll_iff, List.forall₂_same]
    intro item hi
    exact ih item hi (hl item hi)
  | condition field comparator value ih =>
    obtain ⟨-, hl⟩ := forall_subvalues_condition.mp hl
    simp [same, ih hl]
  | float number =>
    obtain ⟨x, rfl⟩ := hl _ (mem_subvalues_self _)
    simp [same, Binary64.same]
  | _ => simp [same]

end Value

namespace Domain

open Value

theorem forall₂_same {domain other : Domain} (h : domain.same other) :
    List.Forall₂ (fun m n : Node => m.toValue.same n.toValue) domain other := by
  rw [Domain.same, toValue, toValue, Value.same, sameAll_iff, List.forall₂_map_left_iff,
    List.forall₂_map_right_iff] at h
  exact h

theorem check_eq_of_same {domain other : Domain} (h : domain.same other) :
    domain.check = other.check := by
  have hk : List.Forall₂ (fun m n : Node => ∀ op, m = .operator op ↔ n = .operator op)
      domain other := by
    refine (forall₂_same h).imp fun m n hmn op => ?_
    cases m with
    | operator o =>
      cases n with
      | operator o' =>
        cases alike_of_same hmn
        rfl
      | condition c => cases alike_of_same hmn
    | condition c =>
      cases n with
      | operator o => cases alike_of_same hmn
      | condition d => simp
  rw [check, check, pendingFrom_congr hk]

theorem depth_eq_of_same {domain other : Domain} (h : domain.same other) :
    domain.depth = other.depth := Value.depth_eq_of_same h

theorem same_self {domain : Domain} (hl : ∀ v ∈ domain.subvalues, v.Legible) :
    domain.same domain := by
  rw [Domain.same, toValue, Value.same, sameAll_iff, List.forall₂_same]
  intro item hi
  obtain ⟨n, hn, rfl⟩ := List.mem_map.mp hi
  exact Value.same_self (forall_subvalues.mp hl n hn)

end Domain
end QueryDomain

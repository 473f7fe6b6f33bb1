import QueryDomain.Proofs.Reading

/-! Every domain that is read is well formed at every depth: no operand is missing in it or in the
domains inside of values, no field is blank, and no list is nested beyond the limit. -/
namespace QueryDomain

open Text

namespace Value

/-- A list with an operator, or of nothing but conditions, is to be a domain of its own. -/
def claimsDomain (items : List Value) : Prop :=
  (∃ item ∈ items, item.isOperator) ∨ (items ≠ [] ∧ ∀ item ∈ items, item.isCondition)

/-- What holds of a value by itself, whatever else it contains. No number has a sign. -/
def WellFormed : Value → Prop
  | integer number => 0 ≤ number.toInt
  | float number => number = .infinite false ∨ ∃ x, number = .finite false x
  | list items => claimsDomain items →
    ∃ domain, (list items).subDomain? = some domain ∧ domain.check = .ok ()
  | condition field _ value => field ≠ "" ∧ trim field.toList = field.toList ∧
    value.isBlank = false ∧ value.isNode = false
  | _ => True

/-- A value that is found inside `depth` brackets. -/
structure Sound (limit depth : Nat) (value : Value) : Prop where
  wellFormed : ∀ v ∈ value.subvalues, v.WellFormed
  depth_le : depth + value.depth ≤ limit

end Value

open Value

theorem trim_unquote (cs : Text) : trim (unquote cs) = unquote cs := by
  rw [unquote]
  split <;> exact trim_trim _

theorem wellFormed_of_readCondition {limit depth : Nat} {inner : Text} {c : Condition}
    (h : readCondition limit depth inner = .ok c) :
    (condition c.field c.comparator c.value).WellFormed := by
  obtain ⟨field, comparator, value, -, hf, -, -, hv, hb, hfield⟩ := readCondition_eq_ok_iff.mp h
  rw [WellFormed, hfield, String.toList_ofList]
  refine ⟨?_, trim_unquote field, hb, isNode_of_readValue hv⟩
  intro he
  apply hf
  rw [← String.toList_ofList (l := unquote field), he]
  rfl

theorem wellFormed_of_readsList {limit depth : Nat} {parts : List Text} {items : List Value}
    (h : ReadsList limit depth parts items) : (list items).WellFormed := by
  intro hclaims
  rcases h with ⟨-, domain, -, hcheck, rfl⟩ | ⟨hf, hitems⟩
  · refine ⟨domain, subDomain?_eq_some_iff.mpr ⟨?_, rfl⟩, hcheck⟩
    rcases hclaims with ⟨item, hi, -⟩ | ⟨hne, -⟩
    · exact List.ne_nil_of_mem hi
    · exact hne
  · exfalso
    rcases hclaims with ⟨item, hi, ho⟩ | ⟨hne, hc⟩
    · simp [hitems.isOperator_eq_false item hi] at ho
    · exact hf (hitems.formsDomain hne hc)

theorem depths_le {items : List Value} {bound : Nat} (h : ∀ item ∈ items, item.depth ≤ bound) :
    depths items ≤ bound := by
  induction items with
  | nil => exact Nat.zero_le _
  | cons item items ih =>
    rw [depths]
    exact Nat.max_le.mpr ⟨h item (by simp), ih fun item hi => h item (by simp [hi])⟩

theorem Value.Sound.list {limit depth : Nat} {items : List Value}
    (hw : (Value.list items).WellFormed) (hd : depth < limit)
    (h : ∀ item ∈ items, item.Sound limit (depth + 1)) : (Value.list items).Sound limit depth := by
  constructor
  · exact forall_subvalues_list.mpr ⟨hw, fun item hi => (h item hi).wellFormed⟩
  · have hb : depths items ≤ limit - (depth + 1) := by
      apply depths_le
      intro item hi
      have := (h item hi).depth_le
      omega
    rw [Value.depth]
    omega

theorem Value.Sound.leaf {limit depth : Nat} {v : Value} (hs : v.subvalues = [v])
    (hw : v.WellFormed) (hv : v.depth = 0) (hd : depth ≤ limit) : v.Sound limit depth := by
  constructor
  · rw [hs]
    simpa using hw
  · omega

theorem ReadsAs.toInt_nonneg {limit depth : Nat} {part : Text} {number : Int64}
    (h : ReadsAs limit depth part (.integer number)) : 0 ≤ number.toInt := by
  obtain ⟨n, -, hlt, rfl⟩ := h.scalar (by simp) (by simp) rfl
  rw [Int64.toInt_ofNat_of_lt hlt]
  omega

theorem ReadsAs.sound {limit depth : Nat} {part : Text} {v : Value}
    (h : ReadsAs limit depth part v) (hd : depth ≤ limit) : v.Sound limit depth := by
  -- every text that is read for a part of the value has been read inside the brackets counted so far
  induction v generalizing depth part with
  | text content => exact .leaf rfl trivial rfl hd
  | integer number => exact .leaf rfl h.toInt_nonneg rfl hd
  | float number =>
    obtain ⟨d, -, rfl⟩ := h.scalar (by simp) (by simp) rfl
    exact .leaf rfl (Binary64.ofDecimal_cases d) rfl hd
  | boolean truth => exact .leaf rfl trivial rfl hd
  | null => exact .leaf rfl trivial rfl hd
  | list items ih =>
    obtain ⟨inner, parts, -, -, hlt, hl⟩ := h.list
    refine .list (wellFormed_of_readsList hl) hlt ?_
    intro item hi
    obtain ⟨cores, -, hf⟩ := hl.readsAs
    obtain ⟨core, -, hr⟩ := exists_of_mem_right hf hi
    exact ih item hi hr hlt
  | condition field comparator value ih =>
    obtain ⟨inner, -, hc⟩ := h.condition_inv
    obtain ⟨_, _, part, -, -, -, -, hv, -, -⟩ := readCondition_eq_ok_iff.mp hc
    have hs := ih (.value hv) hd
    exact ⟨forall_subvalues_condition.mpr ⟨wellFormed_of_readCondition hc, hs.wellFormed⟩,
      hs.depth_le⟩
  | operator op => exact .leaf rfl trivial rfl hd

theorem Domain.forall_subvalues {p : Value → Prop} {domain : Domain} :
    (∀ v ∈ domain.subvalues, p v) ↔ ∀ n ∈ domain, ∀ v ∈ n.toValue.subvalues, p v := by
  simp only [Domain.subvalues, subvaluesAll_eq_flatMap, List.forall_mem_flatMap,
    List.forall_mem_map]

namespace Domain

theorem sound_of_readsNodes {limit : Nat} {parts : List Text} {domain : Domain}
    (h : ReadsNodes limit 1 parts domain) (hlt : 0 < limit) :
    (∀ v ∈ domain.subvalues, v.WellFormed) ∧ domain.depth ≤ limit := by
  obtain ⟨cores, -, hf⟩ := h.readsAs
  have hs : ∀ item ∈ domain.map Node.toValue, item.Sound limit 1 := by
    intro item hi
    obtain ⟨core, -, hr⟩ := exists_of_mem_right hf hi
    exact hr.sound hlt
  constructor
  · rw [forall_subvalues]
    intro n hn
    exact (hs n.toValue (List.mem_map_of_mem hn)).wellFormed
  · have hb : depths (domain.map Node.toValue) ≤ limit - 1 := by
      apply depths_le
      intro item hi
      have := (hs item hi).depth_le
      omega
    rw [Domain.depth, Domain.toValue, Value.depth]
    omega

/-- What is read is well formed, and within the limit of nesting unless it is read from blanks. -/
theorem sound_of_read {limit : Nat} {text : String} {domain : Domain}
    (h : Domain.read limit text = .ok domain) :
    (∀ v ∈ domain.subvalues, v.WellFormed) ∧ (trim text.toList ≠ [] → domain.depth ≤ limit) := by
  rcases read_eq_ok_iff.mp h with ⟨hb, rfl⟩ | ⟨-, hlt, inner, parts, -, -, hn, -⟩
  · exact ⟨by simp [Domain.subvalues, subvaluesAll], fun hne => absurd hb hne⟩
  · obtain ⟨hw, hd⟩ := sound_of_readsNodes hn hlt
    exact ⟨hw, fun _ => hd⟩

theorem check_of_read {limit : Nat} {text : String} {domain : Domain}
    (h : Domain.read limit text = .ok domain) : domain.check = .ok () := by
  rcases read_eq_ok_iff.mp h with ⟨-, rfl⟩ | ⟨-, -, inner, parts, -, -, -, hc⟩
  · rfl
  · exact hc

/-- Every domain that is accepted is well formed at every depth. -/
theorem wellFormed_of_read {limit : Nat} {text : String} {domain : Domain}
    (h : Domain.read limit text = .ok domain) :
    domain.check = .ok () ∧ (∀ v ∈ domain.subvalues, v.WellFormed) ∧
      (trim text.toList ≠ [] → domain.depth ≤ limit) :=
  ⟨check_of_read h, sound_of_read h⟩

/-- A domain in a list in a domain, at the limit. -/
theorem wellFormed_of_read_nested :
    ∃ domain, Domain.read 3 "[('a', 'in', [['!', ('b', '=', 1)], x])]" = .ok domain ∧
      domain.check = .ok () ∧ (∀ v ∈ domain.subvalues, v.WellFormed) ∧ domain.depth ≤ 3 := by
  have hread : Domain.read 3 "[('a', 'in', [['!', ('b', '=', 1)], x])]" =
      .ok [.condition ⟨"a", .isIn,
        .list [.list [.operator .not, .condition "b" .equal (.integer 1)], .text "x"]⟩] := by
    with_unfolding_all rfl
  obtain ⟨hc, hw, hd⟩ := wellFormed_of_read hread
  exact ⟨_, hread, hc, hw, hd (by decide)⟩

end Domain
end QueryDomain

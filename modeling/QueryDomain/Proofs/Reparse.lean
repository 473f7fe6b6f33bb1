import QueryDomain.Proofs.RoundTrip

/-! What has been read is read again from its literal form, with one exception. A bare symbol is a
text, but its literal form is quoted, and among tuples a quoted symbol is an operator: it makes a
domain of the list that has it. -/
namespace QueryDomain

open Text

namespace Value

/-- What the literal form can tell from other values: texts with both quotes and numbers that are
not finite are out. -/
def Representable : Value → Prop
  | text content => Quotable content
  | float number => ∃ negative x, number = .finite negative x
  | condition field _ _ => Quotable field
  | _ => True

/-- A list with a text among its items that its literal form takes for an operator. -/
def Mistaken : Value → Prop
  | list items => looksLikeDomain items ∧ ∃ item ∈ items, item.isSymbol
  | _ => False

theorem isNode_eq_false_of_isSymbol {v : Value} (h : v.isSymbol) : v.isNode = false := by
  cases v with
  | text content => rfl
  | _ => cases h

/-- A list that looks like a domain is one if no text is taken for an operator in it. -/
theorem legible_list_iff_not_mistaken {items : List Value} (hw : (list items).WellFormed) :
    (list items).Legible ↔ ¬ (list items).Mistaken := by
  rw [legible_list_iff]
  constructor
  · rintro (⟨-, domain, rfl, -⟩ | ⟨hlooks, -⟩) ⟨hlooks', item, hi, hs⟩
    · obtain ⟨n, -, rfl⟩ := List.mem_map.mp hi
      have hn := isNode_toValue n
      rw [isNode_eq_false_of_isSymbol hs] at hn
      cases hn
    · rw [hlooks] at hlooks'
      cases hlooks'
  · intro hm
    by_cases hlooks : looksLikeDomain items
    · left
      obtain ⟨⟨item, hi, hcondition⟩, hall⟩ := looksLikeDomain_iff.mp hlooks
      have hnodes : ∀ item ∈ items, item.isNode := by
        intro item hi
        rcases hall item hi with hn | hs
        · exact hn
        · exact absurd ⟨hlooks, item, hi, hs⟩ hm
      have hclaims : claimsDomain items := by
        by_cases ho : ∃ item ∈ items, item.isOperator
        · exact .inl ho
        · refine .inr ⟨List.ne_nil_of_mem hi, ?_⟩
          intro item hi
          have hn := hnodes item hi
          rw [isNode, Bool.or_eq_true] at hn
          exact hn.resolve_right fun h => ho ⟨item, hi, h⟩
      obtain ⟨domain, hd, hc⟩ := hw hclaims
      exact ⟨hlooks, domain, (subDomain?_eq_some_iff.mp hd).2, hc⟩
    · right
      refine ⟨by simpa using hlooks, ?_⟩
      intro item hi
      by_contra ho
      rw [Bool.not_eq_false] at ho
      obtain ⟨domain, hd, hc⟩ := hw (.inl ⟨item, hi, ho⟩)
      obtain ⟨-, rfl⟩ := subDomain?_eq_some_iff.mp hd
      rcases legible_list_iff.mp (legible_list_of_check hc) with ⟨hlooks', -⟩ | ⟨-, hops⟩
      · exact hlooks hlooks'
      · rw [hops item hi] at ho
        cases ho

theorem legible_iff_not_mistaken {v : Value} (hw : v.WellFormed) (hr : v.Representable) :
    v.Legible ↔ ¬ v.Mistaken := by
  cases v with
  | text content =>
    have hl : (text content).Legible := hr
    simpa [Mistaken] using hl
  | integer number =>
    have hl : (integer number).Legible := hw
    simpa [Mistaken] using hl
  | float number =>
    obtain ⟨negative, x, rfl⟩ := hr
    rcases hw with h | ⟨y, h⟩
    · cases h
    · cases h
      simp [Legible, Mistaken]
  | list items => exact legible_list_iff_not_mistaken hw
  | condition field comparator value =>
    obtain ⟨hne, htrim, hblank, hnode⟩ := hw
    have hl : (condition field comparator value).Legible := ⟨hne, htrim, hr, hblank, hnode⟩
    simpa [Mistaken] using hl
  | _ => simp [Legible, Mistaken]

end Value

namespace Domain

open Value

/-- A domain that has been read and can be represented is read again from its literal form just
if no list in it is mistaken. -/
theorem read_render_iff_of_read {limit : Nat} {text : String} {domain : Domain}
    (hlimit : 1 ≤ limit) (h : Domain.read limit text = .ok domain)
    (hr : ∀ v ∈ domain.subvalues, v.Representable) :
    (∃ other, Domain.read limit domain.render = .ok other ∧ other.same domain) ↔
      ∀ v ∈ domain.subvalues, ¬ v.Mistaken := by
  obtain ⟨hw, hd⟩ := sound_of_read h
  have hiff : ∀ v ∈ domain.subvalues, (v.Legible ↔ ¬ v.Mistaken) := fun v hv =>
    legible_iff_not_mistaken (hw v hv) (hr v hv)
  constructor
  · rintro ⟨other, hread, hs⟩ v hv
    exact (hiff v hv).mp ((legible_of_read_render hread hs).2.1 v hv)
  · intro hm
    have hl : ∀ v ∈ domain.subvalues, v.Legible := fun v hv => (hiff v hv).mpr (hm v hv)
    have hdepth : domain.depth ≤ limit := by
      rcases read_eq_ok_iff.mp h with ⟨-, rfl⟩ | ⟨hne, -⟩
      · exact hlimit
      · exact hd hne
    exact ⟨domain, read_render_of_legible (check_of_read h) hl hdepth, same_self hl⟩

/-- Next to a text that is no symbol, a bare symbol stays a text. -/
theorem read_render_iff_of_read_bare :
    ∃ domain, Domain.read 32 "[('a','in',[('b','=',1), x, !])]" = .ok domain ∧
      ∃ other, Domain.read 32 domain.render = .ok other ∧ other.same domain := by
  have hread : Domain.read 32 "[('a','in',[('b','=',1), x, !])]" =
      .ok [.condition ⟨"a", .isIn,
        .list [.condition "b" .equal (.integer 1), .text "x", .text "!"]⟩] := by
    with_unfolding_all rfl
  refine ⟨_, hread, (read_render_iff_of_read (by decide) hread ?_).mpr ?_⟩
  · simp [Domain.subvalues, subvaluesAll, Value.subvalues, Node.toValue, Representable, Quotable]
  · have hx : (text "x").isSymbol = false := by decide
    simp [Domain.subvalues, subvaluesAll, Value.subvalues, Node.toValue, Mistaken,
      looksLikeDomain, isNode, isCondition, Value.isOperator, hx]

/-- Next to tuples alone it does not: the literal form misses an operand of it. -/
theorem not_read_render_bare_symbol :
    ∃ domain, Domain.read 32 "[('a','in',[('b','=',1), !])]" = .ok domain ∧
      (∀ v ∈ domain.subvalues, v.Representable) ∧
      Domain.read 32 domain.render = .error (.missingOperand .not 1) := by
  refine ⟨[.condition ⟨"a", .isIn, .list [.condition "b" .equal (.integer 1), .text "!"]⟩],
    by with_unfolding_all rfl, ?_, ?_⟩
  · simp [Domain.subvalues, subvaluesAll, Value.subvalues, Node.toValue, Representable, Quotable]
  · have hrender : Domain.render
        [.condition ⟨"a", .isIn, .list [.condition "b" .equal (.integer 1), .text "!"]⟩] =
        "[('a', 'in', [('b', '=', 1), '!'])]" := by decide +kernel
    rw [hrender]
    with_unfolding_all rfl

end Domain
end QueryDomain

import QueryDomain.Proofs.Reading

/-! A text is read as a list that is a domain just if it is read as that domain. For this the
members that a domain may have must be those that the look ahead at a list allows, and a list
whose parts are read one by one must never consist of conditions and operators. -/
namespace QueryDomain

open Text

namespace Domain

/-- The reader of domains, for a text inside as many brackets as are given. -/
def readAt (limit depth : Nat) (cs : Text) : Except Fault Domain :=
  if trim cs = [] then .ok []
  else do
    let depth ← descend limit depth
    match interior? .square (trim cs) with
    | none => throw (.notBracketed (trim cs))
    | some inner =>
      match cut inner with
      | .error cause => throw (.unbalanced cause inner)
      | .ok parts =>
        let nodes ← readNodes limit depth (trim cs) parts
        validate nodes

theorem read_eq_readAt (limit : Nat) (text : String) :
    Domain.read limit text = readAt limit 0 text.toList := rfl

end Domain

open Domain

section Group

variable {cs inner : Text}

theorem scalar?_eq_none_of_interior? {b : Bracket} (h : interior? b cs = some inner) :
    scalar? cs = none := by
  rw [eq_of_interior? h]
  exact scalar?_group b _

theorem ne_nil_of_interior? {b : Bracket} (h : interior? b cs = some inner) : cs ≠ [] := by
  rintro rfl
  cases h

end Group

def readGroup (limit depth : Nat) (whole : Text) (parts : List Text) : Except Fault Value := do
  let depth ← descend limit depth
  if formsDomain parts then
    let nodes ← readNodes limit depth whole parts
    let nodes ← validate nodes
    return nodes.toValue
  else
    let items ← readItems limit depth whole parts
    return .list items

theorem readValue_eq (limit depth : Nat) (cs : Text) :
    readValue limit depth cs =
      match scalar? (trim cs) with
      | some v => .ok v
      | none =>
        match interior? .square (trim cs) with
        | none => .ok (.text (String.ofList (trim cs)))
        | some inner =>
          match cut inner with
          | .error cause => .error (.unbalanced cause inner)
          | .ok parts => readGroup limit depth (trim cs) parts := by
  rw [readValue]
  cases scalar? (trim cs) with
  | some v => rfl
  | none =>
    simp only
    split
    · rename_i hi
      rw [hi]
    · rename_i inner hi
      rw [hi]
      split
      · rename_i cause hcut
        simp only [hcut]
      · rename_i parts hcut
        simp only [hcut]
        rfl

theorem readValue_group {limit depth : Nat} {cs inner : Text} {parts : List Text}
    (hi : interior? .square (trim cs) = some inner) (hcut : cut inner = .ok parts) :
    readValue limit depth cs = readGroup limit depth (trim cs) parts := by
  simp only [readValue_eq, scalar?_eq_none_of_interior? hi, hi, hcut]

theorem readAt_group {limit depth : Nat} {cs inner : Text} {parts : List Text}
    (hi : interior? .square (trim cs) = some inner) (hcut : cut inner = .ok parts) :
    readAt limit depth cs =
      descend limit depth >>= fun depth => readNodes limit depth (trim cs) parts >>= validate := by
  rw [readAt, if_neg (ne_nil_of_interior? hi), hi]
  simp only [hcut]

/-- A list that forms a domain is read by the reader of domains, faults and all. -/
theorem readValue_eq_readAt {limit depth : Nat} {cs inner : Text} {parts : List Text}
    (hi : interior? .square (trim cs) = some inner) (hcut : cut inner = .ok parts)
    (hf : formsDomain parts) :
    readValue limit depth cs = (readAt limit depth cs).map Domain.toValue := by
  rw [readValue_group hi hcut, readGroup, readAt_group hi hcut]
  cases descend limit depth with
  | error fault => rfl
  | ok deeper =>
    simp only [Outcome.ok_bind, if_pos hf]
    cases readNodes limit deeper (trim cs) parts with
    | error fault => rfl
    | ok nodes =>
      rw [Outcome.ok_bind, Outcome.ok_bind]
      cases validate nodes <;> rfl

namespace Domain

theorem toValue_injective {domain other : Domain} (h : domain.toValue = other.toValue) :
    domain = other := by
  have hitems : domain.map Node.toValue = other.map Node.toValue := Value.list.inj h
  have hnodes := congrArg (List.mapM Value.toNode?) hitems
  rw [mapM_toNode?_toValue, mapM_toNode?_toValue] at hnodes
  exact Option.some.inj hnodes

theorem subDomain?_toValue {domain : Domain} (hne : domain ≠ []) :
    domain.toValue.subDomain? = some domain :=
  Value.subDomain?_eq_some_iff.mpr ⟨by simpa using hne, rfl⟩

end Domain

theorem Value.eq_toValue_of_subDomain? {v : Value} {domain : Domain}
    (h : v.subDomain? = some domain) : v = domain.toValue ∧ domain ≠ [] := by
  cases v with
  | list items =>
    obtain ⟨hne, rfl⟩ := Value.subDomain?_eq_some_iff.mp h
    exact ⟨rfl, by simpa using hne⟩
  | _ => cases h

theorem isTuple_or_isOperator_of_readNode {limit depth : Nat} {part : Text} {n : Node}
    (h : readNode limit depth (trim part) = .ok n) :
    (isTuple part ∧ n.toValue.isCondition) ∨ (isOperator part ∧ n.toValue.isOperator) := by
  rcases readNode_eq_ok_iff.mp h with ⟨inner, c, hi, -, rfl⟩ | ⟨body, op, hq, ho, rfl⟩
  · exact .inl ⟨by rw [isTuple, hi]; rfl, rfl⟩
  · refine .inr ⟨?_, rfl⟩
    rw [isOperator, hq, Option.bind_some, ho]
    rfl

theorem ReadsNodes.formsDomain {limit depth : Nat} {parts : List Text} {domain : Domain}
    (h : ReadsNodes limit depth parts domain) (hcheck : domain.check = .ok ())
    (hne : domain ≠ []) : formsDomain parts := by
  obtain ⟨cores, ht, hf⟩ := h
  rw [ht.formsDomain_eq, formsDomain_iff]
  constructor
  · obtain ⟨n, hn, hc⟩ := exists_condition_of_check hcheck hne
    obtain ⟨part, hp, -, hread⟩ := exists_of_mem_right hf hn
    rcases isTuple_or_isOperator_of_readNode hread with ⟨htuple, -⟩ | ⟨-, ho⟩
    · exact ⟨part, hp, htuple⟩
    · cases n with
      | condition c => cases ho
      | operator op => cases hc
  · intro part hp
    obtain ⟨n, -, -, hread⟩ := exists_of_mem_left hf hp
    rcases isTuple_or_isOperator_of_readNode hread with ⟨htuple, -⟩ | ⟨hoperator, -⟩
    · exact .inr (.inl htuple)
    · exact .inr (.inr hoperator)

theorem ReadsItems.subDomain?_eq_none {limit depth : Nat} {parts : List Text} {items : List Value}
    (h : ReadsItems limit depth parts items) (hf : ¬ Text.formsDomain parts) :
    (Value.list items).subDomain? = none := by
  rw [Option.eq_none_iff_forall_ne_some]
  intro domain hdomain
  obtain ⟨hne, hitems⟩ := Value.subDomain?_eq_some_iff.mp hdomain
  apply hf
  apply h.formsDomain hne
  intro item hi
  have ho : item.isOperator = false := h.isOperator_eq_false item hi
  rw [hitems] at hi
  obtain ⟨n, -, rfl⟩ := List.mem_map.mp hi
  have hn := Value.isNode_toValue n
  rwa [Value.isNode, ho, Bool.or_false] at hn

theorem exists_group_of_readAt {limit depth : Nat} {cs : Text} {domain : Domain}
    (h : readAt limit depth cs = .ok domain) (hne : domain ≠ []) :
    ∃ inner parts, interior? .square (trim cs) = some inner ∧ cut inner = .ok parts ∧
      ReadsNodes limit (depth + 1) parts domain ∧ domain.check = .ok () := by
  rw [readAt] at h
  split at h
  · cases h
    contradiction
  · obtain ⟨deeper, hd, h⟩ := Outcome.bind_eq_ok_iff.mp h
    obtain ⟨-, rfl⟩ := descend_eq_ok_iff.mp hd
    split at h
    · cases h
    · rename_i inner hi
      split at h
      · cases h
      · rename_i parts hcut
        obtain ⟨nodes, hn, h⟩ := Outcome.bind_eq_ok_iff.mp h
        obtain ⟨hcheck, rfl⟩ := validate_eq_ok_iff.mp h
        exact ⟨inner, parts, hi, hcut, readNodes_eq_ok_iff.mp hn, hcheck⟩

theorem readAt_eq_ok_iff_subDomain {limit depth : Nat} {cs : Text} {domain : Domain} :
    (domain ≠ [] ∧ readAt limit depth cs = .ok domain) ↔
      ∃ v, readValue limit depth cs = .ok v ∧ v.subDomain? = some domain := by
  constructor
  · rintro ⟨hne, hread⟩
    obtain ⟨inner, parts, hi, hcut, hn, hcheck⟩ := exists_group_of_readAt hread hne
    refine ⟨domain.toValue, ?_, subDomain?_toValue hne⟩
    rw [readValue_eq_readAt hi hcut (hn.formsDomain hcheck hne), hread]
    rfl
  · rintro ⟨v, hread, hsub⟩
    obtain ⟨rfl, hne⟩ := Value.eq_toValue_of_subDomain? hsub
    obtain ⟨inner, parts, hi, hcut, -, hl⟩ := (ReadsAs.value hread).list
    by_cases hf : formsDomain parts
    · rw [readValue_eq_readAt hi hcut hf] at hread
      obtain ⟨other, hother, heq⟩ := Outcome.map_eq_ok_iff.mp hread
      rw [toValue_injective heq] at hother
      exact ⟨hne, hother⟩
    · rcases hl with ⟨hf', -⟩ | ⟨-, hitems⟩
      · exact absurd hf' hf
      · rw [Domain.toValue, hitems.subDomain?_eq_none hf] at hsub
        cases hsub

namespace Domain

/-- Both readers take a text for the same domain, and the value is then the list of its members;
a list that is read part by part is never taken for one. -/
theorem read_eq_ok_iff_subDomain (text : String) (domain : Domain) :
    ((domain ≠ [] ∧ Domain.read defaultLimit text = .ok domain) ↔
        ∃ v, Value.read text = .ok v ∧ v.subDomain? = some domain) ∧
      (∀ v, Value.read text = .ok v → v.subDomain? = some domain → v = domain.toValue) ∧
      ∀ limit depth whole parts items, ¬ formsDomain parts →
        readItems limit depth whole parts = .ok items → (Value.list items).subDomain? = none := by
  refine ⟨?_, ?_, ?_⟩
  · rw [read_eq_readAt]
    exact readAt_eq_ok_iff_subDomain
  · intro v _ hsub
    exact (Value.eq_toValue_of_subDomain? hsub).1
  · intro limit depth whole parts items hf hread
    exact (readItems_eq_ok_iff.mp hread).subDomain?_eq_none hf

end Domain
end QueryDomain

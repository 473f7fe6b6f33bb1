import QueryDomain.Proofs.Scalar
import QueryDomain.Proofs.Subvalues

/-! What each of the readers accepts, and what it then returns. The two readers of lists differ in
how they read one part only. -/
namespace QueryDomain

section Forall₂

variable {α β : Type} {r : α → β → Prop} {as : List α} {bs : List β}

theorem exists_of_mem_left (h : List.Forall₂ r as bs) {a : α} (ha : a ∈ as) :
    ∃ b ∈ bs, r a b := by
  induction h with
  | nil => cases ha
  | @cons a' b as bs hab _ ih =>
    rcases List.mem_cons.mp ha with rfl | ha
    · exact ⟨b, by simp, hab⟩
    · obtain ⟨b, hb, hr⟩ := ih ha
      exact ⟨b, by simp [hb], hr⟩

theorem exists_of_mem_right (h : List.Forall₂ r as bs) {b : β} (hb : b ∈ bs) :
    ∃ a ∈ as, r a b := exists_of_mem_left h.flip hb

theorem forall₂_imp_of_mem {s : α → β → Prop} (h : List.Forall₂ r as bs)
    (hs : ∀ a, ∀ b ∈ bs, r a b → s a b) : List.Forall₂ s as bs := by
  induction h with
  | nil => exact .nil
  | @cons a b as bs hab _ ih =>
    exact .cons (hs a b (by simp) hab) (ih fun a b hb => hs a b (by simp [hb]))

end Forall₂

open Text

/-- What is read part by part; the last part may be blank and is then left out. -/
def readParts {α : Type} (fault : Fault) (read : Text → Except Fault α) :
    List Text → Except Fault (List α)
  | [] => .ok []
  | part :: more =>
    if trim part = [] then
      if more = [] then .ok [] else .error fault
    else do
      let item ← read part
      let items ← readParts fault read more
      return item :: items

def readItem (limit depth : Nat) (part : Text) : Except Fault Value :=
  match interior? .round (trim part) with
  | some inner =>
    (readCondition limit depth inner).map fun c => .condition c.field c.comparator c.value
  | none => readValue limit depth part

theorem readNodes_eq_readParts (limit depth : Nat) (whole : Text) (parts : List Text) :
    readNodes limit depth whole parts =
      readParts (.emptyTerm whole) (fun part => readNode limit depth (trim part)) parts := by
  induction parts with
  | nil => rw [readNodes, readParts]
  | cons part more ih => rw [readNodes, readParts, ih]

theorem readItems_eq_readParts (limit depth : Nat) (whole : Text) (parts : List Text) :
    readItems limit depth whole parts =
      readParts (.emptyElement whole) (readItem limit depth) parts := by
  induction parts with
  | nil => rw [readItems, readParts]
  | cons part more ih =>
    rw [readItems, readParts, ih]
    congr 1
    rw [readItem]
    cases interior? .round (trim part) with
    | none => rfl
    | some inner =>
      simp only
      cases readCondition limit depth inner <;> rfl

/-- Parts behind which there may be a blank one. -/
def Trailing (cores parts : List Text) : Prop :=
  parts = cores ∨ ∃ blank, Blank blank ∧ parts = cores ++ [blank]

theorem Trailing.cons {cores parts : List Text} (h : Trailing cores parts) (part : Text) :
    Trailing (part :: cores) (part :: parts) := by
  rcases h with rfl | ⟨blank, hb, rfl⟩
  · exact .inl rfl
  · exact .inr ⟨blank, hb, rfl⟩

theorem Trailing.mem {cores parts : List Text} (h : Trailing cores parts) {part : Text}
    (hp : part ∈ parts) : part ∈ cores ∨ Blank part := by
  rcases h with rfl | ⟨blank, hb, rfl⟩
  · exact .inl hp
  · rcases List.mem_append.mp hp with hp | hp
    · exact .inl hp
    · rw [List.mem_singleton.mp hp]
      exact .inr hb

theorem readParts_eq_ok_iff {α : Type} {fault : Fault} {read : Text → Except Fault α}
    {parts : List Text} {items : List α} :
    readParts fault read parts = .ok items ↔
      ∃ cores, Trailing cores parts ∧
        List.Forall₂ (fun part item => trim part ≠ [] ∧ read part = .ok item) cores items := by
  constructor
  · intro h
    induction parts generalizing items with
    | nil =>
      cases h
      exact ⟨[], .inl rfl, .nil⟩
    | cons part more ih =>
      rw [readParts] at h
      split at h
      · rename_i hb
        split at h
        · rename_i hm
          cases h
          exact ⟨[], .inr ⟨part, trim_eq_nil_iff.mp hb, by rw [hm]; rfl⟩, .nil⟩
        · cases h
      · rename_i hb
        obtain ⟨item, hi, h⟩ := Outcome.bind_eq_ok_iff.mp h
        obtain ⟨rest, hr, h⟩ := Outcome.bind_eq_ok_iff.mp h
        cases h
        obtain ⟨cores, ht, hf⟩ := ih hr
        exact ⟨part :: cores, ht.cons part, .cons ⟨hb, hi⟩ hf⟩
  · rintro ⟨cores, ht, hf⟩
    induction hf generalizing parts with
    | nil =>
      rcases ht with rfl | ⟨blank, hb, rfl⟩
      · rfl
      · rw [List.nil_append, readParts, if_pos (trim_eq_nil_iff.mpr hb), if_pos rfl]
    | @cons part item cores items hp _ ih =>
      obtain ⟨more, rfl, hmore⟩ : ∃ more, parts = part :: more ∧ Trailing cores more := by
        rcases ht with rfl | ⟨blank, hb, rfl⟩
        · exact ⟨cores, rfl, .inl rfl⟩
        · exact ⟨cores ++ [blank], rfl, .inr ⟨blank, hb, rfl⟩⟩
      rw [readParts, if_neg hp.1, hp.2, ih hmore]
      rfl

/-- What is not read is refused for a blank part or for what is in a part. -/
theorem eq_or_exists_of_readParts {α : Type} {fault other : Fault} {read : Text → Except Fault α}
    {parts : List Text} (h : readParts fault read parts = .error other) :
    other = fault ∨ ∃ part ∈ parts, trim part ≠ [] ∧ read part = .error other := by
  induction parts with
  | nil => cases h
  | cons part more ih =>
    rw [readParts] at h
    split at h
    · split at h <;> cases h
      exact .inl rfl
    · rename_i hne
      cases hread : read part with
      | error first =>
        rw [hread, Outcome.error_bind] at h
        cases h
        exact .inr ⟨part, by simp, hne, hread⟩
      | ok item =>
        rw [hread, Outcome.ok_bind] at h
        cases hmore : readParts fault read more with
        | error first =>
          rw [hmore, Outcome.error_bind] at h
          cases h
          rcases ih hmore with rfl | ⟨part', hp, hrest⟩
          · exact .inl rfl
          · exact .inr ⟨part', by simp [hp], hrest⟩
        | ok items =>
          rw [hmore, Outcome.ok_bind] at h
          cases h

theorem readNode_eq_ok_iff {limit depth : Nat} {term : Text} {n : Node} :
    readNode limit depth term = .ok n ↔
      (∃ inner c, interior? .round term = some inner ∧ readCondition limit depth inner = .ok c ∧
        n = .condition c) ∨
      (∃ body op, quotation? term = some body ∧ Operator.ofSymbol? (trim body) = some op ∧
        n = .operator op) := by
  rw [readNode]
  split
  · rename_i inner hi
    have hq : quotation? term = none := by
      rw [eq_of_interior? hi, List.cons_append, quotation?_group]
    simp only [Outcome.bind_eq_ok_iff, Outcome.pure_eq_ok_iff]
    simp [hi, hq, eq_comm]
  · rename_i hi
    simp only [hi, reduceCtorEq, false_and, exists_false, false_or]
    cases hq : quotation? term with
    | none => simp
    | some body =>
      cases ho : Operator.ofSymbol? (trim body) with
      | none => simp [ho]
      | some op => simp [ho, eq_comm]

/-- A tuple has three members, of which the first two are quoted or bare names. -/
theorem readCondition_eq_ok_iff {limit depth : Nat} {inner : Text} {c : Condition} :
    readCondition limit depth inner = .ok c ↔
      ∃ field comparator value, cutAtMost 3 inner = .ok [field, comparator, value] ∧
        unquote field ≠ [] ∧ unquote comparator ≠ [] ∧
        Comparator.read (unquote comparator) = .ok c.comparator ∧
        readValue limit depth value = .ok c.value ∧ c.value.isBlank = false ∧
        c.field = String.ofList (unquote field) := by
  obtain ⟨name, relation, target⟩ := c
  rw [readCondition]
  split
  · rename_i cause hcut
    simp [hcut]
  · rename_i field comparator value hcut
    simp only [hcut, Except.ok.injEq, List.cons.injEq, and_true]
    by_cases hf : unquote field = []
    · simp only [hf, if_true]
      constructor
      · intro h
        cases h
      · rintro ⟨_, _, _, ⟨rfl, rfl, rfl⟩, hne, _⟩
        exact absurd hf hne
    by_cases hc : unquote comparator = []
    · simp only [hf, hc, if_true, if_false]
      constructor
      · intro h
        cases h
      · rintro ⟨_, _, _, ⟨rfl, rfl, rfl⟩, _, hne, _⟩
        exact absurd hc hne
    simp only [hf, hc, if_false]
    constructor
    · intro h
      obtain ⟨known, hk, h⟩ := Outcome.bind_eq_ok_iff.mp h
      obtain ⟨v, hv, h⟩ := Outcome.bind_eq_ok_iff.mp h
      cases hb : v.isBlank with
      | true =>
        rw [hb] at h
        cases h
      | false =>
        rw [hb] at h
        cases h
        exact ⟨_, _, _, ⟨rfl, rfl, rfl⟩, hf, hc, hk, hv, hb, rfl⟩
    · rintro ⟨_, _, _, ⟨rfl, rfl, rfl⟩, _, _, hk, hv, hb, rfl⟩
      simp [hk, hv, hb, bind, Except.bind, pure, Except.pure]
  · rename_i parts hne hcut
    simp only [hcut, Except.ok.injEq]
    constructor
    · intro h
      cases h
    · rintro ⟨field, comparator, value, rfl, _⟩
      exact absurd rfl (hne field comparator value)

/-- The members of a domain between its brackets, the last of which a comma may follow. -/
def ReadsNodes (limit depth : Nat) (parts : List Text) (domain : Domain) : Prop :=
  ∃ cores, Trailing cores parts ∧ List.Forall₂
    (fun part n => trim part ≠ [] ∧ readNode limit depth (trim part) = .ok n) cores domain

def ReadsItems (limit depth : Nat) (parts : List Text) (items : List Value) : Prop :=
  ∃ cores, Trailing cores parts ∧ List.Forall₂
    (fun part item => trim part ≠ [] ∧ readItem limit depth part = .ok item) cores items

def ReadsList (limit depth : Nat) (parts : List Text) (items : List Value) : Prop :=
  (formsDomain parts ∧ ∃ domain : Domain, ReadsNodes limit depth parts domain ∧
    domain.check = .ok () ∧ items = domain.map Node.toValue) ∨
  (¬ formsDomain parts ∧ ReadsItems limit depth parts items)

theorem readNodes_eq_ok_iff {limit depth : Nat} {whole : Text} {parts : List Text}
    {domain : Domain} :
    readNodes limit depth whole parts = .ok domain ↔ ReadsNodes limit depth parts domain := by
  rw [readNodes_eq_readParts, readParts_eq_ok_iff, ReadsNodes]

theorem readItems_eq_ok_iff {limit depth : Nat} {whole : Text} {parts : List Text}
    {items : List Value} :
    readItems limit depth whole parts = .ok items ↔ ReadsItems limit depth parts items := by
  rw [readItems_eq_readParts, readParts_eq_ok_iff, ReadsItems]

theorem descend_eq_ok_iff {limit depth deeper : Nat} :
    descend limit depth = .ok deeper ↔ depth < limit ∧ deeper = depth + 1 := by
  rw [descend]
  split
  · rename_i h
    simp [h, eq_comm]
  · rename_i h
    simp [h]

/-- A value is a scalar, a list, or else the text itself. -/
theorem readValue_eq_ok_iff {limit depth : Nat} {cs : Text} {v : Value} :
    readValue limit depth cs = .ok v ↔
      scalar? (trim cs) = some v ∨
      (scalar? (trim cs) = none ∧ interior? .square (trim cs) = none ∧
        v = .text (String.ofList (trim cs))) ∨
      (scalar? (trim cs) = none ∧ ∃ inner parts items, interior? .square (trim cs) = some inner ∧
        cut inner = .ok parts ∧ depth < limit ∧ ReadsList limit (depth + 1) parts items ∧
        v = .list items) := by
  rw [readValue]
  cases hs : scalar? (trim cs) with
  | some w => simp
  | none =>
    simp only [reduceCtorEq, false_or, true_and]
    split
    · rename_i hi
      simp [hi, eq_comm]
    · rename_i inner hi
      simp only [hi, reduceCtorEq, false_and, false_or]
      split
      · rename_i cause hcut
        constructor
        · intro h
          cases h
        · rintro ⟨_, _, _, ⟨rfl⟩, hparts, -⟩
          cases hcut.symm.trans hparts
      · rename_i parts hcut
        simp only [Outcome.bind_eq_ok_iff, descend_eq_ok_iff]
        by_cases hf : formsDomain parts
        · simp only [if_pos hf, Outcome.bind_eq_ok_iff, Outcome.pure_eq_ok_iff, readNodes_eq_ok_iff,
            Domain.validate_eq_ok_iff]
          constructor
          · rintro ⟨_, ⟨hd, rfl⟩, nodes, hn, _, ⟨hc, rfl⟩, rfl⟩
            exact ⟨inner, parts, _, rfl, hcut, hd, .inl ⟨hf, nodes, hn, hc, rfl⟩, rfl⟩
          · rintro ⟨_, _, _, ⟨rfl⟩, hparts, hd, ⟨-, nodes, hn, hc, rfl⟩ | ⟨hnf, -⟩, rfl⟩
            · cases hcut.symm.trans hparts
              exact ⟨_, ⟨hd, rfl⟩, nodes, hn, _, ⟨hc, rfl⟩, rfl⟩
            · cases hcut.symm.trans hparts
              exact absurd hf hnf
        · simp only [if_neg hf, Outcome.bind_eq_ok_iff, Outcome.pure_eq_ok_iff, readItems_eq_ok_iff]
          constructor
          · rintro ⟨_, ⟨hd, rfl⟩, items, hitems, rfl⟩
            exact ⟨inner, parts, items, rfl, hcut, hd, .inr ⟨hf, hitems⟩, rfl⟩
          · rintro ⟨_, _, items, ⟨rfl⟩, hparts, hd, ⟨hnf, -⟩ | ⟨-, hitems⟩, rfl⟩
            · cases hcut.symm.trans hparts
              exact absurd hnf hf
            · cases hcut.symm.trans hparts
              exact ⟨_, ⟨hd, rfl⟩, items, hitems, rfl⟩

/-- A text is a domain if it is blank, or a group of members none of which misses an operand. -/
theorem read_eq_ok_iff {limit : Nat} {text : String} {domain : Domain} :
    Domain.read limit text = .ok domain ↔
      (trim text.toList = [] ∧ domain = []) ∨
      (trim text.toList ≠ [] ∧ 0 < limit ∧ ∃ inner parts,
        interior? .square (trim text.toList) = some inner ∧ cut inner = .ok parts ∧
        ReadsNodes limit 1 parts domain ∧ domain.check = .ok ()) := by
  rw [Domain.read]
  by_cases hb : trim text.toList = []
  · simp [hb, eq_comm]
  · simp only [hb, if_false, false_and, false_or, not_false_eq_true, true_and, ne_eq,
      Outcome.bind_eq_ok_iff, descend_eq_ok_iff]
    cases hi : interior? .square (trim text.toList) with
    | none => simp [Outcome.throw_ne_ok]
    | some inner =>
      cases hcut : cut inner with
      | error cause => simp [hcut, Outcome.throw_ne_ok]
      | ok parts =>
        constructor
        · rintro ⟨_, ⟨hd, rfl⟩, h⟩
          simp only [hcut, Outcome.bind_eq_ok_iff, readNodes_eq_ok_iff,
            Domain.validate_eq_ok_iff] at h
          obtain ⟨nodes, hn, hc, rfl⟩ := h
          exact ⟨hd, inner, parts, rfl, hcut, hn, hc⟩
        · rintro ⟨hd, _, _, ⟨rfl⟩, hparts, hn, hc⟩
          cases hcut.symm.trans hparts
          refine ⟨_, ⟨hd, rfl⟩, ?_⟩
          simp only [hcut, Outcome.bind_eq_ok_iff, readNodes_eq_ok_iff,
            Domain.validate_eq_ok_iff]
          exact ⟨domain, hn, hc, rfl⟩

/-- What a part of a list can be read as, whether the list is a domain or not. -/
inductive ReadsAs (limit depth : Nat) (part : Text) : Value → Prop
  | value {v : Value} : readValue limit depth part = .ok v → ReadsAs limit depth part v
  | condition {inner : Text} {c : Condition} : interior? .round (trim part) = some inner →
    readCondition limit depth inner = .ok c →
    ReadsAs limit depth part (.condition c.field c.comparator c.value)
  | operator {body : Text} {op : Operator} : quotation? (trim part) = some body →
    Operator.ofSymbol? (trim body) = some op → ReadsAs limit depth part (.operator op)

theorem ReadsAs.of_readItem {limit depth : Nat} {part : Text} {v : Value}
    (h : readItem limit depth part = .ok v) : ReadsAs limit depth part v := by
  rw [readItem] at h
  split at h
  · rename_i inner hi
    obtain ⟨c, hc, rfl⟩ := Outcome.map_eq_ok_iff.mp h
    exact .condition hi hc
  · exact .value h

theorem ReadsAs.of_readNode {limit depth : Nat} {part : Text} {n : Node}
    (h : readNode limit depth (trim part) = .ok n) : ReadsAs limit depth part n.toValue := by
  rcases readNode_eq_ok_iff.mp h with ⟨inner, c, hi, hc, rfl⟩ | ⟨body, op, hq, ho, rfl⟩
  · exact .condition hi hc
  · exact .operator hq ho

theorem ReadsNodes.readsAs {limit depth : Nat} {parts : List Text} {domain : Domain}
    (h : ReadsNodes limit depth parts domain) :
    ∃ cores, Trailing cores parts ∧
      List.Forall₂ (ReadsAs limit depth) cores (domain.map Node.toValue) := by
  obtain ⟨cores, ht, hf⟩ := h
  refine ⟨cores, ht, List.forall₂_map_right_iff.mpr ?_⟩
  exact hf.imp fun part n h => .of_readNode h.2

theorem ReadsList.readsAs {limit depth : Nat} {parts : List Text} {items : List Value}
    (h : ReadsList limit depth parts items) :
    ∃ cores, Trailing cores parts ∧ List.Forall₂ (ReadsAs limit depth) cores items := by
  rcases h with ⟨-, domain, hd, -, rfl⟩ | ⟨-, cores, ht, hf⟩
  · exact hd.readsAs
  · exact ⟨cores, ht, hf.imp fun part item h => .of_readItem h.2⟩

section Inversion

variable {limit depth : Nat} {part : Text}

theorem readValue_cases {v : Value} (h : readValue limit depth part = .ok v) :
    v.Scalar (trim part) ∨ (∃ content, v = .text content) ∨ ∃ items, v = .list items := by
  rcases readValue_eq_ok_iff.mp h with h | ⟨-, -, rfl⟩ | ⟨-, inner, parts, items, -, -, -, -, rfl⟩
  · exact .inl (Value.Scalar.of_scalar? h)
  · exact .inr (.inl ⟨_, rfl⟩)
  · exact .inr (.inr ⟨_, rfl⟩)

theorem isNode_of_readValue {v : Value} (h : readValue limit depth part = .ok v) :
    v.isNode = false := by
  rcases readValue_cases h with h | ⟨content, rfl⟩ | ⟨items, rfl⟩
  · cases v with
    | condition => exact absurd h id
    | operator => exact absurd h id
    | _ => rfl
  · rfl
  · rfl

namespace ReadsAs

theorem readValue_eq {v : Value} (h : ReadsAs limit depth part v) (hn : v.isNode = false) :
    readValue limit depth part = .ok v := by
  cases h with
  | value h => exact h
  | condition => cases hn
  | operator => cases hn

theorem text {content : String} (h : ReadsAs limit depth part (.text content)) :
    quotation? (trim part) = some content.toList ∨
      (scalar? (trim part) = none ∧ content.toList = trim part) := by
  rcases readValue_eq_ok_iff.mp (h.readValue_eq rfl) with h | ⟨hs, -, hv⟩ |
    ⟨-, _, _, _, -, -, -, -, hv⟩
  · exact .inl (Value.Scalar.of_scalar? h)
  · cases hv
    exact .inr ⟨hs, String.toList_ofList⟩
  · cases hv

theorem scalar {v : Value} (h : ReadsAs limit depth part v) (ht : ∀ content, v ≠ .text content)
    (hl : ∀ items, v ≠ .list items) (hn : v.isNode = false) : v.Scalar (trim part) := by
  rcases readValue_cases (h.readValue_eq hn) with h | ⟨content, rfl⟩ | ⟨items, rfl⟩
  · exact h
  · exact absurd rfl (ht content)
  · exact absurd rfl (hl items)

theorem list {items : List Value} (h : ReadsAs limit depth part (.list items)) :
    ∃ inner parts, interior? .square (trim part) = some inner ∧ cut inner = .ok parts ∧
      depth < limit ∧ ReadsList limit (depth + 1) parts items := by
  rcases readValue_eq_ok_iff.mp (h.readValue_eq rfl) with h | ⟨-, -, hv⟩ |
    ⟨-, inner, parts, _, hi, hcut, hd, hl, hv⟩
  · exact absurd (Value.Scalar.of_scalar? h) id
  · cases hv
  · cases hv
    exact ⟨inner, parts, hi, hcut, hd, hl⟩

theorem condition_inv {field : String} {comparator : Comparator} {value : Value}
    (h : ReadsAs limit depth part (.condition field comparator value)) :
    ∃ inner, interior? .round (trim part) = some inner ∧
      readCondition limit depth inner = .ok ⟨field, comparator, value⟩ := by
  generalize hv : Value.condition field comparator value = v at h
  cases h with
  | value h =>
    subst hv
    exact absurd (isNode_of_readValue h) (by simp [Value.isNode, Value.isCondition])
  | condition hi hc =>
    cases hv
    exact ⟨_, hi, hc⟩
  | operator => cases hv

theorem operator_inv {op : Operator} (h : ReadsAs limit depth part (.operator op)) :
    ∃ body, quotation? (trim part) = some body ∧ Operator.ofSymbol? (trim body) = some op := by
  cases h with
  | value h =>
    exact absurd (isNode_of_readValue h) (by simp [Value.isNode, Value.isOperator])
  | operator hq ho => exact ⟨_, hq, ho⟩

theorem readNode_eq {n : Node} (h : ReadsAs limit depth part n.toValue) :
    readNode limit depth (trim part) = .ok n := by
  rw [readNode_eq_ok_iff]
  cases n with
  | condition c =>
    obtain ⟨inner, hi, hc⟩ := h.condition_inv
    exact .inl ⟨inner, c, hi, hc, rfl⟩
  | operator op =>
    obtain ⟨body, hq, ho⟩ := h.operator_inv
    exact .inr ⟨body, op, hq, ho, rfl⟩

theorem readItem_eq {v : Value} (h : ReadsAs limit depth part v)
    (ht : isTuple part = v.isCondition) (ho : v.isOperator = false) :
    readItem limit depth part = .ok v := by
  rw [isTuple] at ht
  cases h with
  | value h =>
    have hn := Value.isNode_eq_false_iff.mp (isNode_of_readValue h)
    rw [hn.1, Option.isSome_eq_false_iff, Option.isNone_iff_eq_none] at ht
    rw [readItem, ht]
    exact h
  | condition hi hc =>
    rw [readItem, hi]
    simp only [hc]
    rfl
  | operator => cases ho

end ReadsAs
end Inversion

theorem formsDomain_iff {parts : List Text} :
    formsDomain parts ↔ (∃ part ∈ parts, isTuple part) ∧
      ∀ part ∈ parts, trim part = [] ∨ isTuple part ∨ isOperator part := by
  simp only [formsDomain, List.any_eq_true, List.all_eq_true, Bool.and_eq_true,
    Bool.or_eq_true, decide_eq_true_eq, or_assoc]

theorem isTuple_eq_false_of_blank {part : Text} (h : trim part = []) : isTuple part = false := by
  rw [isTuple, h]
  rfl

theorem Trailing.formsDomain_eq {cores parts : List Text} (h : Trailing cores parts) :
    formsDomain parts = formsDomain cores := by
  rcases h with rfl | ⟨blank, hb, rfl⟩
  · rfl
  · have ht := trim_eq_nil_iff.mpr hb
    simp [formsDomain, isTuple_eq_false_of_blank ht, ht]

theorem isTuple_eq_of_readItem {limit depth : Nat} {part : Text} {v : Value}
    (h : readItem limit depth part = .ok v) : isTuple part = v.isCondition := by
  rw [readItem] at h
  rw [isTuple]
  split at h
  · rename_i inner hi
    obtain ⟨c, -, rfl⟩ := Outcome.map_eq_ok_iff.mp h
    rw [hi]
    rfl
  · rename_i hi
    rw [hi, (Value.isNode_eq_false_iff.mp (isNode_of_readValue h)).1]
    rfl

theorem isOperator_of_readItem {limit depth : Nat} {part : Text} {v : Value}
    (h : readItem limit depth part = .ok v) : v.isOperator = false := by
  rw [readItem] at h
  split at h
  · obtain ⟨c, -, rfl⟩ := Outcome.map_eq_ok_iff.mp h
    rfl
  · exact (Value.isNode_eq_false_iff.mp (isNode_of_readValue h)).2

theorem ReadsItems.isOperator_eq_false {limit depth : Nat} {parts : List Text}
    {items : List Value} (h : ReadsItems limit depth parts items) :
    ∀ item ∈ items, item.isOperator = false := by
  obtain ⟨cores, -, hf⟩ := h
  intro item hi
  obtain ⟨part, -, -, hr⟩ := exists_of_mem_right hf hi
  exact isOperator_of_readItem hr

theorem ReadsItems.formsDomain {limit depth : Nat} {parts : List Text} {items : List Value}
    (h : ReadsItems limit depth parts items) (hne : items ≠ [])
    (hc : ∀ item ∈ items, item.isCondition) : formsDomain parts := by
  obtain ⟨cores, ht, hf⟩ := h
  have hall : ∀ part ∈ cores, isTuple part := by
    intro part hp
    obtain ⟨item, hi, -, hr⟩ := exists_of_mem_left hf hp
    rw [isTuple_eq_of_readItem hr, hc item hi]
  rw [ht.formsDomain_eq]
  cases hf with
  | nil => exact absurd rfl hne
  | @cons part item cores items hp hf =>
    rw [formsDomain_iff]
    exact ⟨⟨part, by simp, hall part (by simp)⟩, fun part hp => .inr (.inl (hall part hp))⟩

end QueryDomain

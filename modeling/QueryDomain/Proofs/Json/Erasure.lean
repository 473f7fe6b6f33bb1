import QueryDomain.Proofs.Json.Numerals

/-! What the JSON form of a domain keeps. Operators turn into texts, conditions into arrays, and
numbers without a finite value into null; what is left of a domain then determines the text of its
form and is determined by it. -/
namespace QueryDomain

/-- What is left of a value: the kinds of JSON, with whole numbers apart from those that are
written with a point or an exponent. -/
inductive Erased
  | null
  | boolean (truth : Bool)
  | integer (number : Int64)
  | decimal (numeral : Text)
  | text (content : String)
  | array (items : List Erased)

def Binary64.erase : Binary64 → Erased
  | finite negative x => .decimal (finite negative x).toJson.write
  | _ => .null

namespace Value

mutual
def erase : Value → Erased
  | text content => .text content
  | integer number => .integer number
  | float number => number.erase
  | boolean truth => .boolean truth
  | null => .null
  | list items => .array (eraseAll items)
  | condition field comparator value =>
    .array [.text field, .text comparator.spelling, erase value]
  | operator op => .text (String.ofList [op.symbol])

def eraseAll : List Value → List Erased
  | [] => []
  | item :: items => erase item :: eraseAll items
end

theorem eraseAll_eq_map (items : List Value) : eraseAll items = items.map erase := by
  induction items with
  | nil => rfl
  | cons item items ih => rw [eraseAll, ih, List.map_cons]

def isFloat : Value → Bool
  | float _ => true
  | _ => false

/-- No numbers but integers, and no conditions or operators, at any depth. -/
def Faithful (v : Value) : Prop := ∀ w ∈ v.subvalues, w.isFloat = false ∧ w.isNode = false

end Value

def Node.Faithful : Node → Prop
  | operator _ => True
  | condition c => c.value.Faithful

namespace Domain

def erase (domain : Domain) : Erased := .array (domain.map fun n => n.toValue.erase)

def Faithful (domain : Domain) : Prop := ∀ n ∈ domain, n.Faithful

end Domain

section Form

namespace Erased

mutual
def toJson : Erased → Json
  | null => .null
  | boolean truth => .boolean truth
  | integer number => .number (Text.ofInteger number.toInt)
  | decimal numeral => .number numeral
  | text content => .text content.toList
  | array items => .array (toJsons items)

def toJsons : List Erased → List Json
  | [] => []
  | item :: items => toJson item :: toJsons items
end

theorem toJsons_eq_map (items : List Erased) : toJsons items = items.map toJson := by
  induction items with
  | nil => rfl
  | cons item items ih => rw [toJsons, ih, List.map_cons]

end Erased

def Text.integerValue : Text → Int
  | '-' :: cs => -(Nat.ofDigitChars 10 cs 0 : Nat)
  | cs => (Nat.ofDigitChars 10 cs 0 : Nat)

theorem Text.integerValue_ofInteger (i : Int) : integerValue (ofInteger i) = i := by
  rw [ofInteger]
  split
  · rw [integerValue, ofDigitChars_ofNatural]
    omega
  · have hsign : ∀ cs, ofNatural i.natAbs ≠ '-' :: cs := by
      intro cs h
      exact absurd ((digits_ofNatural i.natAbs).all '-' (by simp [h])) (by decide)
    rw [integerValue.eq_2 _ hsign, ofDigitChars_ofNatural]
    omega

namespace Json

mutual
def erased : Json → Erased
  | null => .null
  | boolean truth => .boolean truth
  | number numeral =>
    if isDecimal numeral then .decimal numeral
    else .integer (Int64.ofInt (Text.integerValue numeral))
  | text content => .text (String.ofList content)
  | array items => .array (erasedAll items)
  | object _ => .null

def erasedAll : List Json → List Erased
  | [] => []
  | item :: items => erased item :: erasedAll items
end

theorem erasedAll_eq_map (items : List Json) : erasedAll items = items.map erased := by
  induction items with
  | nil => rfl
  | cons item items ih => rw [erasedAll, ih, List.map_cons]

end Json

theorem Value.toJson_erase (v : Value) : v.erase.toJson = v.toJson := by
  induction v with
  | text | integer | boolean | null | operator => simp [erase, Erased.toJson, toJson]
  | float number => cases number <;> rfl
  | list items ih =>
    rw [erase, Erased.toJson, eraseAll_eq_map, Erased.toJsons_eq_map, List.map_map, toJson,
      toJsons_eq_map]
    exact congrArg Json.array (List.map_congr_left ih)
  | condition field comparator value ih => simp [erase, Erased.toJson, Erased.toJsons, toJson, ih]

theorem Binary64.erased_toJson (x : Binary64) : x.toJson.erased = x.erase := by
  cases x with
  | nan => rfl
  | infinite => rfl
  | finite negative x =>
    have hdecimal := (x.shortest .toEven).isDecimal_jsonNumeral
    have hsigned : Json.isDecimal ('-' :: (x.shortest .toEven).jsonNumeral) := by
      simpa [Json.isDecimal] using hdecimal
    cases negative <;> simp [toJson, erase, Json.erased, Json.write, hdecimal, hsigned]

/-- What is left of a value can be read off its form. -/
theorem Value.erased_toJson (v : Value) : v.toJson.erased = v.erase := by
  induction v with
  | text | boolean | null | operator => simp [toJson, Json.erased, erase]
  | integer number =>
    simp [toJson, Json.erased, erase, Json.isDecimal_ofInteger, Text.integerValue_ofInteger]
  | float number => exact number.erased_toJson
  | list items ih =>
    rw [toJson, Json.erased, toJsons_eq_map, Json.erasedAll_eq_map, List.map_map, erase,
      eraseAll_eq_map]
    exact congrArg Erased.array (List.map_congr_left ih)
  | condition field comparator value ih =>
    simp [toJson, Json.erased, Json.erasedAll, erase, ih]

theorem Value.toJson_eq_iff {v w : Value} : v.toJson = w.toJson ↔ v.erase = w.erase := by
  constructor
  · intro h
    rw [← v.erased_toJson, h, w.erased_toJson]
  · intro h
    rw [← v.toJson_erase, h, w.toJson_erase]

theorem Domain.toJson_toValue (domain : Domain) : domain.toValue.toJson = domain.toJson := by
  rw [toValue, Value.toJson, Value.toJsons_eq_map, List.map_map]
  rfl

theorem Domain.erase_toValue (domain : Domain) : domain.toValue.erase = domain.erase := by
  rw [toValue, Value.erase, Value.eraseAll_eq_map, List.map_map]
  rfl

end Form

section Faithful

namespace Erased

mutual
def toValue : Erased → Value
  | null => .null
  | boolean truth => .boolean truth
  | integer number => .integer number
  | decimal _ => .null
  | text content => .text content
  | array items => .list (toValues items)

def toValues : List Erased → List Value
  | [] => []
  | item :: items => toValue item :: toValues items
end

theorem toValues_eq_map (items : List Erased) : toValues items = items.map toValue := by
  induction items with
  | nil => rfl
  | cons item items ih => rw [toValues, ih, List.map_cons]

end Erased

namespace Value

theorem Faithful.toValue_erase {v : Value} (h : v.Faithful) : v.erase.toValue = v := by
  induction v with
  | text | integer | boolean | null => rfl
  | float number => exact absurd (h _ (mem_subvalues_self _)).1 (by simp [isFloat])
  | condition => exact absurd (h _ (mem_subvalues_self _)).2 (by simp [isNode, isCondition])
  | operator => exact absurd (h _ (mem_subvalues_self _)).2 (by simp [isNode, isOperator])
  | list items ih =>
    have hitems : ∀ item ∈ items, item.Faithful := (forall_subvalues_list.mp h).2
    have hmap : items.map (Erased.toValue ∘ erase) = items.map id :=
      List.map_congr_left fun item hi => ih item hi (hitems item hi)
    rw [erase, Erased.toValue, eraseAll_eq_map, Erased.toValues_eq_map, List.map_map, hmap,
      List.map_id]

theorem Faithful.eq_of_erase {v w : Value} (hv : v.Faithful) (hw : w.Faithful)
    (h : v.erase = w.erase) : v = w := by
  rw [← hv.toValue_erase, h, hw.toValue_erase]

end Value

theorem Operator.symbol_injective {op other : Operator} (h : op.symbol = other.symbol) :
    op = other := by
  have hread := ofSymbol?_symbol op
  rw [h, ofSymbol?_symbol] at hread
  exact (Option.some.inj hread).symm

theorem Node.Faithful.eq_of_erase {m n : Node} (hm : m.Faithful) (hn : n.Faithful)
    (h : m.toValue.erase = n.toValue.erase) : m = n := by
  cases m with
  | operator op =>
    cases n with
    | operator other =>
      have hsymbol : op.symbol = other.symbol := by simpa [toValue, Value.erase] using h
      rw [Operator.symbol_injective hsymbol]
    | condition d => simp [toValue, Value.erase] at h
  | condition c =>
    cases n with
    | operator other => simp [toValue, Value.erase] at h
    | condition d =>
      obtain ⟨field, comparator, value⟩ := c
      obtain ⟨field', comparator', value'⟩ := d
      obtain ⟨rfl, hcomparator, hvalue⟩ : field = field' ∧
          comparator.spelling = comparator'.spelling ∧ value.erase = value'.erase := by
        simpa [toValue, Value.erase] using h
      have hvalues : value = value' := Value.Faithful.eq_of_erase hm hn hvalue
      rw [Comparator.spelling_injective hcomparator, hvalues]

namespace Domain

theorem Faithful.eq_of_erase {domain other : Domain} (hd : domain.Faithful) (ho : other.Faithful)
    (h : domain.erase = other.erase) : domain = other := by
  induction domain generalizing other with
  | nil =>
    cases other with
    | nil => rfl
    | cons n other => simp [erase] at h
  | cons m domain ih =>
    cases other with
    | nil => simp [erase] at h
    | cons n other =>
      obtain ⟨hm, hdomain⟩ := List.forall_mem_cons.mp hd
      obtain ⟨hn, hother⟩ := List.forall_mem_cons.mp ho
      simp only [erase, List.map_cons, Erased.array.injEq, List.cons.injEq] at h
      rw [hm.eq_of_erase hn h.1, ih hdomain hother (congrArg Erased.array h.2)]

/-- The texts of two forms are equal just if the same is left of both domains, and so domains
without floats and without conditions or operators inside of values have different texts unless
they are equal. -/
theorem write_toJson_eq_iff (domain other : Domain) :
    (domain.toJson.write = other.toJson.write ↔ domain.erase = other.erase) ∧
      (domain.Faithful → other.Faithful → domain.toJson.write = other.toJson.write →
        domain = other) := by
  have herase : domain.toJson.write = other.toJson.write ↔ domain.erase = other.erase := by
    rw [domain.proper_toJson.write_inj other.proper_toJson, ← toJson_toValue, ← toJson_toValue,
      Value.toJson_eq_iff, erase_toValue, erase_toValue]
  exact ⟨herase, fun hd ho h => hd.eq_of_erase ho (herase.mp h)⟩

/-- An operator inside a value looks like the text of its symbol. -/
example : toJson [.condition ⟨"state", .equal, .operator .not⟩] =
    toJson [.condition ⟨"state", .equal, .text "!"⟩] := by rfl

end Domain

end Faithful
end QueryDomain

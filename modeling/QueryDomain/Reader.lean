import QueryDomain.Arity

/-! Reading values, conditions and domains from text. A text in square brackets is cut into parts,
a part in parentheses into field, comparator and value, and a value may again be such a text; all
recursion is on parts of the text. Square brackets are counted against a limit of nesting. -/
namespace QueryDomain

def defaultLimit : Nat := 32

namespace Text

def keyword? (cs : Text) : Option Value :=
  if cs = "True".toList ∨ cs = "true".toList then some (.boolean true)
  else if cs = "False".toList ∨ cs = "false".toList then some (.boolean false)
  else if cs = "None".toList ∨ cs = "none".toList then some .null
  else none

def integer? (cs : Text) : Option Value :=
  (natural? cs).bind fun n =>
    if n < 0x8000000000000000 then some (.integer (Int64.ofNat n)) else none

/-- A trimmed text that stands for a value without structure and is no bare text. -/
def scalar? (cs : Text) : Option Value :=
  (keyword? cs).or <| ((quotation? cs).map fun body => .text (String.ofList body)).or <|
    (integer? cs).or <| (decimal? cs).map fun d => .float (Binary64.ofDecimal d)

def isTuple (part : Text) : Bool := (interior? .round (trim part)).isSome

def isOperator (part : Text) : Bool :=
  ((quotation? (trim part)).bind fun body => Operator.ofSymbol? (trim body)).isSome

/-- A list is a domain if it has a tuple, and all else in it is a quoted operator or blank. -/
def formsDomain (parts : List Text) : Bool :=
  parts.any isTuple && parts.all fun part => trim part = [] || isTuple part || isOperator part

end Text

open Text

def descend (limit depth : Nat) : Except Fault Nat :=
  if depth < limit then .ok (depth + 1) else .error (.tooDeep limit)

mutual
/-- Brackets make a list, and a text that is nothing else is a value as it stands. -/
def readValue (limit depth : Nat) (cs : Text) : Except Fault Value :=
  match scalar? (trim cs) with
  | some v => .ok v
  | none =>
    match _ : interior? .square (trim cs) with
    | none => .ok (.text (String.ofList (trim cs)))
    | some inner =>
      match _ : cut inner with
      | .error cause => .error (.unbalanced cause inner)
      | .ok parts => do
        let depth ← descend limit depth
        if formsDomain parts then
          let nodes ← readNodes limit depth (trim cs) parts
          let nodes ← Domain.validate nodes
          return nodes.toValue
        else
          let items ← readItems limit depth (trim cs) parts
          return .list items
termination_by cs.length
decreasing_by
  all_goals
    have hc := length_trim_le cs
    have hl := length_interior? ‹_›
    have hw := weight_cut ‹_›
    omega

/-- The members of a domain; only the last part may be blank. -/
def readNodes (limit depth : Nat) (whole : Text) (parts : List Text) :
    Except Fault (List Node) :=
  match parts with
  | [] => .ok []
  | part :: more =>
    if trim part = [] then
      if more = [] then .ok [] else .error (.emptyTerm whole)
    else do
      let node ← readNode limit depth (trim part)
      let nodes ← readNodes limit depth whole more
      return node :: nodes
termination_by weight parts
decreasing_by
  all_goals
    have hc := length_trim_le part
    simp only [weight]
    omega

def readItems (limit depth : Nat) (whole : Text) (parts : List Text) :
    Except Fault (List Value) :=
  match parts with
  | [] => .ok []
  | part :: more =>
    if trim part = [] then
      if more = [] then .ok [] else .error (.emptyElement whole)
    else do
      let item ←
        match _ : interior? .round (trim part) with
        | some inner => do
          let c ← readCondition limit depth inner
          pure (.condition c.field c.comparator c.value)
        | none => readValue limit depth part
      let items ← readItems limit depth whole more
      return item :: items
termination_by weight parts
decreasing_by
  · simp only [weight]
    omega
  · have hc := length_trim_le part
    have hl := length_interior? ‹_›
    simp only [weight]
    omega
  · simp only [weight]
    omega

/-- A tuple is a condition, and a quotation is an operator. -/
def readNode (limit depth : Nat) (term : Text) : Except Fault Node :=
  match _ : interior? .round term with
  | some inner => do
    let c ← readCondition limit depth inner
    return .condition c
  | none =>
    match quotation? term with
    | none => .error (.unexpectedTerm term)
    | some body =>
      match Operator.ofSymbol? (trim body) with
      | some op => .ok (.operator op)
      | none => .error (.unknownOperator term)
termination_by term.length
decreasing_by
  have hl := length_interior? ‹_›
  omega

/-- Field, comparator and value between two commas; further commas belong to the value. -/
def readCondition (limit depth : Nat) (inner : Text) : Except Fault Condition :=
  match _ : cutAtMost 3 inner with
  | .error cause => .error (.unbalanced cause inner)
  | .ok [field, comparator, value] => do
    if unquote field = [] then throw (.emptyField (trim inner))
    if unquote comparator = [] then throw (.emptyComparator (trim inner))
    let known ← Comparator.read (unquote comparator)
    let value ← readValue limit depth value
    if value.isBlank then throw (.emptyValue (unquote field))
    return ⟨String.ofList (unquote field), known, value⟩
  | .ok _ => .error (.notTriple (trim inner))
termination_by inner.length + 1
decreasing_by
  have hw := weight_cutAtMost ‹_›
  simp only [weight] at hw
  omega
end

/-- The domain in square brackets that a text is; a blank text is the empty domain. -/
def Domain.read (limit : Nat) (text : String) : Except Fault Domain :=
  let cs := trim text.toList
  if cs = [] then .ok []
  else do
    let depth ← descend limit 0
    match interior? .square cs with
    | none => throw (.notBracketed cs)
    | some inner =>
      match cut inner with
      | .error cause => throw (.unbalanced cause inner)
      | .ok parts =>
        let nodes ← readNodes limit depth cs parts
        Domain.validate nodes

def Value.read (text : String) : Except Fault Value := readValue defaultLimit 0 text.toList

end QueryDomain

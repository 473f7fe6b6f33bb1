import QueryDomain.Fault
import QueryDomain.Number

/-! Values, conditions and domains. A domain is a sequence of operators and conditions in prefix
order; inside a value, a list of operators and conditions is a domain of its own. Each comparator
of a condition has one spelling, in which one space stands between words; other blanks around and
between the words are dropped when a comparator is read. -/
namespace QueryDomain

inductive Comparator
  | equal
  | notEqual
  | greater
  | atLeast
  | less
  | atMost
  | equalOrUnset
  | like
  | notLike
  | ilike
  | notIlike
  | equalIlike
  | isIn
  | isNotIn
  | childOf
  | parentOf
  | any
  | notAny
  deriving DecidableEq, Repr

namespace Comparator

def all : List Comparator :=
  [equal, notEqual, greater, atLeast, less, atMost, equalOrUnset, like, notLike, ilike, notIlike,
    equalIlike, isIn, isNotIn, childOf, parentOf, any, notAny]

def spelling : Comparator → String
  | equal => "="
  | notEqual => "!="
  | greater => ">"
  | atLeast => ">="
  | less => "<"
  | atMost => "<="
  | equalOrUnset => "=?"
  | like => "like"
  | notLike => "not like"
  | ilike => "ilike"
  | notIlike => "not ilike"
  | equalIlike => "=ilike"
  | isIn => "in"
  | isNotIn => "not in"
  | childOf => "child_of"
  | parentOf => "parent_of"
  | any => "any"
  | notAny => "not any"

def normalize (cs : Text) : Text := [' '].intercalate (Text.words cs)

/-- Case matters, blanks do not; the fault shows the text as it was given. -/
def read (cs : Text) : Except Fault Comparator :=
  match all.find? fun c => c.spelling.toList = normalize cs with
  | some c => .ok c
  | none => .error (.unknownComparator cs)

theorem mem_all (c : Comparator) : c ∈ all := by cases c <;> decide

theorem spelling_injective {c d : Comparator} (h : c.spelling = d.spelling) : c = d := by
  have hall : ∀ c ∈ all, ∀ d ∈ all, c.spelling = d.spelling → c = d := by decide
  exact hall c (mem_all c) d (mem_all d) h

end Comparator

inductive Value
  | text (content : String)
  | integer (number : Int64)
  | float (number : Binary64)
  | boolean (truth : Bool)
  | null
  | list (items : List Value)
  | condition (field : String) (comparator : Comparator) (value : Value)
  | operator (operator : Operator)

structure Condition where
  field : String
  comparator : Comparator
  value : Value

inductive Node
  | operator (operator : Operator)
  | condition (condition : Condition)

/-- Conditions that no operator takes are joined by "and"; the empty domain matches everything. -/
abbrev Domain := List Node

def Node.toValue : Node → Value
  | operator op => .operator op
  | condition c => .condition c.field c.comparator c.value

namespace Value

def toNode? : Value → Option Node
  | condition field comparator value => some (.condition ⟨field, comparator, value⟩)
  | operator op => some (.operator op)
  | _ => none

/-- The domain that a list is, if it has items and all of them are conditions or operators. -/
def subDomain? : Value → Option Domain
  | list [] => none
  | list items => items.mapM toNode?
  | _ => none

def isBlank : Value → Bool
  | text content => Text.trim content.toList = []
  | _ => false

mutual
/-- Equality of structure, in which numbers are equal as numbers. -/
def same : Value → Value → Bool
  | text a, text b => a = b
  | integer a, integer b => a = b
  | float a, float b => a.same b
  | boolean a, boolean b => a = b
  | null, null => true
  | list as, list bs => sameAll as bs
  | condition f c a, condition g d b => f = g && c = d && same a b
  | operator a, operator b => a = b
  | _, _ => false

def sameAll : List Value → List Value → Bool
  | [], [] => true
  | a :: as, b :: bs => same a b && sameAll as bs
  | _, _ => false
end

@[simp] theorem toNode?_toValue (n : Node) : n.toValue.toNode? = some n := by cases n <;> rfl

theorem toValue_of_toNode? {v : Value} {n : Node} (h : v.toNode? = some n) : n.toValue = v := by
  cases v <;> cases h <;> rfl

end Value

namespace Domain

def toValue (domain : Domain) : Value := .list (domain.map Node.toValue)

def same (a b : Domain) : Bool := a.toValue.same b.toValue

def conditions (domain : Domain) : List Condition :=
  domain.filterMap fun
    | .condition c => some c
    | .operator _ => none

theorem mapM_toNode?_toValue (domain : Domain) :
    (domain.map Node.toValue).mapM Value.toNode? = some domain := by
  induction domain with
  | nil => rfl
  | cons n ns ih => simp [List.mapM_cons, ih]

end Domain

/-! The depth of values and domains: how many pairs of square brackets lie around the innermost
ones of the literal form. Conditions add none. -/

namespace Value

mutual
def depth : Value → Nat
  | list items => 1 + depths items
  | condition _ _ value => depth value
  | _ => 0

def depths : List Value → Nat
  | [] => 0
  | item :: items => max (depth item) (depths items)
end

theorem depth_le_depths {item : Value} {items : List Value} (h : item ∈ items) :
    item.depth ≤ depths items := by
  induction items with
  | nil => cases h
  | cons other items ih =>
    rw [depths]
    cases h with
    | head => exact Nat.le_max_left _ _
    | tail _ h => exact Nat.le_trans (ih h) (Nat.le_max_right _ _)

end Value

/-- The domain's own brackets count. -/
def Domain.depth (domain : Domain) : Nat := domain.toValue.depth

theorem Domain.depth_pos (domain : Domain) : 0 < domain.depth := by
  simp only [depth, toValue, Value.depth]
  omega

/-! The literal form of values and domains, in which they are also read. Numbers with a sign or
without an end, and texts with both quotes, are written too, but the reader takes them for other
values. -/

namespace Binary64

def signed (negative : Bool) (cs : Text) : Text := if negative then '-' :: cs else cs

/-- Never an exponent, and always a point in a finite number. -/
def literal : Binary64 → Text
  | nan => "NaN".toList
  | infinite negative => signed negative "inf".toList
  | finite negative x => signed negative (x.shortest .up).positional

end Binary64

def Operator.literal (op : Operator) : Text := Text.quote [op.symbol]

namespace Value

mutual
def literal : Value → Text
  | text content => Text.quote content.toList
  | integer number => Text.ofInteger number.toInt
  | float number => number.literal
  | boolean true => "True".toList
  | boolean false => "False".toList
  | null => "None".toList
  | list items => '[' :: [',', ' '].intercalate (literals items) ++ [']']
  | condition field comparator value =>
    '(' :: Text.quote field.toList ++ ',' :: ' ' :: Text.quote comparator.spelling.toList ++
      ',' :: ' ' :: literal value ++ [')']
  | operator op => op.literal

def literals : List Value → List Text
  | [] => []
  | item :: items => literal item :: literals items
end

@[simp] theorem literals_eq_map (items : List Value) : literals items = items.map literal := by
  induction items with
  | nil => rfl
  | cons item items ih => rw [literals, ih, List.map_cons]

def render (value : Value) : String := String.ofList value.literal

end Value

namespace Domain

def literal (domain : Domain) : Text := domain.toValue.literal

def render (domain : Domain) : String := String.ofList domain.literal

end Domain
end QueryDomain

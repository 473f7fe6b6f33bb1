import QueryDomain.Text.Nesting

/-! The logical operators, which stand before their operands, and the causes for which a text is
refused, with the message for each. A sequence of steps that may fail succeeds exactly if every step
does. -/
namespace QueryDomain

inductive Operator
  | not
  | and
  | or
  deriving DecidableEq, Repr

namespace Operator

def symbol : Operator → Char
  | not => '!'
  | and => '&'
  | or => '|'

def arity : Operator → Nat
  | not => 1
  | and => 2
  | or => 2

/-- A symbol is written alone, without blanks around it. -/
def ofSymbol? : Text → Option Operator
  | ['!'] => some not
  | ['&'] => some and
  | ['|'] => some or
  | _ => none

@[simp] theorem ofSymbol?_symbol (op : Operator) : ofSymbol? [op.symbol] = some op := by
  cases op <;> rfl

theorem eq_of_ofSymbol? {cs : Text} {op : Operator} (h : ofSymbol? cs = some op) :
    cs = [op.symbol] := by
  unfold ofSymbol? at h
  split at h <;> cases h <;> rfl

theorem arity_pos (op : Operator) : 0 < op.arity := by cases op <;> decide

end Operator

/-- Texts are the ones the message shows: an interior as it stands, everything else trimmed. -/
inductive Fault
  | unbalanced (cause : Imbalance) (interior : Text)
  | tooDeep (limit : Nat)
  | notBracketed (domain : Text)
  | emptyTerm (domain : Text)
  | unknownOperator (term : Text)
  | unexpectedTerm (term : Text)
  | emptyElement (list : Text)
  | notTriple (interior : Text)
  | emptyField (interior : Text)
  | emptyComparator (interior : Text)
  | unknownComparator (comparator : Text)
  | emptyValue (field : Text)
  | missingOperand (operator : Operator) (position : Nat)
  deriving DecidableEq, Repr

inductive FaultKind
  | shape
  | comparator
  | members
  | operands (operator : Operator) (position : Nat)
  deriving DecidableEq, Repr

def Imbalance.message (text : Text) : Imbalance → String
  | strayCloser closer offset =>
    "unbalanced '" ++ String.ofList [closer] ++ "' at byte " ++ toString offset ++ " in `" ++
      String.ofList text ++ "`"
  | openQuote quote =>
    "unterminated " ++ String.ofList [quote] ++ " quote in `" ++ String.ofList text ++ "`"
  | openGroup bracket =>
    "missing '" ++ String.ofList [bracket.closing] ++ "' in `" ++ String.ofList text ++ "`"

namespace Fault

def kind : Fault → FaultKind
  | unbalanced .. | tooDeep .. | notBracketed .. | emptyTerm .. | unknownOperator ..
  | unexpectedTerm .. | emptyElement .. => .shape
  | unknownComparator .. => .comparator
  | notTriple .. | emptyField .. | emptyComparator .. | emptyValue .. => .members
  | missingOperand operator position => .operands operator position

/-- What is wrong, without the kind of the fault before it. -/
def detail : Fault → String
  | unbalanced cause interior => cause.message interior
  | tooDeep limit => "nesting exceeds the maximum depth of " ++ toString limit
  | notBracketed domain =>
    "domain must be enclosed in square brackets: `" ++ String.ofList domain ++ "`"
  | emptyTerm domain => "empty term in `" ++ String.ofList domain ++ "`"
  | unknownOperator term => "unknown operator " ++ String.ofList term
  | unexpectedTerm term => "unexpected term `" ++ String.ofList term ++ "`"
  | emptyElement list => "empty element in list `" ++ String.ofList list ++ "`"
  | notTriple interior =>
    "expected (field, comparator, value), got (" ++ String.ofList interior ++ ")"
  | emptyField interior => "empty field in (" ++ String.ofList interior ++ ")"
  | emptyComparator interior => "empty comparator in (" ++ String.ofList interior ++ ")"
  | unknownComparator comparator => "`" ++ String.ofList comparator ++ "`"
  | emptyValue field => "empty value for field `" ++ String.ofList field ++ "`"
  | missingOperand _ position => "at position " ++ toString position

def message (fault : Fault) : String :=
  match fault.kind with
  | .shape => "invalid syntax: " ++ fault.detail
  | .comparator => "invalid comparator " ++ fault.detail
  | .members => "invalid term values: " ++ fault.detail
  | .operands .not _ => "not enough NOT terms for operator " ++ fault.detail
  | .operands _ _ => "not enough AND/OR terms for operator " ++ fault.detail

end Fault

namespace Outcome

variable {ε α β : Type}

@[simp] theorem ok_bind (a : α) (f : α → Except ε β) : (Except.ok a >>= f) = f a := rfl

@[simp] theorem error_bind (e : ε) (f : α → Except ε β) :
    (Except.error e >>= f) = .error e := rfl

theorem map_eq_ok_iff {x : Except ε α} {f : α → β} {b : β} :
    x.map f = .ok b ↔ ∃ a, x = .ok a ∧ f a = b := by
  cases x <;> simp [Except.map]

theorem bind_eq_ok_iff {x : Except ε α} {f : α → Except ε β} {b : β} :
    x >>= f = .ok b ↔ ∃ a, x = .ok a ∧ f a = .ok b := by
  cases x <;> simp [bind, Except.bind]

theorem pure_eq_ok_iff {a b : α} : (pure a : Except ε α) = .ok b ↔ a = b := by
  simp [pure, Except.pure]

theorem throw_ne_ok {e : ε} {b : α} : (throw e : Except ε α) ≠ .ok b := by
  simp [throw, throwThe, MonadExceptOf.throw]

end Outcome
end QueryDomain

import QueryDomain.Value

/-! Domains put together step by step. An operator is written in front of its operands, and these
are spliced in as they are, whatever number of complete operands they hold. -/
namespace QueryDomain

structure Builder where
  domain : Domain

namespace Builder

def empty : Builder := ⟨[]⟩

def add (b : Builder) (c : Condition) : Builder := ⟨b.domain ++ [.condition c]⟩

def term (b : Builder) (field : String) (comparator : Comparator) (value : Value) : Builder :=
  b.add ⟨field, comparator, value⟩

def extend (b : Builder) (more : Domain) : Builder := ⟨b.domain ++ more⟩

/-- An operator followed by its operands, one behind the other. -/
def combine (b : Builder) (op : Operator) (operands : List Domain) : Builder :=
  ⟨b.domain ++ .operator op :: operands.flatten⟩

def not (b : Builder) (operand : Domain) : Builder := b.combine .not [operand]

def and (b : Builder) (lhs rhs : Domain) : Builder := b.combine .and [lhs, rhs]

def or (b : Builder) (lhs rhs : Domain) : Builder := b.combine .or [lhs, rhs]

end Builder
end QueryDomain

import QueryDomain.Value

/-! The arity rule. An operand is a condition or an operator with its own operands, so reading a
domain from left to right keeps the operators that still miss operands, the innermost on top.

The same rule by recursion: a chain is a condition, or an operator followed by as many chains as it
has operands, and a domain is accepted if it is a sequence of chains. -/
namespace QueryDomain

/-- An operator, its place in the domain, and the number of operands it still misses. -/
structure Demand where
  position : Nat
  operator : Operator
  owed : Nat
  deriving DecidableEq, Repr

namespace Demand

/-- One operand is complete: an operator that has its last one is itself an operand of the next. -/
def settle : List Demand → List Demand
  | [] => []
  | d :: outer =>
    if 0 < d.owed - 1 then { d with owed := d.owed - 1 } :: outer else settle outer

def advance (pending : List Demand) (position : Nat) : Node → List Demand
  | .operator op => ⟨position, op, op.arity⟩ :: pending
  | .condition _ => settle pending

end Demand

namespace Domain

/-- The demands that are open behind the nodes, the first of which has the given position. -/
def pendingFrom (pending : List Demand) (position : Nat) : Domain → List Demand
  | [] => pending
  | n :: ns => pendingFrom (Demand.advance pending position n) (position + 1) ns

/-- Accepts a domain in which no operand is missing, or names the innermost operator that misses
one at the end. -/
def check (domain : Domain) : Except Fault Unit :=
  match pendingFrom [] 0 domain with
  | [] => .ok ()
  | d :: _ => .error (.missingOperand d.operator d.position)

def validate (domain : Domain) : Except Fault Domain := (check domain).map fun _ => domain

/-- The number of nodes in the chain that starts with the given node. Where an operand would
start behind the end, the operator that asks for it is missing an operand. -/
def chain (position : Nat) (n : Node) (ns : Domain) : Except Fault Nat :=
  match n with
  | .condition _ => .ok 1
  | .operator op =>
    match ns with
    | [] => .error (.missingOperand op position)
    | m :: ms => do
      let first ← chain (position + 1) m ms
      if op.arity = 1 then return 1 + first
      match _ : (m :: ms).drop first with
      | [] => throw (.missingOperand op position)
      | k :: ks => do
        let second ← chain (position + 1 + first) k ks
        return 1 + first + second
termination_by ns.length
decreasing_by
  · simp
  · have hl := congrArg List.length ‹List.drop _ (m :: ms) = _›
    simp only [List.length_drop, List.length_cons] at *
    omega

def chainsFrom (position : Nat) (domain : Domain) : Except Fault Nat :=
  match domain with
  | [] => .ok 0
  | n :: ns => do
    let size ← chain position n ns
    let more ← chainsFrom (position + size) (ns.drop (size - 1))
    return more + 1
termination_by domain.length
decreasing_by
  simp only [List.length_drop, List.length_cons]
  omega

def chains (domain : Domain) : Except Fault Nat := chainsFrom 0 domain

end Domain
end QueryDomain

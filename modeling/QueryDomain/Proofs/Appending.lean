import QueryDomain.Proofs.Demands

/-! What the nodes put behind a domain do to its arity. Behind an accepted domain everything is as it
would be alone, only further back. Behind another one each condition is one of the operands that are
still missing, until there are enough of them. -/
namespace QueryDomain

namespace Demand

def shift (distance : Nat) (d : Demand) : Demand := { d with position := d.position + distance }

/-- The number of operands that settle all of the demands. The last one of each is an operand of the
next, so only the others are counted with it. -/
def missing : List Demand → Nat
  | [] => 0
  | d :: outer => d.owed - 1 + max 1 (missing outer)

theorem settle_shift (distance : Nat) (pending : List Demand) :
    settle (pending.map (shift distance)) = (settle pending).map (shift distance) := by
  induction pending with
  | nil => rfl
  | cons d outer ih =>
    have howed : (shift distance d).owed = d.owed := rfl
    rw [List.map_cons, settle, settle, howed]
    split
    · rfl
    · exact ih

theorem missing_eq_zero_iff {pending : List Demand} : missing pending = 0 ↔ pending = [] := by
  cases pending with
  | nil => simp [missing]
  | cons d outer =>
    have hone : 1 ≤ max 1 (missing outer) := Nat.le_max_left ..
    simp only [missing, reduceCtorEq, iff_false]
    omega

/-- One operand more is one less that is missing, however many demands it settles. -/
theorem missing_settle (pending : List Demand) : missing (settle pending) = missing pending - 1 := by
  induction pending with
  | nil => rfl
  | cons d outer ih =>
    rw [settle]
    split
    · simp only [missing]
      omega
    · rw [ih, missing]
      omega

end Demand

namespace Domain

open Demand

section Shifting

theorem pendingFrom_shift (distance : Nat) (pending : List Demand) (position : Nat)
    (domain : Domain) :
    pendingFrom (pending.map (shift distance)) (position + distance) domain =
      (pendingFrom pending position domain).map (shift distance) := by
  induction domain generalizing pending position with
  | nil => rfl
  | cons n ns ih =>
    have hadvance : advance (pending.map (shift distance)) (position + distance) n =
        (advance pending position n).map (shift distance) := by
      cases n with
      | operator op => rfl
      | condition c => exact settle_shift distance pending
    rw [pendingFrom, hadvance, Nat.add_right_comm, ih, pendingFrom]

theorem check_eq_ok_iff_demands {domain : Domain} : domain.check = .ok () ↔ domain.demands = [] :=
  check_eq_ok_iff

theorem check_eq_error_iff {domain : Domain} {fault : Fault} :
    domain.check = .error fault ↔ Blames domain.demands fault := by
  rw [check, Blames, demands]
  cases pendingFrom [] 0 domain with
  | nil => simp
  | cons d outer => simp [eq_comm]

theorem demands_append_of_check {domain : Domain} (h : domain.check = .ok ()) (other : Domain) :
    (domain ++ other).demands = other.demands.map (shift domain.length) := by
  have hshift := pendingFrom_shift domain.length [] 0 other
  rw [List.map_nil, Nat.zero_add] at hshift
  rw [demands_append, check_eq_ok_iff_demands.mp h, hshift, demands]

end Shifting

section Completing

/-- The number of conditions that a domain must have behind it to be accepted. -/
def missingCount (domain : Domain) : Nat := missing domain.demands

theorem missingCount_eq_zero_iff {domain : Domain} :
    domain.missingCount = 0 ↔ domain.check = .ok () := by
  rw [missingCount, missing_eq_zero_iff, check_eq_ok_iff_demands]

theorem missingCount_append_condition (domain : Domain) (c : Condition) :
    (domain ++ [Node.condition c]).missingCount = domain.missingCount - 1 := by
  rw [missingCount, demands_append]
  exact missing_settle domain.demands

theorem missingCount_append_conditions (domain : Domain) (conditions : List Condition) :
    (domain ++ conditions.map Node.condition).missingCount =
      domain.missingCount - conditions.length := by
  induction conditions generalizing domain with
  | nil => rw [List.map_nil, List.append_nil, List.length_nil, Nat.sub_zero]
  | cons c conditions ih =>
    rw [List.map_cons, ← List.singleton_append, ← List.append_assoc, ih,
      missingCount_append_condition, List.length_cons, Nat.sub_sub, Nat.add_comm 1]

end Completing

/-- What is put behind an accepted domain is accepted or refused as it is alone, with the blame moved
by the length of the domain. A domain that is refused is accepted as soon as enough conditions stand
behind it, and from then on. -/
theorem check_append_exact (domain : Domain) :
    (domain.check = .ok () → ∀ other : Domain,
        ((domain ++ other).check = .ok () ↔ other.check = .ok ()) ∧
          ∀ fault, other.check = .error fault → ∃ op position,
            fault = .missingOperand op position ∧
              (domain ++ other).check = .error (.missingOperand op (position + domain.length))) ∧
      (domain.check ≠ .ok () → ∃ count, 1 ≤ count ∧ ∀ conditions : List Condition,
        (domain ++ conditions.map Node.condition).check = .ok () ↔ count ≤ conditions.length) := by
  constructor
  · intro h other
    have hdemands := demands_append_of_check h other
    constructor
    · rw [check_eq_ok_iff_demands, check_eq_ok_iff_demands, hdemands, List.map_eq_nil_iff]
    · intro fault hfault
      obtain ⟨d, outer, hother, rfl⟩ := check_eq_error_iff.mp hfault
      refine ⟨d.operator, d.position, rfl, check_eq_error_iff.mpr ?_⟩
      exact ⟨d.shift domain.length, outer.map (shift domain.length),
        by rw [hdemands, hother, List.map_cons], rfl⟩
  · intro h
    have hpos : domain.missingCount ≠ 0 := fun hzero => h (missingCount_eq_zero_iff.mp hzero)
    refine ⟨domain.missingCount, Nat.one_le_iff_ne_zero.mpr hpos, fun conditions => ?_⟩
    rw [← missingCount_eq_zero_iff, missingCount_append_conditions, Nat.sub_eq_zero_iff_le]

/-- The operator that is blamed stands behind the two nodes of an accepted domain; with enough
conditions behind it an "and" is accepted. -/
theorem check_append_exact_and :
    check ([.operator .not, .condition ⟨"a", .equal, .null⟩] ++ [.operator .or]) =
        .error (.missingOperand .or 2) ∧
      ∃ count, 1 ≤ count ∧ ∀ conditions : List Condition,
        check ([.operator .and] ++ conditions.map Node.condition) = .ok () ↔
          count ≤ conditions.length := by
  obtain ⟨haccepted, -⟩ :=
    check_append_exact [.operator .not, .condition ⟨"a", .equal, .null⟩]
  obtain ⟨-, hrefused⟩ := check_append_exact [.operator .and]
  obtain ⟨-, hfault⟩ := haccepted rfl [.operator .or]
  obtain ⟨op, position, heq, hcheck⟩ := hfault (.missingOperand .or 0) rfl
  cases heq
  exact ⟨hcheck, hrefused (by simp [check, pendingFrom, advance])⟩

end Domain
end QueryDomain

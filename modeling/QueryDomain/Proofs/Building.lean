import QueryDomain.Builder
import QueryDomain.Proofs.Chains

/-! Domains that are built call by call. A call does not look at its operands, so an operator can
be left without; what is built is accepted just if every operator finds its operands behind it,
which is so whenever none of them is empty. -/
namespace QueryDomain
namespace Builder

open Domain

mutual
/-- The calls made on an empty builder, the last one outermost. -/
inductive Run
  | start
  | term (run : Run) (field : String) (comparator : Comparator) (value : Value)
  | add (run : Run) (condition : Condition)
  | extend (run : Run) (operand : Operand)
  | not (run : Run) (operand : Operand)
  | and (run : Run) (lhs rhs : Operand)
  | or (run : Run) (lhs rhs : Operand)

/-- What a call is given: a condition, or what another run has built. -/
inductive Operand
  | condition (condition : Condition)
  | built (run : Run)
end

mutual
def Run.builder : Run → Builder
  | .start => empty
  | .term run field comparator value => run.builder.term field comparator value
  | .add run c => run.builder.add c
  | .extend run operand => run.builder.extend operand.domain
  | .not run operand => run.builder.not operand.domain
  | .and run lhs rhs => run.builder.and lhs.domain rhs.domain
  | .or run lhs rhs => run.builder.or lhs.domain rhs.domain

def Operand.domain : Operand → Domain
  | .condition c => [.condition c]
  | .built run => run.builder.domain
end

mutual
/-- The number of chains that a run makes with as many more behind it as are given; none if an
operator finds too few. The last call is counted first. -/
def Run.tally : Run → Nat → Option Nat
  | .start, behind => some behind
  | .term run _ _ _, behind => run.tally (behind + 1)
  | .add run _, behind => run.tally (behind + 1)
  | .extend run operand, behind => do
    run.tally (← operand.tally behind)
  | .not run operand, behind => do
    let count ← operand.tally behind
    run.tally (← Operator.not.gather count)
  | .and run lhs rhs, behind => do
    let count ← lhs.tally (← rhs.tally behind)
    run.tally (← Operator.and.gather count)
  | .or run lhs rhs, behind => do
    let count ← lhs.tally (← rhs.tally behind)
    run.tally (← Operator.or.gather count)

def Operand.tally : Operand → Nat → Option Nat
  | .condition _, behind => some (behind + 1)
  | .built run, behind => run.tally behind
end

mutual
/-- Whether no operator of a run is given anything empty, at any depth. -/
def Run.Filled : Run → Prop
  | .start => True
  | .term run _ _ _ => run.Filled
  | .add run _ => run.Filled
  | .extend run operand => run.Filled ∧ operand.Filled
  | .not run operand => run.Filled ∧ operand.Filled ∧ operand.domain ≠ []
  | .and run lhs rhs =>
    run.Filled ∧ (lhs.Filled ∧ lhs.domain ≠ []) ∧ rhs.Filled ∧ rhs.domain ≠ []
  | .or run lhs rhs =>
    run.Filled ∧ (lhs.Filled ∧ lhs.domain ≠ []) ∧ rhs.Filled ∧ rhs.domain ≠ []

def Operand.Filled : Operand → Prop
  | .condition _ => True
  | .built run => run.Filled
end

section Counting

variable (b : Builder) (op : Operator) (behind : Nat)

theorem tally_combine_one (operand : Domain) :
    tally behind (b.combine op [operand]).domain =
      (tally behind operand).bind fun count => (op.gather count).bind (tally · b.domain) := by
  rw [combine, tally_append, tally, List.flatten_singleton, Option.bind_assoc]

theorem tally_combine_two (lhs rhs : Domain) :
    tally behind (b.combine op [lhs, rhs]).domain =
      (tally behind rhs).bind fun count => (tally count lhs).bind fun count =>
        (op.gather count).bind (tally · b.domain) := by
  have hflat : [lhs, rhs].flatten = lhs ++ rhs := by simp
  rw [combine, tally_append, tally, hflat, tally_append, Option.bind_assoc, Option.bind_assoc]

end Counting

mutual
/-- What a run comes to can be counted without building it. -/
theorem Run.tally_domain (run : Run) (behind : Nat) :
    Domain.tally behind run.builder.domain = run.tally behind := by
  cases run with
  | start => rfl
  | term run field comparator value =>
    exact (tally_append behind _ _).trans (run.tally_domain (behind + 1))
  | add run c => exact (tally_append behind _ _).trans (run.tally_domain (behind + 1))
  | extend run operand =>
    have happend := tally_append behind run.builder.domain operand.domain
    simp only [operand.tally_domain, run.tally_domain] at happend
    exact happend
  | not run operand =>
    have hcombine := tally_combine_one run.builder .not behind operand.domain
    simp only [operand.tally_domain, run.tally_domain] at hcombine
    exact hcombine
  | and run lhs rhs | or run lhs rhs =>
    refine (tally_combine_two run.builder _ behind lhs.domain rhs.domain).trans ?_
    simp only [lhs.tally_domain, rhs.tally_domain, run.tally_domain]
    rfl

theorem Operand.tally_domain (operand : Operand) (behind : Nat) :
    Domain.tally behind operand.domain = operand.tally behind := by
  cases operand with
  | condition c => rfl
  | built run => exact run.tally_domain behind
end

/-- A later call may bring what the operands of an operator lack. -/
example (c : Condition) : ((Run.start.not (.built .start)).add c).tally 0 = some 1 := rfl

section Operands

variable {operands : List Domain}

theorem exists_madeOf_flatten
    (h : ∀ operand ∈ operands, operand ≠ [] ∧ ∃ parts, MadeOf parts operand) :
    ∃ parts, MadeOf parts operands.flatten ∧ operands.length ≤ parts.length := by
  induction operands with
  | nil => exact ⟨[], .nil, Nat.le_refl _⟩
  | cons operand operands ih =>
    obtain ⟨hne, parts, hparts⟩ := h operand (by simp)
    obtain ⟨others, hothers, hlen⟩ := ih fun operand ho => h operand (by simp [ho])
    have hpos : 0 < parts.length := hparts.length_pos hne
    refine ⟨parts ++ others, hparts.append hothers, ?_⟩
    rw [List.length_cons, List.length_append]
    omega

theorem exists_madeOf_combine {b : Builder} {op : Operator}
    (hb : ∃ parts, MadeOf parts b.domain)
    (h : ∀ operand ∈ operands, operand ≠ [] ∧ ∃ parts, MadeOf parts operand)
    (hlen : operands.length = op.arity) :
    ∃ parts, MadeOf parts (b.combine op operands).domain := by
  obtain ⟨parts, hparts⟩ := hb
  obtain ⟨others, hothers, hle⟩ := exists_madeOf_flatten h
  exact ⟨_, hparts.append (hothers.operator (hlen ▸ hle))⟩

end Operands

mutual
theorem Run.Filled.exists_madeOf {run : Run} (h : run.Filled) :
    ∃ parts, MadeOf parts run.builder.domain := by
  cases run with
  | start => exact ⟨[], .nil⟩
  | term run field comparator value =>
    have hrun : run.Filled := h
    obtain ⟨parts, hparts⟩ := hrun.exists_madeOf
    exact ⟨_, hparts.append (.condition ⟨field, comparator, value⟩)⟩
  | add run c =>
    have hrun : run.Filled := h
    obtain ⟨parts, hparts⟩ := hrun.exists_madeOf
    exact ⟨_, hparts.append (.condition c)⟩
  | extend run operand =>
    obtain ⟨parts, hparts⟩ := h.1.exists_madeOf
    obtain ⟨others, hothers⟩ := h.2.exists_madeOf
    exact ⟨_, hparts.append hothers⟩
  | not run operand =>
    obtain ⟨hrun, ho, hne⟩ := h
    exact exists_madeOf_combine hrun.exists_madeOf (by simp [hne, ho.exists_madeOf]) rfl
  | and run lhs rhs | or run lhs rhs =>
    obtain ⟨hrun, ⟨hl, hl₀⟩, hr, hr₀⟩ := h
    exact exists_madeOf_combine hrun.exists_madeOf
      (by simp [hl₀, hr₀, hl.exists_madeOf, hr.exists_madeOf]) rfl

theorem Operand.Filled.exists_madeOf {operand : Operand} (h : operand.Filled) :
    ∃ parts, MadeOf parts operand.domain := by
  cases operand with
  | condition c => exact ⟨_, .condition c⟩
  | built run =>
    have hrun : run.Filled := h
    exact hrun.exists_madeOf
end

/-- What is built is accepted just if every operator finds its operands, and is then handed back
as it is; it is enough that no operator has been given anything empty. -/
theorem validate_built_iff (run : Run) :
    (run.builder.domain.validate = .ok run.builder.domain ↔ ∃ count, run.tally 0 = some count) ∧
      (run.Filled → run.builder.domain.validate = .ok run.builder.domain) := by
  constructor
  · rw [validate_eq_ok_iff, check_eq_ok_iff_tally, run.tally_domain]
    simp
  · intro h
    exact validate_eq_ok_iff.mpr ⟨check_eq_ok_iff_madeOf.mpr h.exists_madeOf, rfl⟩

/-- Nothing is there for an operator that is given an empty domain and comes last. -/
theorem not_validate_built_of_empty :
    ¬ ∀ run : Run, run.builder.domain.validate = .ok run.builder.domain := by
  intro h
  have hfault : (Run.start.not (.built .start)).builder.domain.validate =
      .error (.missingOperand .not 0) := rfl
  rw [h] at hfault
  cases hfault

end Builder
end QueryDomain

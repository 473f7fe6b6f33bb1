import Mathlib.Logic.Function.Iterate
import QueryDomain.Proofs.Building

/-! What an operator does that a builder puts in front of its operands. It takes the first chains
behind it, whether or not each of the operands is one chain, and is the only one that can be left
without. -/
namespace QueryDomain
namespace Domain

open Demand

section Counting

/-- The number of chains of a domain that is accepted. -/
def chainCount (domain : Domain) : Nat :=
  match chains domain with
  | .ok count => count
  | .error _ => 0

def chainTotal : List Domain → Nat
  | [] => 0
  | domain :: domains => domain.chainCount + chainTotal domains

variable {domain : Domain} {parts : List Domain}

theorem MadeOf.chainCount_eq (h : MadeOf parts domain) : domain.chainCount = parts.length := by
  rw [chainCount, chains_eq_ok_iff.mpr ⟨parts, h, rfl⟩]

theorem chainCount_eq_one_iff (h : domain.check = .ok ()) :
    domain.chainCount = 1 ↔ Complete domain := by
  obtain ⟨parts, hparts⟩ := check_eq_ok_iff_madeOf.mp h
  rw [hparts.chainCount_eq]
  constructor
  · intro hlen
    obtain ⟨part, rfl⟩ := List.length_eq_one_iff.mp hlen
    rw [← hparts.flatten_eq, List.flatten_singleton]
    exact hparts.complete part (by simp)
  · intro hc
    have hone : MadeOf [domain] domain := ⟨by simpa using hc, List.flatten_singleton⟩
    rw [hparts.unique hone, List.length_singleton]

theorem exists_madeOf_flatten_of_check {domains : List Domain}
    (h : ∀ domain ∈ domains, domain.check = .ok ()) :
    ∃ parts, MadeOf parts domains.flatten ∧ parts.length = chainTotal domains := by
  induction domains with
  | nil => exact ⟨[], .nil, rfl⟩
  | cons domain domains ih =>
    obtain ⟨parts, hparts⟩ := check_eq_ok_iff_madeOf.mp (h domain (by simp))
    obtain ⟨others, hothers, hlen⟩ := ih fun domain hd => h domain (by simp [hd])
    refine ⟨parts ++ others, hparts.append hothers, ?_⟩
    rw [List.length_append, chainTotal, hparts.chainCount_eq, hlen]

end Counting

section Demands

theorem settle_iterate {d : Demand} {count : Nat} (h : count < d.owed) (outer : List Demand) :
    settle^[count] (d :: outer) = { d with owed := d.owed - count } :: outer := by
  induction count with
  | zero => rfl
  | succ count ih =>
    have hmore : 0 < d.owed - count - 1 := by omega
    rw [Function.iterate_succ_apply', ih (by omega), settle]
    simp only [if_pos hmore]
    rfl

theorem settle_iterate_nil (count : Nat) : settle^[count] [] = [] :=
  Function.iterate_fixed rfl count

theorem MadeOf.pendingFrom_append {domain : Domain} {parts : List Domain} (h : MadeOf parts domain)
    (pending : List Demand) (position : Nat) (rest : Domain) :
    pendingFrom pending position (domain ++ rest) =
      pendingFrom (settle^[parts.length] pending) (position + domain.length) rest := by
  induction parts generalizing domain pending position with
  | nil =>
    rw [← h.flatten_eq]
    rfl
  | cons part parts ih =>
    obtain ⟨hp, hparts, rfl⟩ := h.of_cons
    rw [List.append_assoc, hp.pendingFrom_append, ih hparts, List.length_cons,
      Function.iterate_succ_apply, List.length_append, Nat.add_assoc]

end Demands

section Taking

/-- The operator at a place has the given chains right behind it, as many as it takes. -/
def Takes (domain : Domain) (position : Nat) (taken : List Domain) : Prop :=
  ∃ before op rest, domain = before ++ .operator op :: (taken.flatten ++ rest) ∧
    before.length = position ∧ taken.length = op.arity ∧ ∀ part ∈ taken, Complete part

theorem flatten_append_inj {parts others : List Domain} {rest more : Domain}
    (h : ∀ part ∈ parts, Complete part) (ho : ∀ other ∈ others, Complete other)
    (hlen : parts.length = others.length)
    (heq : parts.flatten ++ rest = others.flatten ++ more) : parts = others := by
  induction parts generalizing others with
  | nil => exact (List.length_eq_zero_iff.mp hlen.symm).symm
  | cons part parts ih =>
    cases others with
    | nil => cases hlen
    | cons other others =>
      rw [List.flatten_cons, List.flatten_cons, List.append_assoc, List.append_assoc] at heq
      obtain ⟨rfl, hrest⟩ := (h part (by simp)).append_inj (ho other (by simp)) heq
      rw [ih (fun part hp => h part (by simp [hp])) (fun other hp => ho other (by simp [hp]))
        (Nat.succ.inj hlen) hrest]

theorem Takes.unique {domain : Domain} {position : Nat} {taken others : List Domain}
    (h : domain.Takes position taken) (ho : domain.Takes position others) : taken = others := by
  obtain ⟨before, op, rest, rfl, hbefore, hlen, hc⟩ := h
  obtain ⟨before', op', rest', heq, hbefore', hlen', hc'⟩ := ho
  obtain ⟨-, htail⟩ := List.append_inj heq (hbefore.trans hbefore'.symm)
  obtain ⟨hop, hrest⟩ := List.cons.inj htail
  cases hop
  exact flatten_append_inj hc hc' (hlen.trans hlen'.symm) hrest

end Taking
end Domain

namespace Builder

open Domain

inductive Operation
  | not (operand : Domain)
  | and (lhs rhs : Domain)
  | or (lhs rhs : Domain)

namespace Operation

def operator : Operation → Operator
  | not _ => .not
  | and _ _ => .and
  | or _ _ => .or

def operands : Operation → List Domain
  | not operand => [operand]
  | and lhs rhs => [lhs, rhs]
  | or lhs rhs => [lhs, rhs]

def apply (b : Builder) : Operation → Builder
  | not operand => b.not operand
  | and lhs rhs => b.and lhs rhs
  | or lhs rhs => b.or lhs rhs

theorem length_operands (call : Operation) : call.operands.length = call.operator.arity := by
  cases call <;> rfl

theorem domain_apply (b : Builder) (call : Operation) :
    (call.apply b).domain = b.domain ++ .operator call.operator :: call.operands.flatten := by
  cases call <;> rfl

section Effect

variable {b : Builder} {call : Operation} {parts others : List Domain}

theorem madeOf_apply (hb : MadeOf parts b.domain) (ho : MadeOf others call.operands.flatten)
    (hle : call.operator.arity ≤ others.length) :
    MadeOf (parts ++ (.operator call.operator :: (others.take call.operator.arity).flatten) ::
      others.drop call.operator.arity) (call.apply b).domain := by
  rw [domain_apply]
  exact hb.append (ho.operator hle)

/-- All demands before the operator are settled, so it is the one that is left open. -/
theorem check_apply_eq_error (hb : MadeOf parts b.domain)
    (ho : MadeOf others call.operands.flatten) (hlt : others.length < call.operator.arity) :
    (call.apply b).domain.check = .error (.missingOperand call.operator b.domain.length) := by
  have hpending := ho.pendingFrom_append
    [⟨b.domain.length, call.operator, call.operator.arity⟩] (b.domain.length + 1) []
  rw [settle_iterate hlt, List.append_nil, pendingFrom] at hpending
  rw [check, domain_apply, hb.pendingFrom_append, settle_iterate_nil, pendingFrom, Nat.zero_add,
    Demand.advance, hpending]

theorem takes_apply_iff (ho : MadeOf others call.operands.flatten)
    (hle : call.operator.arity ≤ others.length) {taken : List Domain} :
    (call.apply b).domain.Takes b.domain.length taken ↔
      taken = others.take call.operator.arity := by
  have htakes : (call.apply b).domain.Takes b.domain.length
      (others.take call.operator.arity) := by
    refine ⟨b.domain, call.operator, (others.drop call.operator.arity).flatten, ?_, rfl,
      List.length_take_of_le hle, fun part hp => ho.complete part (List.mem_of_mem_take hp)⟩
    rw [domain_apply, ← List.flatten_append, List.take_append_drop, ho.flatten_eq]
  constructor
  · exact fun h => h.unique htakes
  · rintro rfl
    exact htakes

/-- The first chains are the operands just if each of these is one chain. -/
theorem take_eq_operands_iff (ho : MadeOf others call.operands.flatten)
    (hx : ∀ operand ∈ call.operands, operand.check = .ok ()) :
    others.take call.operator.arity = call.operands ↔
      ∀ operand ∈ call.operands, operand.chainCount = 1 := by
  constructor
  · intro htake operand hp
    refine (chainCount_eq_one_iff (hx operand hp)).mpr (ho.complete operand ?_)
    exact List.mem_of_mem_take (htake ▸ hp)
  · intro hone
    have hparts : MadeOf call.operands call.operands.flatten :=
      ⟨fun operand hp => (chainCount_eq_one_iff (hx operand hp)).mp (hone operand hp), rfl⟩
    rw [ho.unique hparts, ← length_operands, List.take_length]

/-- A domain that is accepted stays so just if there are as many chains behind the operator as it
takes. -/
theorem check_apply_iff (hb : b.domain.check = .ok ())
    (hx : ∀ operand ∈ call.operands, operand.check = .ok ()) :
    (call.apply b).domain.check = .ok () ↔ call.operator.arity ≤ chainTotal call.operands := by
  obtain ⟨parts, hparts⟩ := check_eq_ok_iff_madeOf.mp hb
  obtain ⟨others, hothers, htotal⟩ := exists_madeOf_flatten_of_check hx
  rw [← htotal]
  constructor
  · intro hok
    by_contra hlt
    rw [check_apply_eq_error hparts hothers (Nat.lt_of_not_le hlt)] at hok
    cases hok
  · intro hle
    exact check_eq_ok_iff_madeOf.mpr ⟨_, madeOf_apply hparts hothers hle⟩

theorem chainCount_apply (hb : MadeOf parts b.domain) (ho : MadeOf others call.operands.flatten)
    (hle : call.operator.arity ≤ others.length) :
    (call.apply b).domain.chainCount =
      b.domain.chainCount + 1 + others.length - call.operator.arity := by
  rw [(madeOf_apply hb ho hle).chainCount_eq, hb.chainCount_eq, List.length_append,
    List.length_cons, List.length_drop]
  omega

end Effect
end Operation

theorem chainCount_extend {b : Builder} {more : Domain} (hb : b.domain.check = .ok ())
    (hm : more.check = .ok ()) : (b.extend more).domain.check = .ok () ∧
      (b.extend more).domain.chainCount = b.domain.chainCount + more.chainCount := by
  obtain ⟨parts, hparts⟩ := check_eq_ok_iff_madeOf.mp hb
  obtain ⟨others, hothers⟩ := check_eq_ok_iff_madeOf.mp hm
  have hmade : MadeOf (parts ++ others) (b.extend more).domain := hparts.append hothers
  refine ⟨check_eq_ok_iff_madeOf.mpr ⟨_, hmade⟩, ?_⟩
  rw [hmade.chainCount_eq, hparts.chainCount_eq, hothers.chainCount_eq, List.length_append]

theorem chainCount_add {b : Builder} (hb : b.domain.check = .ok ()) (c : Condition) :
    (b.add c).domain.check = .ok () ∧
      (b.add c).domain.chainCount = b.domain.chainCount + 1 := by
  have hextend := chainCount_extend hb (check_eq_ok_iff_madeOf.mpr ⟨_, .condition c⟩)
  rwa [(MadeOf.condition c).chainCount_eq] at hextend

/-- Behind a domain that is accepted an operator takes the first chains of its operands, one operand
behind the other, so it takes the operands themselves just if each of them is one chain. Where there
are fewer chains than it takes, it is the operator that is blamed. A condition is one more chain,
and what else is put behind it adds its chains. -/
theorem check_calls (b : Builder) (hb : b.domain.check = .ok ()) :
    (∀ call : Operation, (∀ operand ∈ call.operands, operand.check = .ok ()) →
      ((call.apply b).domain.check = .ok () ↔
          call.operator.arity ≤ chainTotal call.operands) ∧
        (chainTotal call.operands < call.operator.arity →
          (call.apply b).domain.check =
            .error (.missingOperand call.operator b.domain.length)) ∧
        (call.operator.arity ≤ chainTotal call.operands →
          (call.apply b).domain.chainCount =
              b.domain.chainCount + 1 + chainTotal call.operands - call.operator.arity ∧
            ∃ others, MadeOf others call.operands.flatten ∧
              (∀ taken, (call.apply b).domain.Takes b.domain.length taken ↔
                taken = others.take call.operator.arity) ∧
              ((call.apply b).domain.Takes b.domain.length call.operands ↔
                ∀ operand ∈ call.operands, operand.chainCount = 1))) ∧
      (∀ c, (b.add c).domain.check = .ok () ∧
        (b.add c).domain.chainCount = b.domain.chainCount + 1) ∧
      (∀ field comparator value, (b.term field comparator value).domain.check = .ok () ∧
        (b.term field comparator value).domain.chainCount = b.domain.chainCount + 1) ∧
      ∀ more : Domain, more.check = .ok () → (b.extend more).domain.check = .ok () ∧
        (b.extend more).domain.chainCount = b.domain.chainCount + more.chainCount := by
  refine ⟨fun call hx => ?_, chainCount_add hb, fun field comparator value => chainCount_add hb _,
    fun more => chainCount_extend hb⟩
  obtain ⟨parts, hparts⟩ := check_eq_ok_iff_madeOf.mp hb
  obtain ⟨others, hothers, htotal⟩ := exists_madeOf_flatten_of_check hx
  refine ⟨Operation.check_apply_iff hb hx, ?_, ?_⟩
  · rw [← htotal]
    exact Operation.check_apply_eq_error hparts hothers
  · rw [← htotal]
    intro hle
    refine ⟨Operation.chainCount_apply hparts hothers hle, others, hothers, fun taken =>
      Operation.takes_apply_iff hothers hle, ?_⟩
    rw [Operation.takes_apply_iff hothers hle, eq_comm]
    exact Operation.take_eq_operands_iff hothers hx

/-- The second operand makes up for the first, which is empty. -/
theorem check_calls_empty_operand :
    check [.condition ⟨"a", .equal, .null⟩] = .ok () ∧
      ((Operation.and [] [.condition ⟨"b", .equal, .null⟩, .condition ⟨"c", .equal, .null⟩]).apply
        ⟨[.condition ⟨"a", .equal, .null⟩]⟩).domain.check = .ok () :=
  ⟨rfl, ((check_calls ⟨[.condition ⟨"a", .equal, .null⟩]⟩ rfl).1
    (.and [] [.condition ⟨"b", .equal, .null⟩, .condition ⟨"c", .equal, .null⟩])
    (by simp [Operation.operands, check, pendingFrom, Demand.advance, Demand.settle])).1.mpr
    (by simp [Operation.operator, Operation.operands, Operator.arity, chainTotal, chainCount, chains,
      chainsFrom, chain])⟩

end Builder
end QueryDomain

import QueryDomain.Proofs.Subvalues

/-! Domains as sequences of complete chains. The rule by recursion and the one by open demands
accept the same domains, those that are such a sequence, and for the others they blame the same
operator; the sequence is determined by the domain. -/
namespace QueryDomain

namespace Operator

theorem arity_eq_one_or_two (op : Operator) : op.arity = 1 ∨ op.arity = 2 := by
  cases op <;> decide

def gather (op : Operator) (count : Nat) : Option Nat :=
  if op.arity ≤ count then some (count - op.arity + 1) else none

end Operator

namespace Domain

open Demand

/-- A condition, or an operator with all its operands behind it. -/
inductive Complete : Domain → Prop
  | condition (c : Condition) : Complete [.condition c]
  | operator (op : Operator) {operands : List Domain} : operands.length = op.arity →
    (∀ operand ∈ operands, Complete operand) → Complete (.operator op :: operands.flatten)

/-- A domain cut into complete chains. -/
structure MadeOf (parts : List Domain) (domain : Domain) : Prop where
  complete : ∀ part ∈ parts, Complete part
  flatten_eq : parts.flatten = domain

namespace MadeOf

theorem nil : MadeOf [] [] := ⟨by simp, rfl⟩

theorem condition (c : Condition) : MadeOf [[.condition c]] [.condition c] :=
  ⟨by simp [Complete.condition], rfl⟩

theorem cons {part domain : Domain} {parts : List Domain} (hp : Complete part)
    (h : MadeOf parts domain) : MadeOf (part :: parts) (part ++ domain) := by
  refine ⟨?_, by rw [List.flatten_cons, h.flatten_eq]⟩
  simpa [hp] using h.complete

theorem of_cons {part domain : Domain} {parts : List Domain} (h : MadeOf (part :: parts) domain) :
    Complete part ∧ MadeOf parts parts.flatten ∧ part ++ parts.flatten = domain :=
  ⟨h.complete part (by simp), ⟨fun part hp => h.complete part (by simp [hp]), rfl⟩, h.flatten_eq⟩

theorem append {domain other : Domain} {parts others : List Domain} (h : MadeOf parts domain)
    (ho : MadeOf others other) : MadeOf (parts ++ others) (domain ++ other) := by
  refine ⟨?_, by rw [List.flatten_append, h.flatten_eq, ho.flatten_eq]⟩
  intro part hp
  rcases List.mem_append.mp hp with hp | hp
  · exact h.complete part hp
  · exact ho.complete part hp

theorem length_pos {domain : Domain} {parts : List Domain} (h : MadeOf parts domain)
    (hne : domain ≠ []) : 0 < parts.length := by
  rw [List.length_pos_iff]
  rintro rfl
  exact hne h.flatten_eq.symm

theorem operator {domain : Domain} {parts : List Domain} (h : MadeOf parts domain)
    {op : Operator} (hle : op.arity ≤ parts.length) :
    MadeOf ((.operator op :: (parts.take op.arity).flatten) :: parts.drop op.arity)
      (.operator op :: domain) := by
  have hchain : Complete (.operator op :: (parts.take op.arity).flatten) := by
    refine .operator op (List.length_take_of_le hle) fun part hp => ?_
    exact h.complete part (List.mem_of_mem_take hp)
  have hrest : MadeOf (parts.drop op.arity) (parts.drop op.arity).flatten :=
    ⟨fun part hp => h.complete part (List.mem_of_mem_drop hp), rfl⟩
  have hall := cons hchain hrest
  rwa [List.cons_append, ← List.flatten_append, List.take_append_drop, h.flatten_eq] at hall

end MadeOf

namespace Complete

theorem ne_nil {part : Domain} (h : Complete part) : part ≠ [] := by
  cases h <;> simp

theorem drop_eq {part rest ns : Domain} {n : Node} (h : Complete part)
    (heq : part ++ rest = n :: ns) : ns.drop (part.length - 1) = rest := by
  have hpos : 0 < part.length := List.length_pos_iff.mpr h.ne_nil
  rw [← List.drop_cons hpos, ← heq, List.drop_left]

theorem unary {op : Operator} (ha : op.arity = 1) {part : Domain} (h : Complete part) :
    Complete (.operator op :: part) := by
  have hc := @operator op [part] ha.symm (by simpa using h)
  rwa [List.flatten_singleton] at hc

theorem binary {op : Operator} (ha : op.arity = 2) {first second : Domain} (h : Complete first)
    (hs : Complete second) : Complete (.operator op :: (first ++ second)) := by
  have hc := @operator op [first, second] ha.symm (by simp [h, hs])
  simpa using hc

end Complete

section Demands

/-- As many complete parts as an operator misses settle it, and it settles the next one. -/
theorem pendingFrom_operands {parts : List Domain} (hne : parts ≠ [])
    (hparts : ∀ part ∈ parts, ∀ pending position rest, pendingFrom pending position (part ++ rest) =
      pendingFrom (settle pending) (position + part.length) rest)
    (place : Nat) (op : Operator) (outer : List Demand) (position : Nat) (rest : Domain) :
    pendingFrom (⟨place, op, parts.length⟩ :: outer) position (parts.flatten ++ rest) =
      pendingFrom (settle outer) (position + parts.flatten.length) rest := by
  induction parts generalizing position with
  | nil => contradiction
  | cons part parts ih =>
    rw [List.flatten_cons, List.append_assoc, hparts part (by simp), settle, List.length_append]
    by_cases hnil : parts = []
    · simp [hnil]
    · have hpos : 0 < parts.length := List.length_pos_iff.mpr hnil
      have hrest := ih hnil (fun part hp => hparts part (by simp [hp])) (position + part.length)
      simpa [hpos, Nat.add_assoc] using hrest

theorem Complete.pendingFrom_append {part : Domain} (h : Complete part) (pending : List Demand)
    (position : Nat) (rest : Domain) :
    pendingFrom pending position (part ++ rest) =
      pendingFrom (settle pending) (position + part.length) rest := by
  induction h generalizing pending position rest with
  | condition c => rfl
  | @operator op operands hlen _ ih =>
    have hne : operands ≠ [] := List.length_pos_iff.mp (hlen ▸ op.arity_pos)
    rw [List.cons_append, pendingFrom, advance, ← hlen, pendingFrom_operands hne ih,
      List.length_cons, Nat.add_assoc, Nat.add_comm 1]

theorem MadeOf.pendingFrom_eq_nil {domain : Domain} {parts : List Domain}
    (h : MadeOf parts domain) (position : Nat) : pendingFrom [] position domain = [] := by
  obtain ⟨hc, rfl⟩ := h
  induction parts generalizing position with
  | nil => rfl
  | cons part parts ih =>
    rw [List.flatten_cons, (hc part (by simp)).pendingFrom_append]
    exact ih _ fun part hp => hc part (by simp [hp])

end Demands

section Recursion

/-- The size of the operand that starts a domain; where there is none, the operator at the place
`asker` misses it. -/
def operandSize (op : Operator) (asker position : Nat) : Domain → Except Fault Nat
  | [] => .error (.missingOperand op asker)
  | n :: ns => chain position n ns

theorem chain_operator (position : Nat) (op : Operator) (ns : Domain) :
    chain position (.operator op) ns = do
      let first ← operandSize op position (position + 1) ns
      if op.arity = 1 then return 1 + first
      let second ← operandSize op position (position + 1 + first) (ns.drop first)
      return 1 + first + second := by
  cases ns with
  | nil => rw [chain, operandSize]; rfl
  | cons m ms =>
    rw [chain, operandSize]
    congr 1
    funext first
    congr 1
    split
    · rename_i hd
      rw [hd]
      rfl
    · rename_i k ks hd
      rw [hd]
      rfl

theorem operandSize_eq_ok_of_complete {part : Domain} (h : Complete part) (op : Operator)
    (asker position : Nat) (rest : Domain) :
    operandSize op asker position (part ++ rest) = .ok part.length := by
  induction h generalizing op asker position rest with
  | condition c => rw [List.singleton_append, operandSize, chain]; rfl
  | @operator o operands hlen _ ih =>
    rw [List.cons_append, operandSize, chain_operator]
    rcases o.arity_eq_one_or_two with ha | ha
    · obtain ⟨first, rfl⟩ := List.length_eq_one_iff.mp (hlen.trans ha)
      rw [List.flatten_singleton, ih first (by simp), Outcome.ok_bind, if_pos ha, Nat.add_comm]
      rfl
    · obtain ⟨first, second, rfl⟩ := List.length_eq_two.mp (hlen.trans ha)
      have hflat : [first, second].flatten = first ++ second := by simp
      rw [hflat, List.append_assoc, ih first (by simp), Outcome.ok_bind, if_neg (by omega),
        List.drop_left, ih second (by simp), Outcome.ok_bind, Nat.add_assoc, Nat.add_comm,
        List.length_cons, List.length_append]
      rfl

theorem exists_complete_of_chain {position : Nat} {n : Node} {ns : Domain} {size : Nat}
    (h : chain position n ns = .ok size) :
    ∃ part rest, Complete part ∧ part.length = size ∧ part ++ rest = n :: ns := by
  induction position, n, ns using chain.induct generalizing size with
  | case1 position ns c =>
    rw [chain] at h
    cases h
    exact ⟨[.condition c], ns, .condition c, rfl, rfl⟩
  | case2 position op =>
    rw [chain] at h
    cases h
  | case3 position op m ms ih₁ ih₂ =>
    rw [chain_operator] at h
    obtain ⟨first, hf, h⟩ := Outcome.bind_eq_ok_iff.mp h
    obtain ⟨part, rest, hp, rfl, heq⟩ := ih₁ hf
    rcases op.arity_eq_one_or_two with ha | ha
    · rw [if_pos ha] at h
      cases h
      exact ⟨.operator op :: part, rest, hp.unary ha, by simp [Nat.add_comm], by simp [heq]⟩
    · rw [if_neg (by omega), ← heq, List.drop_left] at h
      obtain ⟨second, hs, h⟩ := Outcome.bind_eq_ok_iff.mp h
      cases h
      cases rest with
      | nil => cases hs
      | cons k ks =>
        have hdrop : (m :: ms).drop part.length = k :: ks := by rw [← heq, List.drop_left]
        obtain ⟨other, more, ho, rfl, heq'⟩ := ih₂ part.length k ks hdrop hs
        refine ⟨.operator op :: (part ++ other), more, hp.binary ha ho, ?_, ?_⟩
        · simp only [List.length_cons, List.length_append]
          omega
        · rw [List.cons_append, List.append_assoc, heq', heq]

def Blames (pending : List Demand) (fault : Fault) : Prop :=
  ∃ d outer, pending = d :: outer ∧ fault = .missingOperand d.operator d.position

theorem blames_of_chain {position : Nat} {n : Node} {ns : Domain} {fault : Fault}
    (h : chain position n ns = .error fault) (pending : List Demand) :
    Blames (pendingFrom pending position (n :: ns)) fault := by
  induction position, n, ns using chain.induct generalizing pending with
  | case1 position ns c =>
    rw [chain] at h
    cases h
  | case2 position op =>
    rw [chain] at h
    cases h
    exact ⟨_, _, rfl, rfl⟩
  | case3 position op m ms ih₁ ih₂ =>
    rw [chain_operator] at h
    rw [pendingFrom, advance]
    cases hf : operandSize op position (position + 1) (m :: ms) with
    | error cause =>
      rw [hf] at h
      cases h
      exact ih₁ hf _
    | ok first =>
      obtain ⟨part, rest, hp, rfl, heq⟩ := exists_complete_of_chain hf
      rw [hf, Outcome.ok_bind] at h
      rw [← heq, hp.pendingFrom_append]
      rcases op.arity_eq_one_or_two with ha | ha
      · rw [if_pos ha] at h
        cases h
      · -- the first operand is there, so one more is owed
        have hsettle : settle (⟨position, op, op.arity⟩ :: pending) =
            ⟨position, op, 1⟩ :: pending := by simp [settle, ha]
        rw [hsettle]
        rw [if_neg (by omega), ← heq, List.drop_left] at h
        cases rest with
        | nil =>
          cases h
          exact ⟨_, _, rfl, rfl⟩
        | cons k ks =>
          have hdrop : (m :: ms).drop part.length = k :: ks := by rw [← heq, List.drop_left]
          cases hs : operandSize op position (position + 1 + part.length) (k :: ks) with
          | ok second =>
            rw [hs] at h
            cases h
          | error cause =>
            rw [hs] at h
            cases h
            exact ih₂ part.length k ks hdrop hs _

theorem MadeOf.chainsFrom_eq {domain : Domain} {parts : List Domain} (h : MadeOf parts domain)
    (position : Nat) : chainsFrom position domain = .ok parts.length := by
  obtain ⟨hc, rfl⟩ := h
  induction parts generalizing position with
  | nil => rw [List.flatten_nil, chainsFrom]; rfl
  | cons part parts ih =>
    have hp : Complete part := hc part (by simp)
    have hrest := fun position => ih position fun part hp => hc part (by simp [hp])
    have hsize := operandSize_eq_ok_of_complete hp .not 0 position parts.flatten
    cases part with
    | nil => exact absurd rfl hp.ne_nil
    | cons n ns =>
      rw [List.cons_append, operandSize] at hsize
      rw [List.flatten_cons, List.cons_append, chainsFrom, hsize, Outcome.ok_bind,
        List.length_cons, Nat.add_sub_cancel, List.drop_left, hrest]
      rfl

theorem exists_madeOf_of_chainsFrom {position : Nat} {domain : Domain} {count : Nat}
    (h : chainsFrom position domain = .ok count) :
    ∃ parts, MadeOf parts domain ∧ parts.length = count := by
  induction position, domain using chainsFrom.induct generalizing count with
  | case1 position =>
    rw [chainsFrom] at h
    cases h
    exact ⟨[], .nil, rfl⟩
  | case2 position n ns ih =>
    rw [chainsFrom] at h
    obtain ⟨size, hsize, h⟩ := Outcome.bind_eq_ok_iff.mp h
    obtain ⟨more, hmore, h⟩ := Outcome.bind_eq_ok_iff.mp h
    cases h
    obtain ⟨part, rest, hp, rfl, heq⟩ := exists_complete_of_chain hsize
    obtain ⟨parts, hparts, rfl⟩ := ih _ hmore
    rw [hp.drop_eq heq] at hparts
    exact ⟨part :: parts, heq ▸ hparts.cons hp, rfl⟩

theorem blames_of_chainsFrom {position : Nat} {domain : Domain} {fault : Fault}
    (h : chainsFrom position domain = .error fault) :
    Blames (pendingFrom [] position domain) fault := by
  induction position, domain using chainsFrom.induct with
  | case1 position =>
    rw [chainsFrom] at h
    cases h
  | case2 position n ns ih =>
    rw [chainsFrom] at h
    cases hsize : chain position n ns with
    | error cause =>
      rw [hsize] at h
      cases h
      exact blames_of_chain hsize []
    | ok size =>
      rw [hsize, Outcome.ok_bind] at h
      obtain ⟨part, rest, hp, rfl, heq⟩ := exists_complete_of_chain hsize
      have hblames := ih part.length
      rw [hp.drop_eq heq] at h hblames
      rw [← heq, hp.pendingFrom_append]
      cases hmore : chainsFrom (position + part.length) rest with
      | ok more =>
        rw [hmore] at h
        cases h
      | error cause =>
        rw [hmore] at h
        cases h
        exact hblames hmore

/-- Where the first chain ends can be seen from the front. -/
theorem Complete.append_inj {part other rest more : Domain} (h : Complete part)
    (ho : Complete other) (heq : part ++ rest = other ++ more) : part = other ∧ rest = more := by
  have hsize := operandSize_eq_ok_of_complete h .not 0 0 rest
  rw [heq, operandSize_eq_ok_of_complete ho, Except.ok.injEq] at hsize
  exact List.append_inj heq hsize.symm

theorem MadeOf.unique {domain : Domain} {parts others : List Domain} (h : MadeOf parts domain)
    (ho : MadeOf others domain) : parts = others := by
  induction parts generalizing domain others with
  | nil =>
    cases others with
    | nil => rfl
    | cons other others =>
      obtain ⟨hother, -, hflat⟩ := ho.of_cons
      have hnil : other ++ others.flatten = [] := hflat.trans h.flatten_eq.symm
      exact absurd (List.append_eq_nil_iff.mp hnil).1 hother.ne_nil
  | cons part parts ih =>
    obtain ⟨hp, hparts, hflat⟩ := h.of_cons
    cases others with
    | nil =>
      have hnil : part ++ parts.flatten = [] := hflat.trans ho.flatten_eq.symm
      exact absurd (List.append_eq_nil_iff.mp hnil).1 hp.ne_nil
    | cons other others =>
      obtain ⟨hother, hothers, hflat'⟩ := ho.of_cons
      have happend : part ++ parts.flatten = other ++ others.flatten := hflat.trans hflat'.symm
      obtain ⟨rfl, hrest⟩ := hp.append_inj hother happend
      rw [← hrest] at hothers
      rw [ih hparts hothers]

end Recursion

theorem check_eq_map_chains (domain : Domain) :
    domain.check = (chains domain).map fun _ => () := by
  rw [check, chains]
  cases h : chainsFrom 0 domain with
  | ok count =>
    obtain ⟨parts, hparts, -⟩ := exists_madeOf_of_chainsFrom h
    rw [hparts.pendingFrom_eq_nil]
    rfl
  | error fault =>
    obtain ⟨d, outer, hpending, rfl⟩ := blames_of_chainsFrom h
    rw [hpending]
    rfl

theorem chains_eq_ok_iff {domain : Domain} {count : Nat} :
    chains domain = .ok count ↔ ∃ parts, MadeOf parts domain ∧ parts.length = count := by
  constructor
  · exact exists_madeOf_of_chainsFrom
  · rintro ⟨parts, hparts, rfl⟩
    exact hparts.chainsFrom_eq 0

theorem check_eq_ok_iff_madeOf {domain : Domain} :
    domain.check = .ok () ↔ ∃ parts, MadeOf parts domain := by
  rw [check_eq_map_chains, Outcome.map_eq_ok_iff]
  constructor
  · rintro ⟨count, hcount, -⟩
    obtain ⟨parts, hparts, -⟩ := chains_eq_ok_iff.mp hcount
    exact ⟨parts, hparts⟩
  · rintro ⟨parts, hparts⟩
    exact ⟨parts.length, chains_eq_ok_iff.mpr ⟨parts, hparts, rfl⟩, rfl⟩

/-- No operator of an accepted domain takes an operand from what is put behind it. -/
theorem check_append {domain other : Domain} (h : domain.check = .ok ())
    (ho : other.check = .ok ()) : (domain ++ other).check = .ok () := by
  obtain ⟨parts, hparts⟩ := check_eq_ok_iff_madeOf.mp h
  obtain ⟨others, hothers⟩ := check_eq_ok_iff_madeOf.mp ho
  exact check_eq_ok_iff_madeOf.mpr ⟨parts ++ others, hparts.append hothers⟩

/-- Both rules come to the same result, and accept just the sequences of complete chains; there
is one such sequence at most. -/
theorem check_eq_chains (domain : Domain) :
    domain.check = (chains domain).map (fun _ => ()) ∧
      (domain.check = .ok () ↔ ∃ parts, MadeOf parts domain) ∧
      ∀ parts others, MadeOf parts domain → MadeOf others domain → parts = others :=
  ⟨check_eq_map_chains domain, check_eq_ok_iff_madeOf, fun _ _ h ho => h.unique ho⟩

/-- The chain inside has its operands, so the blame is on the operator around it. -/
example (c d : Condition) :
    check [.operator .and, .operator .or, .condition c, .condition d] =
      .error (.missingOperand .and 0) := rfl

section Counting

/-- The number of complete chains that a domain makes with as many more behind it as are given;
none if they are too few for one of its operators. -/
def tally (behind : Nat) : Domain → Option Nat
  | [] => some behind
  | .condition _ :: ns => (tally behind ns).map (· + 1)
  | .operator op :: ns => (tally behind ns).bind op.gather

theorem tally_append (behind : Nat) (domain other : Domain) :
    tally behind (domain ++ other) = (tally behind other).bind fun count => tally count domain := by
  induction domain with
  | nil => cases h : tally behind other <;> simp [tally, h]
  | cons n ns ih =>
    cases n <;> cases h : tally behind other <;> simp [tally, h, ih]

theorem tally_flatten {parts : List Domain}
    (h : ∀ part ∈ parts, ∀ behind, tally behind part = some (behind + 1)) (behind : Nat) :
    tally behind parts.flatten = some (behind + parts.length) := by
  induction parts with
  | nil => rfl
  | cons part parts ih =>
    have hrest := ih fun part hp => h part (by simp [hp])
    rw [List.flatten_cons, tally_append, hrest, Option.bind_some, h part (by simp),
      List.length_cons, Nat.add_assoc]

theorem Complete.tally_eq {part : Domain} (h : Complete part) (behind : Nat) :
    tally behind part = some (behind + 1) := by
  induction h generalizing behind with
  | condition c => rfl
  | @operator op operands hlen _ ih =>
    rw [tally, tally_flatten ih, hlen, Option.bind_some, Operator.gather, if_pos (by omega),
      Nat.add_sub_cancel]

theorem MadeOf.tally_eq {domain : Domain} {parts : List Domain} (h : MadeOf parts domain)
    (behind : Nat) : tally behind domain = some (behind + parts.length) := by
  rw [← h.flatten_eq]
  exact tally_flatten (fun part hp => (h.complete part hp).tally_eq) behind

theorem exists_madeOf_of_tally {domain : Domain} {count : Nat} (h : tally 0 domain = some count) :
    ∃ parts, MadeOf parts domain ∧ parts.length = count := by
  induction domain generalizing count with
  | nil =>
    cases h
    exact ⟨[], .nil, rfl⟩
  | cons n ns ih =>
    cases n with
    | condition c =>
      obtain ⟨before, hbefore, rfl⟩ := Option.map_eq_some_iff.mp h
      obtain ⟨parts, hparts, rfl⟩ := ih hbefore
      exact ⟨[.condition c] :: parts, hparts.cons (.condition c), rfl⟩
    | operator op =>
      obtain ⟨before, hbefore, hgather⟩ := Option.bind_eq_some_iff.mp h
      obtain ⟨parts, hparts, rfl⟩ := ih hbefore
      obtain ⟨hle, hcount⟩ := Option.ite_none_right_eq_some.mp hgather
      refine ⟨_, hparts.operator hle, ?_⟩
      rw [List.length_cons, List.length_drop]
      exact Option.some.inj hcount

theorem check_eq_ok_iff_tally {domain : Domain} :
    domain.check = .ok () ↔ ∃ count, tally 0 domain = some count := by
  rw [check_eq_ok_iff_madeOf]
  constructor
  · rintro ⟨parts, hparts⟩
    exact ⟨_, hparts.tally_eq 0⟩
  · rintro ⟨count, hcount⟩
    obtain ⟨parts, hparts, -⟩ := exists_madeOf_of_tally hcount
    exact ⟨parts, hparts⟩

end Counting

end Domain
end QueryDomain

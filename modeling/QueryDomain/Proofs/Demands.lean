import Mathlib.Data.List.Induction
import QueryDomain.Proofs.Gathering

/-! The demands that are open behind the part of a domain that has been read. A domain is a sequence
of complete chains, behind which operators stand one inside the other, each with some of its operands
but not all; these operators are the open demands. -/
namespace QueryDomain

namespace Demand

/-- What one more operand does to the demands, where it is a failure to take one from an operator
that misses none. -/
def settle? : List Demand → Option (List Demand)
  | [] => some []
  | d :: outer =>
    match d.owed with
    | 0 => none
    | owed + 1 => if 0 < owed then some ({ d with owed := owed } :: outer) else settle? outer

theorem settle?_eq_some {pending : List Demand} (h : ∀ d ∈ pending, 0 < d.owed) :
    settle? pending = some (settle pending) := by
  induction pending with
  | nil => rfl
  | cons d outer ih =>
    obtain ⟨position, op, owed⟩ := d
    obtain ⟨hd, houter⟩ := List.forall_mem_cons.mp h
    cases owed with
    | zero => cases hd
    | succ owed =>
      simp only [settle?, settle, Nat.add_sub_cancel, ih houter]
      split <;> rfl

theorem exists_of_mem_settle {pending : List Demand} {d : Demand} (h : d ∈ settle pending) :
    ∃ e ∈ pending, e.position = d.position := by
  induction pending with
  | nil => cases h
  | cons e outer ih =>
    rw [settle] at h
    split at h
    · rcases List.mem_cons.mp h with rfl | h
      · exact ⟨e, by simp, rfl⟩
      · exact ⟨d, by simp [h], rfl⟩
    · obtain ⟨e', he, hposition⟩ := ih h
      exact ⟨e', by simp [he], hposition⟩

end Demand

namespace Domain

open Demand

/-- The demands that are open behind a domain, the innermost first. -/
def demands (domain : Domain) : List Demand := pendingFrom [] 0 domain

def StartsComplete (domain : Domain) : Prop := ∃ part rest, Complete part ∧ domain = part ++ rest

/-- The complete chains that a domain starts with, up to where no other one starts. -/
structure Leading (parts : List Domain) (domain : Domain) : Prop where
  complete : ∀ part ∈ parts, Complete part
  exists_rest : ∃ rest, domain = parts.flatten ++ rest ∧ ¬ StartsComplete rest

/-- A domain that leaves the given demands open, the innermost first. -/
inductive Leaves : Domain → List Demand → Prop
  | settled {parts : List Domain} {domain : Domain} : MadeOf parts domain → Leaves domain []
  | operator {before operands : Domain} {pending : List Demand} {parts : List Domain}
    (op : Operator) : Leaves before pending → MadeOf parts operands → parts.length < op.arity →
    Leaves (before ++ .operator op :: operands)
      (⟨before.length, op, op.arity - parts.length⟩ :: pending)

section Running

theorem pendingFrom_append (pending : List Demand) (position : Nat) (domain other : Domain) :
    pendingFrom pending position (domain ++ other) =
      pendingFrom (pendingFrom pending position domain) (position + domain.length) other := by
  induction domain generalizing pending position with
  | nil => rfl
  | cons n ns ih =>
    rw [List.cons_append, pendingFrom, pendingFrom, ih, List.length_cons, Nat.add_assoc,
      Nat.add_comm 1]

theorem demands_append (domain other : Domain) :
    (domain ++ other).demands = pendingFrom domain.demands domain.length other := by
  rw [demands, pendingFrom_append, Nat.zero_add]
  rfl

theorem MadeOf.concat {domain part : Domain} {parts : List Domain} (h : MadeOf parts domain)
    (hp : Complete part) : MadeOf (parts ++ [part]) (domain ++ part) :=
  h.append ⟨by simpa using hp, List.flatten_singleton⟩

theorem Leaves.append_complete {domain part : Domain} {pending : List Demand}
    (h : Leaves domain pending) (hp : Complete part) : Leaves (domain ++ part) (settle pending) := by
  induction h generalizing part with
  | settled hm => exact .settled (hm.concat hp)
  | @operator before operands pending parts op h hm hlt ih =>
    have hmore : MadeOf (parts ++ [part]) (operands ++ part) := hm.concat hp
    have hlength : (parts ++ [part]).length = parts.length + 1 := List.length_append
    rw [List.append_assoc, List.cons_append, settle]
    split
    · rename_i howed
      have hleaves := Leaves.operator op h hmore (by simp only at howed; omega)
      rwa [hlength, Nat.sub_add_eq] at hleaves
    · rename_i howed
      -- the operator has its last operand, so it is one itself
      have hall : (parts ++ [part]).length = op.arity := by simp only at howed; omega
      have hchain := Complete.operator op hall hmore.complete
      rw [hmore.flatten_eq] at hchain
      exact ih hchain

/-- The open demands are the operators that a domain leaves without some of their operands. -/
theorem leaves_demands (domain : Domain) : Leaves domain domain.demands := by
  induction domain using List.reverseRecOn with
  | nil => exact .settled .nil
  | append_singleton domain n ih =>
    rw [demands_append]
    cases n with
    | condition c => exact ih.append_complete (.condition c)
    | operator op => exact .operator op ih .nil op.arity_pos

theorem Leaves.demands_eq {domain : Domain} {pending : List Demand} (h : Leaves domain pending) :
    domain.demands = pending := by
  induction h with
  | settled hm => exact hm.pendingFrom_eq_nil 0
  | @operator before operands pending parts op _ hm hlt ih =>
    have hrest := hm.pendingFrom_append (⟨before.length, op, op.arity⟩ :: pending)
      (before.length + 1) []
    rw [List.append_nil, settle_iterate hlt] at hrest
    rw [demands_append, ih, pendingFrom, advance, hrest]
    rfl

end Running

section Order

variable {domain : Domain} {pending : List Demand}

theorem Leaves.position_lt (h : Leaves domain pending) :
    ∀ d ∈ pending, d.position < domain.length := by
  induction h with
  | settled => simp
  | operator op _ _ _ ih =>
    intro d hd
    rw [List.length_append, List.length_cons]
    rcases List.mem_cons.mp hd with rfl | hd
    · simp only
      omega
    · have := ih d hd
      omega

theorem Leaves.pairwise (h : Leaves domain pending) :
    pending.Pairwise fun inner outer => outer.position < inner.position := by
  induction h with
  | settled => exact .nil
  | operator op h _ _ ih => exact .cons h.position_lt ih

theorem Leaves.owed_bounds (h : Leaves domain pending) :
    ∀ d ∈ pending, 0 < d.owed ∧ d.owed ≤ d.operator.arity := by
  induction h with
  | settled => simp
  | operator op _ _ hlt ih =>
    refine List.forall_mem_cons.mpr ⟨?_, ih⟩
    simp only
    omega

theorem Leaves.getElem?_position (h : Leaves domain pending) :
    ∀ d ∈ pending, domain[d.position]? = some (.operator d.operator) := by
  induction h with
  | settled => simp
  | operator op h _ _ ih =>
    refine List.forall_mem_cons.mpr ⟨by simp, fun d hd => ?_⟩
    rw [List.getElem?_append_left (h.position_lt d hd)]
    exact ih d hd

end Order

section Completeness

theorem StartsComplete.append {domain : Domain} (h : StartsComplete domain) (more : Domain) :
    StartsComplete (domain ++ more) := by
  obtain ⟨part, rest, hp, rfl⟩ := h
  exact ⟨part, rest ++ more, hp, List.append_assoc ..⟩

theorem not_startsComplete_nil : ¬ StartsComplete [] := by
  rintro ⟨part, rest, hp, heq⟩
  exact hp.ne_nil (List.append_eq_nil_iff.mp heq.symm).1

theorem startsComplete_drop_flatten {parts : List Domain}
    (h : ∀ part ∈ parts, ∀ i < part.length, StartsComplete (part.drop i)) {i : Nat}
    (hi : i < parts.flatten.length) : StartsComplete (parts.flatten.drop i) := by
  induction parts generalizing i with
  | nil => cases hi
  | cons part parts ih =>
    obtain ⟨hpart, hparts⟩ := List.forall_mem_cons.mp h
    rw [List.flatten_cons, List.drop_append]
    rw [List.flatten_cons, List.length_append] at hi
    by_cases hlt : i < part.length
    · exact (hpart i hlt).append _
    · rw [List.drop_eq_nil_of_le (Nat.le_of_not_lt hlt), List.nil_append]
      exact ih hparts (by omega)

theorem Complete.startsComplete_drop {part : Domain} (h : Complete part) :
    ∀ i < part.length, StartsComplete (part.drop i) := by
  induction h with
  | condition c =>
    intro i hi
    obtain rfl : i = 0 := by simpa using hi
    exact ⟨[.condition c], [], .condition c, rfl⟩
  | operator op hlen hc ih =>
    intro i hi
    cases i with
    | zero => exact ⟨_, [], .operator op hlen hc, (List.append_nil _).symm⟩
    | succ i => exact startsComplete_drop_flatten ih (by simpa using hi)

theorem MadeOf.startsComplete_drop {domain : Domain} {parts : List Domain} (h : MadeOf parts domain)
    {i : Nat} (hi : i < domain.length) : StartsComplete (domain.drop i) := by
  obtain ⟨hc, rfl⟩ := h
  exact startsComplete_drop_flatten (fun part hp => (hc part hp).startsComplete_drop) hi

theorem Leaves.exists_of_not_startsComplete {domain : Domain} {pending : List Demand}
    (h : Leaves domain pending) {i : Nat} (hi : i < domain.length)
    (hn : ¬ StartsComplete (domain.drop i)) : ∃ d ∈ pending, d.position = i := by
  induction h generalizing i with
  | settled hm => exact absurd (hm.startsComplete_drop hi) hn
  | @operator before operands pending parts op _ hm _ ih =>
    rw [List.length_append, List.length_cons] at hi
    rcases Nat.lt_trichotomy i before.length with hlt | rfl | hgt
    · rw [List.drop_append_of_le_length (Nat.le_of_lt hlt)] at hn
      obtain ⟨d, hd, hposition⟩ := ih hlt fun hs => hn (hs.append _)
      exact ⟨d, by simp [hd], hposition⟩
    · exact ⟨_, List.mem_cons_self, rfl⟩
    · have hdrop : (before ++ .operator op :: operands).drop i =
          operands.drop (i - before.length - 1) := by
        obtain ⟨k, rfl⟩ := Nat.exists_eq_add_of_lt hgt
        rw [Nat.add_assoc, List.drop_length_add_append, Nat.add_sub_cancel_left,
          Nat.add_sub_cancel]
        rfl
      rw [hdrop] at hn
      exact absurd (hm.startsComplete_drop (by omega)) hn

theorem position_of_mem_pendingFrom {pending : List Demand} {position : Nat} {domain : Domain}
    {d : Demand} (h : d ∈ pendingFrom pending position domain) :
    (∃ e ∈ pending, e.position = d.position) ∨ position ≤ d.position := by
  induction domain generalizing pending position with
  | nil => exact .inl ⟨d, h, rfl⟩
  | cons n ns ih =>
    rcases ih h with ⟨e, he, hposition⟩ | hle
    · cases n with
      | condition c =>
        obtain ⟨e', he', hsame⟩ := exists_of_mem_settle he
        exact .inl ⟨e', he', hsame.trans hposition⟩
      | operator op =>
        rcases List.mem_cons.mp he with rfl | he
        · exact .inr (Nat.le_of_eq hposition)
        · exact .inl ⟨e, he, hposition⟩
    · exact .inr (Nat.le_of_succ_le hle)

/-- An open demand has no complete chain: whatever is left open behind one stands before or behind
all of it. -/
theorem not_startsComplete_of_mem_demands {domain : Domain} {d : Demand} (h : d ∈ domain.demands) :
    ¬ StartsComplete (domain.drop d.position) := by
  rintro ⟨part, rest, hp, heq⟩
  have hlt : d.position < domain.length := (leaves_demands domain).position_lt d h
  have hlen : (domain.take d.position).length = d.position :=
    List.length_take_of_le (Nat.le_of_lt hlt)
  have hpos : 0 < part.length := List.length_pos_iff.mpr hp.ne_nil
  rw [← List.take_append_drop d.position domain, heq, demands_append, hp.pendingFrom_append,
    hlen] at h
  rcases position_of_mem_pendingFrom h with ⟨e, he, hposition⟩ | hle
  · obtain ⟨e', he', hsame⟩ := exists_of_mem_settle he
    have hbefore := (leaves_demands (domain.take d.position)).position_lt e' he'
    omega
  · omega

theorem Leading.unique {parts others : List Domain} {domain : Domain} (h : Leading parts domain)
    (ho : Leading others domain) : parts = others := by
  obtain ⟨hc, rest, heq, hrest⟩ := h
  obtain ⟨hc', rest', heq', hrest'⟩ := ho
  induction parts generalizing domain others with
  | nil =>
    cases others with
    | nil => rfl
    | cons other others =>
      refine absurd ⟨other, others.flatten ++ rest', hc' other (by simp), ?_⟩ hrest
      rw [← List.append_assoc, ← List.flatten_cons, ← heq', heq, List.flatten_nil, List.nil_append]
  | cons part parts ih =>
    cases others with
    | nil =>
      refine absurd ⟨part, parts.flatten ++ rest, hc part (by simp), ?_⟩ hrest'
      rw [← List.append_assoc, ← List.flatten_cons, ← heq, heq', List.flatten_nil, List.nil_append]
    | cons other others =>
      rw [heq, List.flatten_cons, List.flatten_cons, List.append_assoc, List.append_assoc] at heq'
      obtain ⟨rfl, htail⟩ := (hc part (by simp)).append_inj (hc' other (by simp)) heq'
      rw [ih (fun part hp => hc part (by simp [hp])) rfl
        (fun other hp => hc' other (by simp [hp])) htail]

theorem Leaves.exists_leading {domain : Domain} {pending : List Demand} (h : Leaves domain pending) :
    ∀ d ∈ pending, ∃ operands, Leading operands (domain.drop (d.position + 1)) ∧
      d.owed = d.operator.arity - operands.length := by
  induction h with
  | settled => simp
  | @operator before operands pending parts op h hm hlt ih =>
    have hall : Leaves (before ++ .operator op :: operands) _ := .operator op h hm hlt
    refine List.forall_mem_cons.mpr ⟨⟨parts, ⟨hm.complete, [], ?_, not_startsComplete_nil⟩, rfl⟩, ?_⟩
    · rw [List.drop_length_add_append, List.append_nil, hm.flatten_eq]
      rfl
    · intro d hd
      obtain ⟨chains, ⟨hc, rest, hdrop, hrest⟩, howed⟩ := ih d hd
      have hposition := h.position_lt d hd
      refine ⟨chains, ⟨hc, rest ++ .operator op :: operands, ?_, ?_⟩, howed⟩
      · rw [List.drop_append_of_le_length hposition, hdrop, List.append_assoc]
      · -- the next open demand stands behind the chains
        have hplace : rest = before.drop (d.position + 1 + chains.flatten.length) := by
          rw [← List.drop_drop, hdrop, List.drop_left]
        have hlen := congrArg List.length hdrop
        rw [List.length_drop, List.length_append] at hlen
        have hnext : ∃ e ∈ (⟨before.length, op, op.arity - parts.length⟩ :: pending : List Demand),
            e.position = d.position + 1 + chains.flatten.length := by
          by_cases hend : d.position + 1 + chains.flatten.length < before.length
          · obtain ⟨e, he, heq⟩ := h.exists_of_not_startsComplete hend (hplace ▸ hrest)
            exact ⟨e, by simp [he], heq⟩
          · exact ⟨_, List.mem_cons_self, by simp only; omega⟩
        obtain ⟨e, he, heq⟩ := hnext
        have hopen := not_startsComplete_of_mem_demands (hall.demands_eq ▸ he)
        rwa [heq, List.drop_append_of_le_length (by omega), ← hplace] at hopen

end Completeness

/-- Behind any part of a domain the open demands are just the operators there whose chain is not
complete yet, in the order of their places. Each of them misses as many operands as are not complete
behind it, and so at least one: no operand is ever taken from a demand that misses none. -/
theorem demands_exact (before after : Domain) :
    (before ++ after).demands = pendingFrom before.demands before.length after ∧
      before.demands.reverse.Pairwise (fun outer inner => outer.position < inner.position) ∧
      (∀ position op, (∃ d ∈ before.demands, d.position = position ∧ d.operator = op) ↔
        before[position]? = some (.operator op) ∧ ¬ StartsComplete (before.drop position)) ∧
      (∀ d ∈ before.demands, 0 < d.owed ∧ d.owed ≤ d.operator.arity ∧
        ∃ operands, Leading operands (before.drop (d.position + 1)) ∧
          (∀ others, Leading others (before.drop (d.position + 1)) → others = operands) ∧
          d.owed = d.operator.arity - operands.length) ∧
      settle? before.demands = some (settle before.demands) := by
  have h := leaves_demands before
  refine ⟨demands_append before after, List.pairwise_reverse.mpr h.pairwise, ?_, ?_,
    settle?_eq_some fun d hd => (h.owed_bounds d hd).1⟩
  · intro position op
    constructor
    · rintro ⟨d, hd, rfl, rfl⟩
      exact ⟨h.getElem?_position d hd, not_startsComplete_of_mem_demands hd⟩
    · rintro ⟨hget, hn⟩
      obtain ⟨hlt, -⟩ := List.getElem?_eq_some_iff.mp hget
      obtain ⟨d, hd, rfl⟩ := h.exists_of_not_startsComplete hlt hn
      rw [h.getElem?_position d hd] at hget
      cases hget
      exact ⟨d, hd, rfl, rfl⟩
  · intro d hd
    obtain ⟨hpos, hle⟩ := h.owed_bounds d hd
    obtain ⟨operands, hleading, howed⟩ := h.exists_leading d hd
    exact ⟨hpos, hle, operands, hleading, fun others ho => ho.unique hleading, howed⟩

/-- The chain inside is complete, and with it one operand of the operator around it. -/
theorem demands_exact_nested :
    ⟨0, .and, 1⟩ ∈
        demands [.operator .and, .operator .not, .condition ⟨"a", .equal, .null⟩] ∧
      ¬ StartsComplete [.operator .and, .operator .not, .condition ⟨"a", .equal, .null⟩] ∧
      ∃ operands, Leading operands [.operator .not, .condition ⟨"a", .equal, .null⟩] ∧
        1 = 2 - operands.length := by
  have hd : ⟨0, .and, 1⟩ ∈
      demands [.operator .and, .operator .not, .condition ⟨"a", .equal, .null⟩] :=
    List.mem_singleton_self _
  obtain ⟨-, -, hopen, howed, -⟩ :=
    demands_exact [.operator .and, .operator .not, .condition ⟨"a", .equal, .null⟩] []
  obtain ⟨-, -, operands, hleading, -, hcount⟩ := howed _ hd
  exact ⟨hd, ((hopen 0 .and).mp ⟨_, hd, rfl, rfl⟩).2, operands, hleading, hcount⟩

end Domain
end QueryDomain

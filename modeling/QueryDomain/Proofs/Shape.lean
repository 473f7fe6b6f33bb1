import Mathlib.Logic.Relation
import QueryDomain.Proofs.Limit
import QueryDomain.Proofs.Text.Splitting

/-! The shape of a domain as a whole: brackets and quotes that match, square brackets around it,
and members that are tuples or operators. Once the brackets and quotes between the outermost square
brackets match, they match in every text that is read inside, and the lists that are read as
domains have been seen to have the right shape before. -/
namespace QueryDomain

open Text Domain

/-- Whether a fault is in the shape of a domain as a whole. -/
def Fault.isOuter : Fault → Bool
  | .unbalanced .. | .notBracketed .. | .unknownOperator .. | .unexpectedTerm .. => true
  | _ => false

def Imbalance.summary : Imbalance → String
  | strayCloser closer offset =>
    "unbalanced '" ++ String.ofList [closer] ++ "' at byte " ++ toString offset
  | openQuote quote => "unterminated " ++ String.ofList [quote] ++ " quote"
  | openGroup bracket => "missing '" ++ String.ofList [bracket.closing] ++ "'"

theorem Imbalance.message_eq (cause : Imbalance) (interior : Text) :
    cause.message interior = cause.summary ++ " in `" ++ String.ofList interior ++ "`" := by
  -- a message has what is behind the cause and what is in front of the text in one piece
  have hquote : " quote in `" = " quote" ++ " in `" := by decide
  have hcloser : "' in `" = "'" ++ " in `" := by decide
  cases cause with
  | strayCloser => rfl
  | openQuote quote =>
    show "unterminated " ++ String.ofList [quote] ++ " quote in `" ++ String.ofList interior ++
      "`" = "unterminated " ++ String.ofList [quote] ++ " quote" ++ " in `" ++ _ ++ "`"
    rw [hquote, ← String.append_assoc]
  | openGroup bracket =>
    show "missing '" ++ String.ofList [bracket.closing] ++ "' in `" ++ String.ofList interior ++
      "`" = "missing '" ++ String.ofList [bracket.closing] ++ "'" ++ " in `" ++ _ ++ "`"
    rw [hcloser, ← String.append_assoc]

/-- A text that one of the readers is called on: a value, a member of a domain, an item of another
list, or what is between the parentheses of a tuple. -/
inductive Call
  | value (cs : Text)
  | node (part : Text)
  | item (part : Text)
  | tuple (inner : Text)

namespace Call

def text : Call → Text
  | value cs => cs
  | node part => part
  | item part => part
  | tuple inner => inner

def run (limit depth : Nat) : Call → Except Fault Unit
  | value cs => (readValue limit depth cs).map fun _ => ()
  | node part => (readNode limit depth (trim part)).map fun _ => ()
  | item part => (readItem limit depth part).map fun _ => ()
  | tuple inner => (readCondition limit depth inner).map fun _ => ()

/-- Whether the call can cut what it has to cut. -/
def CanCut : Call → Prop
  | value cs => ∀ inner, interior? .square (trim cs) = some inner → ∃ parts, cut inner = .ok parts
  | tuple inner => ∃ parts, cutAtMost 3 inner = .ok parts
  | _ => True

/-- Whether the call takes its text for a list that is a domain. -/
def IsDomain : Call → Prop
  | value cs => ∃ inner parts, interior? .square (trim cs) = some inner ∧ cut inner = .ok parts ∧
    formsDomain parts
  | _ => False

/-- The calls that a call makes unless there is a fault before them. -/
inductive Makes : Call → Call → Prop
  | node {cs inner part : Text} {parts : List Text} :
    interior? .square (trim cs) = some inner → cut inner = .ok parts → formsDomain parts →
    part ∈ parts → trim part ≠ [] → Makes (.value cs) (.node part)
  | item {cs inner part : Text} {parts : List Text} :
    interior? .square (trim cs) = some inner → cut inner = .ok parts → ¬ formsDomain parts →
    part ∈ parts → trim part ≠ [] → Makes (.value cs) (.item part)
  | tupleOfNode {part inner : Text} :
    interior? .round (trim part) = some inner → Makes (.node part) (.tuple inner)
  | tupleOfItem {part inner : Text} :
    interior? .round (trim part) = some inner → Makes (.item part) (.tuple inner)
  | valueOfItem {part : Text} :
    interior? .round (trim part) = none → Makes (.item part) (.value part)
  | valueOfTuple {inner field comparator value : Text} :
    cutAtMost 3 inner = .ok [field, comparator, value] → Makes (.tuple inner) (.value value)

/-- The calls that are made in the course of a call, the call itself included. -/
def Reaches : Call → Call → Prop := Relation.ReflTransGen Makes

/-- The faults in the outer shape that a call finds by itself. -/
inductive Raises : Call → Fault → Prop
  | list {cs inner : Text} {cause : Imbalance} : interior? .square (trim cs) = some inner →
    cut inner = .error cause → Raises (.value cs) (.unbalanced cause inner)
  | tuple {inner : Text} {cause : Imbalance} : cutAtMost 3 inner = .error cause →
    Raises (.tuple inner) (.unbalanced cause inner)
  | unexpectedTerm {part : Text} : isTuple part = false → isOperator part = false →
    Raises (.node part) (.unexpectedTerm (trim part))
  | unknownOperator {part : Text} : isTuple part = false → isOperator part = false →
    Raises (.node part) (.unknownOperator (trim part))

end Call

open Call

section Origin

variable {limit depth : Nat}

def Traced {α : Type} (call : Call) (result : Except Fault α) : Prop :=
  ∀ fault, result = .error fault → fault.isOuter → ∃ inner, Reaches call inner ∧ inner.Raises fault

namespace Traced

variable {α β : Type} {call : Call}

theorem ok (a : α) : Traced call (.ok a) := by
  intro fault h
  cases h

theorem other {fault : Fault} (h : fault.isOuter = false) :
    Traced call (.error fault : Except Fault α) := by
  intro fault' h' ho
  cases h'
  rw [h] at ho
  cases ho

theorem raised {fault : Fault} (h : call.Raises fault) :
    Traced call (.error fault : Except Fault α) := by
  intro fault' h' _
  cases h'
  exact ⟨call, .refl, h⟩

theorem of_makes {inner : Call} {result : Except Fault α} (hm : call.Makes inner)
    (h : Traced inner result) : Traced call result := by
  intro fault hf ho
  obtain ⟨last, hreach, hraise⟩ := h fault hf ho
  exact ⟨last, .head hm hreach, hraise⟩

theorem bind {result : Except Fault α} {next : α → Except Fault β} (h : Traced call result)
    (hn : ∀ a, Traced call (next a)) : Traced call (result >>= next) := by
  cases result with
  | error fault => exact fun fault' hf => h fault' (by cases hf; rfl)
  | ok a => exact hn a

theorem map {result : Except Fault α} (h : Traced call result) (f : α → β) :
    Traced call (result.map f) := by
  cases result with
  | error fault => exact fun fault' hf => h fault' (by cases hf; rfl)
  | ok a => exact ok _

theorem readParts {fault : Fault} (hfault : fault.isOuter = false) {read : Text → Except Fault α}
    {parts : List Text} (h : ∀ part ∈ parts, trim part ≠ [] → Traced call (read part)) :
    Traced call (QueryDomain.readParts fault read parts) := by
  intro other hf ho
  rcases eq_or_exists_of_readParts hf with rfl | ⟨part, hp, hne, hread⟩
  · rw [hfault] at ho
    cases ho
  · exact h part hp hne other hread ho

end Traced

theorem Comparator.read_isOuter {cs : Text} {fault : Fault} (h : Comparator.read cs = .error fault) :
    fault.isOuter = false := by
  rw [Comparator.read] at h
  split at h <;> cases h
  rfl

theorem Domain.validate_isOuter {domain : Domain} {fault : Fault}
    (h : domain.validate = .error fault) : fault.isOuter = false := by
  rw [Domain.validate, Domain.check] at h
  split at h <;> cases h
  rfl

/-- What is assumed of the values inside of a text. -/
def TracedInside (limit : Nat) (cs : Text) : Prop :=
  ∀ value, value <:+: cs → ∀ depth, Traced (.value value) (readValue limit depth value)

theorem TracedInside.of_isInfix {cs part : Text} (h : TracedInside limit cs) (hp : part <:+: cs) :
    TracedInside limit part := fun value hv => h value (hv.trans hp)

theorem traced_readCondition {inner : Text} (hv : TracedInside limit inner) :
    Traced (.tuple inner) (readCondition limit depth inner) := by
  rw [readCondition_eq]
  split
  · rename_i hcut
    exact .raised (.tuple hcut)
  · rename_i field comparator value hcut
    have hvalue : value <:+: inner := join_cutAtMost hcut ▸ isInfix_of_mem_join (by simp)
    rw [finish]
    split
    · exact .other rfl
    · split
      · exact .other rfl
      · refine Traced.bind ?_ fun known => ?_
        · cases hk : Comparator.read (unquote comparator) with
          | ok known => exact .ok _
          | error fault => exact .other (Comparator.read_isOuter hk)
        · refine ((hv value hvalue depth).of_makes (.valueOfTuple hcut)).bind fun v => ?_
          split
          · exact .other rfl
          · exact .ok _
  · exact .other rfl

theorem traced_readNode {part : Text} (hv : TracedInside limit part) :
    Traced (.node part) (readNode limit depth (trim part)) := by
  rw [readNode_eq]
  cases hi : interior? .round (trim part) with
  | some inner =>
    have hinner : inner <:+: part := (isInfix_of_interior? hi).trans (trim_isInfix part)
    exact ((traced_readCondition (hv.of_isInfix hinner)).map _).of_makes (.tupleOfNode hi)
  | none =>
    have htuple : isTuple part = false := by rw [isTuple, hi]; rfl
    cases hq : quotation? (trim part) with
    | none => exact .raised (.unexpectedTerm htuple (by rw [isOperator, hq]; rfl))
    | some body =>
      cases ho : Operator.ofSymbol? (trim body) with
      | some op =>
        simp only [ho]
        exact .ok _
      | none =>
        simp only [ho]
        refine .raised (.unknownOperator htuple ?_)
        rw [isOperator, hq, Option.bind_some, ho]
        rfl

theorem traced_readItem {part : Text} (hv : TracedInside limit part) :
    Traced (.item part) (readItem limit depth part) := by
  rw [readItem]
  cases hi : interior? .round (trim part) with
  | some inner =>
    have hinner : inner <:+: part := (isInfix_of_interior? hi).trans (trim_isInfix part)
    exact ((traced_readCondition (hv.of_isInfix hinner)).map _).of_makes (.tupleOfItem hi)
  | none => exact (hv part List.infix_rfl depth).of_makes (.valueOfItem hi)

theorem traced_readGroup {cs inner : Text} {parts : List Text}
    (hi : interior? .square (trim cs) = some inner) (hcut : cut inner = .ok parts)
    (hv : TracedInside limit inner) :
    Traced (.value cs) (readGroup limit depth (trim cs) parts) := by
  have hpart : ∀ part ∈ parts, TracedInside limit part := fun part hp =>
    hv.of_isInfix (isInfix_of_cut hcut hp)
  have hdescend : Traced (.value cs) (descend limit depth) := by
    rw [descend]
    split
    · exact .ok _
    · exact .other rfl
  refine hdescend.bind fun deeper => ?_
  split
  · rename_i hf
    rw [readNodes_eq_readParts]
    refine Traced.bind (.readParts rfl fun part hp hne => ?_) fun nodes => ?_
    · exact (traced_readNode (hpart part hp)).of_makes (.node hi hcut hf hp hne)
    · cases hc : validate nodes with
      | ok nodes => exact .ok _
      | error fault => exact .other (Domain.validate_isOuter hc)
  · rename_i hf
    rw [readItems_eq_readParts]
    refine Traced.bind (.readParts rfl fun part hp hne => ?_) fun items => .ok _
    exact (traced_readItem (hpart part hp)).of_makes (.item hi hcut hf hp hne)

theorem traced_readValue (limit : Nat) (cs : Text) (depth : Nat) :
    Traced (.value cs) (readValue limit depth cs) := by
  induction hn : cs.length using Nat.strong_induction_on generalizing cs depth with
  | _ n ih =>
    rw [readValue_eq]
    split
    · exact .ok _
    · cases hi : interior? .square (trim cs) with
      | none => exact .ok _
      | some inner =>
        cases hcut : cut inner with
        | error cause =>
          simp only [hcut]
          exact .raised (.list hi hcut)
        | ok parts =>
          simp only [hcut]
          refine traced_readGroup hi hcut fun value hvalue depth => ?_
          have hlen := hvalue.length_le
          have hinner := length_interior? hi
          have htrim := length_trim_le cs
          exact ih value.length (by omega) value depth rfl

theorem tracedInside (limit : Nat) (cs : Text) : TracedInside limit cs :=
  fun value _ depth => traced_readValue limit value depth

theorem Call.traced_run (call : Call) (limit depth : Nat) : Traced call (call.run limit depth) := by
  cases call with
  | value cs => exact (traced_readValue limit cs depth).map _
  | node part => exact (traced_readNode (tracedInside limit part)).map _
  | item part => exact (traced_readItem (tracedInside limit part)).map _
  | tuple inner => exact (traced_readCondition (tracedInside limit inner)).map _

end Origin

section Inside

namespace Call

variable {call : Call}

/-- A call inside of a domain: brackets and quotes match, and what is to be a member of a domain
has been seen as a tuple or an operator. -/
structure Inner (call : Call) : Prop where
  balanced : Balanced call.text
  fits : ∀ part, call = .node part → isTuple part ∨ isOperator part

theorem Makes.inner {next : Call} (hm : call.Makes next) (h : Balanced call.text) :
    next.Inner := by
  cases hm with
  | @node cs inner part parts hi hc hf hp hne =>
    refine ⟨((parts_of_cut hc).2 part hp).1, ?_⟩
    rintro _ ⟨⟩
    exact ((formsDomain_iff.mp hf).2 part hp).resolve_left hne
  | item hi hc _ hp => exact ⟨((parts_of_cut hc).2 _ hp).1, by rintro _ ⟨⟩⟩
  | tupleOfNode hi => exact ⟨(balanced_trim_iff.mpr h).of_interior? hi, by rintro _ ⟨⟩⟩
  | tupleOfItem hi => exact ⟨(balanced_trim_iff.mpr h).of_interior? hi, by rintro _ ⟨⟩⟩
  | valueOfItem => exact ⟨h, by rintro _ ⟨⟩⟩
  | @valueOfTuple inner field comparator value hc =>
    exact ⟨(parts_of_cutAtMost (by decide) hc).1 value (by simp), by rintro _ ⟨⟩⟩

theorem Reaches.balanced {last : Call} (hr : call.Reaches last) (h : Balanced call.text) :
    Balanced last.text := by
  induction hr with
  | refl => exact h
  | tail _ hm ih => exact (hm.inner ih).balanced

theorem Reaches.inner {last : Call} (hr : call.Reaches last) (h : call.Inner) : last.Inner := by
  induction hr with
  | refl => exact h
  | tail _ hm ih => exact hm.inner ih.balanced

theorem canCut_of_balanced (h : Balanced call.text) : call.CanCut := by
  cases call with
  | value cs =>
    intro inner hi
    exact exists_cut_iff.mpr ((balanced_trim_iff.mpr h).of_interior? hi)
  | tuple inner => exact exists_cutAtMost_iff.mpr h
  | node part => trivial
  | item part => trivial

theorem Raises.ne_unbalanced {fault : Fault} (hr : call.Raises fault) (h : Balanced call.text)
    (cause : Imbalance) (interior : Text) : fault ≠ .unbalanced cause interior := by
  have hcan := canCut_of_balanced h
  cases hr with
  | list hi hc =>
    obtain ⟨parts, hparts⟩ := hcan _ hi
    cases hc.symm.trans hparts
  | tuple hc =>
    obtain ⟨parts, hparts⟩ := hcan
    cases hc.symm.trans hparts
  | unexpectedTerm => simp
  | unknownOperator => simp

theorem Inner.not_raises {fault : Fault} (h : call.Inner) : ¬ call.Raises fault := by
  intro hr
  cases hr with
  | list => exact Raises.ne_unbalanced (.list ‹_› ‹_›) h.balanced _ _ rfl
  | tuple => exact Raises.ne_unbalanced (.tuple ‹_›) h.balanced _ _ rfl
  | unexpectedTerm ht ho => simpa [ht, ho] using h.fits _ rfl
  | unknownOperator ht ho => simpa [ht, ho] using h.fits _ rfl

theorem IsDomain.exists_value (h : call.IsDomain) :
    ∃ cs inner parts, call = .value cs ∧ interior? .square (trim cs) = some inner ∧
      cut inner = .ok parts ∧ formsDomain parts := by
  cases call with
  | value cs =>
    obtain ⟨inner, parts, hi, hcut, hf⟩ := h
    exact ⟨cs, inner, parts, rfl, hi, hcut, hf⟩
  | node part => cases h
  | item part => cases h
  | tuple inner => cases h

theorem IsDomain.readValue_eq_readAt (h : call.IsDomain) (limit depth : Nat) :
    readValue limit depth call.text = (readAt limit depth call.text).map Domain.toValue := by
  obtain ⟨cs, inner, parts, rfl, hi, hcut, hf⟩ := h.exists_value
  exact QueryDomain.readValue_eq_readAt hi hcut hf

end Call

namespace Traced

variable {α : Type} {call : Call} {result : Except Fault α} {fault : Fault}

theorem ne_unbalanced (ht : Traced call result) (h : Balanced call.text) (cause : Imbalance)
    (interior : Text) : result ≠ .error (.unbalanced cause interior) := by
  intro hf
  obtain ⟨last, hreach, hraise⟩ := ht _ hf rfl
  exact hraise.ne_unbalanced (hreach.balanced h) cause interior rfl

theorem isOuter_eq_false (ht : Traced call result) (h : call.Inner) (hf : result = .error fault) :
    fault.isOuter = false := by
  rw [Bool.eq_false_iff]
  intro ho
  obtain ⟨last, hreach, hraise⟩ := ht fault hf ho
  exact (hreach.inner h).not_raises hraise

end Traced

theorem Call.IsDomain.readAt_isOuter {call : Call} (h : call.IsDomain) (hb : Balanced call.text)
    {limit depth : Nat} {fault : Fault} (hf : readAt limit depth call.text = .error fault) :
    fault.isOuter = false := by
  have hread := h.readValue_eq_readAt limit depth
  rw [hf] at hread
  obtain ⟨cs, inner, parts, rfl, -⟩ := h.exists_value
  exact (traced_readValue limit cs depth).isOuter_eq_false ⟨hb, by rintro _ ⟨⟩⟩ hread

end Inside

namespace Domain

section Outermost

variable {limit : Nat} {text : String}

/-- A fault in the outer shape that is found in the members of a domain is one of a member
itself: what is inside of it has been checked before. -/
theorem exists_raises_of_read (hlimit : 0 < limit) {inner : Text} {parts : List Text}
    (hi : interior? .square (trim text.toList) = some inner) (hcut : cut inner = .ok parts)
    {fault : Fault} (hf : Domain.read limit text = .error fault) (ho : fault.isOuter) :
    ∃ part ∈ parts, (Call.node part).Raises fault := by
  rw [read_eq_readAt, readAt_group hi hcut, descend, if_pos hlimit, Outcome.ok_bind,
    readNodes_eq_readParts] at hf
  cases hn : readParts (.emptyTerm (trim text.toList))
      (fun part => readNode limit (0 + 1) (trim part)) parts with
  | ok nodes =>
    rw [hn, Outcome.ok_bind] at hf
    rw [validate_isOuter hf] at ho
    cases ho
  | error first =>
    rw [hn, Outcome.error_bind] at hf
    cases hf
    rcases eq_or_exists_of_readParts hn with rfl | ⟨part, hp, -, hread⟩
    · cases ho
    · have hb : Balanced part := ((parts_of_cut hcut).2 part hp).1
      obtain ⟨last, hreach, hraise⟩ := traced_readNode (tracedInside limit part) _ hread ho
      refine ⟨part, hp, ?_⟩
      rcases hreach.cases_head with rfl | ⟨next, hmakes, hreach⟩
      · exact hraise
      · exact absurd hraise (Reaches.inner hreach (hmakes.inner hb)).not_raises

theorem read_eq_unbalanced_iff (hlimit : 0 < limit) {cause : Imbalance} {interior : Text} :
    Domain.read limit text = .error (.unbalanced cause interior) ↔
      interior? .square (trim text.toList) = some interior ∧ cut interior = .error cause := by
  cases hi : interior? .square (trim text.toList) with
  | none =>
    rw [read_eq_readAt, readAt, descend, if_pos hlimit, hi]
    split
    · simp
    · simp [throw, throwThe, MonadExceptOf.throw]
  | some inner =>
    cases hcut : cut inner with
    | error other =>
      rw [read_eq_readAt, readAt, if_neg (ne_nil_of_interior? hi), descend, if_pos hlimit, hi]
      simp only [hcut, Outcome.ok_bind, throw, throwThe, MonadExceptOf.throw, Except.error.injEq,
        Fault.unbalanced.injEq, Option.some.injEq]
      constructor
      · rintro ⟨rfl, rfl⟩
        exact ⟨rfl, hcut⟩
      · rintro ⟨rfl, hc⟩
        exact ⟨Except.error.inj (hcut.symm.trans hc), rfl⟩
    | ok parts =>
      constructor
      · intro hf
        obtain ⟨part, hp, hraise⟩ := exists_raises_of_read hlimit hi hcut hf rfl
        exact absurd rfl (hraise.ne_unbalanced ((parts_of_cut hcut).2 part hp).1 cause interior)
      · rintro ⟨hinner, hc⟩
        cases hinner
        cases hcut.symm.trans hc

theorem exists_read_eq_unbalanced_iff (hlimit : 0 < limit) :
    (∃ cause interior, Domain.read limit text = .error (.unbalanced cause interior)) ↔
      ∃ inner, interior? .square (trim text.toList) = some inner ∧ ¬ Balanced inner := by
  simp only [read_eq_unbalanced_iff hlimit]
  constructor
  · rintro ⟨cause, inner, hi, hcut⟩
    refine ⟨inner, hi, fun hb => ?_⟩
    obtain ⟨parts, hparts⟩ := exists_cut_iff.mpr hb
    cases hcut.symm.trans hparts
  · rintro ⟨inner, hi, hb⟩
    cases hcut : cut inner with
    | error cause => exact ⟨cause, inner, hi, hcut⟩
    | ok parts => exact absurd (exists_cut_iff.mp ⟨parts, hcut⟩) hb

/-- A domain is refused for its brackets and quotes exactly if they do not match between the
outermost square brackets, and then for all that is between these. Where they match, no text that
is read inside is refused for them, and a list that is read as a domain is never refused for the
brackets around it or for a member that is neither a tuple nor an operator. -/
theorem unbalanced_iff_outermost (limit : Nat) (text : String) (hlimit : 0 < limit) :
    ((∃ cause interior, Domain.read limit text = .error (.unbalanced cause interior)) ↔
        ∃ inner, interior? .square (trim text.toList) = some inner ∧ ¬ Balanced inner) ∧
      (∀ cause interior, Domain.read limit text = .error (.unbalanced cause interior) →
        interior? .square (trim text.toList) = some interior ∧
          (Fault.unbalanced cause interior).message =
            "invalid syntax: " ++ (cause.summary ++ " in `" ++ String.ofList interior ++ "`")) ∧
      ∀ inner, interior? .square (trim text.toList) = some inner → Balanced inner →
        ∃ parts, cut inner = .ok parts ∧
          (∀ fault, Domain.read limit text = .error fault → fault.isOuter →
            ∃ part ∈ parts, (Call.node part).Raises fault) ∧
          ∀ part ∈ parts, ∀ call, Call.Reaches (.node part) call →
            call.CanCut ∧
            (∀ depth cause interior,
              call.run limit depth ≠ .error (.unbalanced cause interior)) ∧
            (call.IsDomain → ∀ depth,
              readValue limit depth call.text =
                  (readAt limit depth call.text).map Domain.toValue ∧
                ∀ fault, readAt limit depth call.text = .error fault → fault.isOuter = false) := by
  refine ⟨exists_read_eq_unbalanced_iff hlimit, ?_, ?_⟩
  · intro cause interior hf
    refine ⟨((read_eq_unbalanced_iff hlimit).mp hf).1, ?_⟩
    rw [← Imbalance.message_eq]
    rfl
  · intro inner hi hb
    obtain ⟨parts, hcut⟩ := exists_cut_iff.mpr hb
    refine ⟨parts, hcut, fun fault hf ho => exists_raises_of_read hlimit hi hcut hf ho, ?_⟩
    intro part hp call hreach
    have hcall : Balanced call.text := hreach.balanced ((parts_of_cut hcut).2 part hp).1
    refine ⟨canCut_of_balanced hcall, fun depth => (call.traced_run limit depth).ne_unbalanced hcall,
      fun hdomain depth => ?_⟩
    exact ⟨hdomain.readValue_eq_readAt limit depth, fun fault hf =>
      hdomain.readAt_isOuter hcall hf⟩

theorem unbalanced_iff_outermost_openGroup :
    0 < 32 ∧
      ∃ cause interior, Domain.read 32 "[('a', '=', 1]" = .error (.unbalanced cause interior) :=
  ⟨by decide, (unbalanced_iff_outermost 32 "[('a', '=', 1]" (by decide)).1.mpr
    ⟨"('a', '=', 1".toList, by decide, by decide⟩⟩

end Outermost
end Domain
end QueryDomain

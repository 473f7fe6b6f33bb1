import QueryDomain.Proofs.Agreement

/-! Reading under different limits of nesting. Every text needs a number of brackets: with this
limit or a greater one it is always read in the same way, and with a smaller one the limit is all
that is complained about. What is read without a fault needs the brackets that are in it. -/
namespace QueryDomain

open Text

section Settling

variable {α β γ : Type} {depth most : Nat}

/-- What a reader inside `depth` brackets does under the limits it may have come there with, if it
asks for `more` brackets before it ends. -/
structure Settles (depth more : Nat) (result : Except Fault α) (run : Nat → Except Fault α) :
    Prop where
  enough : ∀ limit, depth + more ≤ limit → run limit = result
  tooFew : ∀ limit, depth ≤ limit → limit < depth + more → run limit = .error (.tooDeep limit)
  not_tooDeep : ∀ limit, result ≠ .error (.tooDeep limit)

/-- A reader that asks for at most `most` brackets, the number of which is known from a result. -/
def Settled (depth most : Nat) (p : Nat → α → Prop) (run : Nat → Except Fault α) : Prop :=
  ∃ more ≤ most, ∃ result, Settles depth more result run ∧ ∀ a, result = .ok a → p more a

namespace Settled

variable {p : Nat → α → Prop} {q : Nat → β → Prop} {r : Nat → γ → Prop}

theorem const {result : Except Fault α} (h : ∀ limit, result ≠ .error (.tooDeep limit))
    (hp : ∀ a, result = .ok a → p 0 a) : Settled depth most p fun _ => result := by
  refine ⟨0, Nat.zero_le most, result, ⟨fun _ _ => rfl, ?_, h⟩, hp⟩
  intro limit hle hlt
  omega

theorem mono {run : Nat → Except Fault α} (h : Settled depth most p run) {most' : Nat}
    (hle : most ≤ most') : Settled depth most' p run := by
  obtain ⟨more, hmore, hrest⟩ := h
  exact ⟨more, Nat.le_trans hmore hle, hrest⟩

theorem imp {run : Nat → Except Fault α} (h : Settled depth most p run) {p' : Nat → α → Prop}
    (hp : ∀ more a, p more a → p' more a) : Settled depth most p' run := by
  obtain ⟨more, hmore, result, hs, hresult⟩ := h
  exact ⟨more, hmore, result, hs, fun a ha => hp more a (hresult a ha)⟩

theorem andThen {run : Nat → Except Fault α} (h : Settled depth most p run)
    {next : α → Except Fault β} (hnext : ∀ a limit, next a ≠ .error (.tooDeep limit))
    (hq : ∀ a b more, p more a → next a = .ok b → q more b) :
    Settled depth most q fun limit => run limit >>= next := by
  obtain ⟨more, hmore, result, hs, hp⟩ := h
  refine ⟨more, hmore, result >>= next, ⟨?_, ?_, ?_⟩, ?_⟩
  · intro limit hle
    rw [hs.enough limit hle]
  · intro limit hle hlt
    rw [hs.tooFew limit hle hlt, Outcome.error_bind]
  · intro limit
    cases result with
    | error fault => exact fun h => hs.not_tooDeep limit (by cases h; rfl)
    | ok a => exact hnext a limit
  · intro b hb
    obtain ⟨a, ha, hab⟩ := Outcome.bind_eq_ok_iff.mp hb
    exact hq a b more (hp a ha) hab

theorem map {run : Nat → Except Fault α} (h : Settled depth most p run) {f : α → β}
    (hq : ∀ a more, p more a → q more (f a)) :
    Settled depth most q fun limit => (run limit).map f := by
  have hbind : ∀ x : Except Fault α, x.map f = x >>= fun a => .ok (f a) := by
    intro x
    cases x <;> rfl
  simp only [hbind]
  refine h.andThen (fun a limit h => by cases h) fun a b more ha h => ?_
  cases h
  exact hq a more ha

/-- Of two readers one after the other, the second does not matter if the first finds a fault. -/
theorem both {first : Nat → Except Fault α} {second : Nat → Except Fault β}
    (hfirst : Settled depth most p first) (hsecond : Settled depth most q second) {f : α → β → γ}
    (hr : ∀ a b more more', p more a → q more' b → r (max more more') (f a b)) :
    Settled depth most r fun limit => do
      let a ← first limit
      let b ← second limit
      return f a b := by
  obtain ⟨more, hmore, result, hs, hp⟩ := hfirst
  obtain ⟨more', hmore', result', hs', hq⟩ := hsecond
  cases result with
  | error fault =>
    refine ⟨more, hmore, .error fault, ⟨?_, ?_, ?_⟩, fun c h => by cases h⟩
    · intro limit hle
      rw [hs.enough limit hle, Outcome.error_bind]
    · intro limit hle hlt
      rw [hs.tooFew limit hle hlt, Outcome.error_bind]
    · intro limit h
      exact hs.not_tooDeep limit (by cases h; rfl)
  | ok a =>
    refine ⟨max more more', Nat.max_le.mpr ⟨hmore, hmore'⟩, result' >>= fun b => pure (f a b),
      ⟨?_, ?_, ?_⟩, ?_⟩
    · intro limit hle
      rw [hs.enough limit (by omega), Outcome.ok_bind, hs'.enough limit (by omega)]
    · intro limit hle hlt
      by_cases hfew : limit < depth + more
      · rw [hs.tooFew limit hle hfew, Outcome.error_bind]
      · rw [hs.enough limit (by omega), Outcome.ok_bind, hs'.tooFew limit hle (by omega),
          Outcome.error_bind]
    · intro limit
      cases result' with
      | error fault => exact fun h => hs'.not_tooDeep limit (by cases h; rfl)
      | ok b => exact fun h => by cases h
    · intro c hc
      obtain ⟨b, hb, hc⟩ := Outcome.bind_eq_ok_iff.mp hc
      cases hc
      exact hr a b more more' (hp a rfl) (hq b hb)

theorem deeper {run : Nat → Nat → Except Fault α}
    (h : Settled (depth + 1) most (fun more a => p (more + 1) a) fun limit =>
      run limit (depth + 1)) :
    Settled depth (most + 1) p fun limit => descend limit depth >>= run limit := by
  obtain ⟨more, hmore, result, hs, hp⟩ := h
  have hstep : ∀ limit, depth < limit →
      (descend limit depth >>= run limit) = run limit (depth + 1) := by
    intro limit hlt
    rw [descend, if_pos hlt, Outcome.ok_bind]
  refine ⟨more + 1, Nat.succ_le_succ hmore, result, ⟨?_, ?_, hs.not_tooDeep⟩, hp⟩
  · intro limit hle
    rw [hstep limit (by omega), hs.enough limit (by omega)]
  · intro limit hle hlt
    by_cases hdepth : depth < limit
    · rw [hstep limit hdepth, hs.tooFew limit (by omega) (by omega)]
    · rw [descend, if_neg hdepth, Outcome.error_bind]

end Settled
end Settling

section Fragments

namespace Text

theorem trim_isInfix (cs : Text) : trim cs <:+: cs := by
  obtain ⟨before, after, -, -, hcs⟩ := padded_trim cs
  exact ⟨before, after, hcs.symm⟩

theorem isInfix_of_interior? {b : Bracket} {cs inner : Text} (h : interior? b cs = some inner) :
    inner <:+: cs := ⟨[b.opening], [b.closing], (eq_of_interior? h).symm⟩

theorem count_interior?_square {cs inner : Text} (h : interior? .square cs = some inner) :
    cs.count '[' = inner.count '[' + 1 := by
  rw [eq_of_interior? h]
  simp [Bracket.opening, Bracket.closing]

theorem isInfix_of_mem_join {part : Text} {parts : List Text} (h : part ∈ parts) :
    part <:+: join parts := by
  induction parts with
  | nil => cases h
  | cons first more ih =>
    by_cases hnil : more = []
    · rw [hnil, List.mem_singleton] at h
      rw [h, hnil]
      exact List.infix_rfl
    · rw [join_cons first hnil]
      rcases List.mem_cons.mp h with rfl | h
      · exact ⟨[], ',' :: join more, rfl⟩
      · obtain ⟨before, after, heq⟩ := ih h
        exact ⟨first ++ ',' :: before, after, by simp [← heq]⟩

theorem isInfix_of_cut {inner part : Text} {parts : List Text} (h : cut inner = .ok parts)
    (hp : part ∈ parts) : part <:+: inner := join_cut h ▸ isInfix_of_mem_join hp

end Text
end Fragments

section Readers

variable {limit depth : Nat}

def Nested (more : Nat) (v : Value) : Prop := v.depth = more

theorem Settled.readParts {α : Type} {most : Nat} {fault : Fault} {asValue : α → Value}
    {read : Nat → Text → Except Fault α} {parts : List Text}
    (hfault : ∀ limit, fault ≠ .tooDeep limit)
    (h : ∀ part ∈ parts,
      Settled depth most (fun more a => Nested more (asValue a)) fun limit => read limit part) :
    Settled depth most (fun more as => Value.depths (as.map asValue) = more) fun limit =>
      readParts fault (read limit) parts := by
  have hend : Settled depth most (fun more as => Value.depths (as.map asValue) = more) fun _ =>
      (.ok [] : Except Fault (List α)) := by
    refine .const (fun limit h => by cases h) fun as h => ?_
    cases h
    rfl
  induction parts with
  | nil => exact hend
  | cons part parts ih =>
    have hpart := h part (by simp)
    have hparts := ih fun part hp => h part (by simp [hp])
    simp only [QueryDomain.readParts]
    by_cases hb : trim part = []
    · by_cases hp : parts = []
      · simpa only [hb, hp, if_true] using hend
      · simp only [hb, hp, if_true, if_false]
        refine .const (fun limit h => ?_) fun as h => by cases h
        exact hfault limit (Except.error.inj h)
    · simp only [hb, if_false]
      refine hpart.both hparts fun a as more more' ha has => ?_
      rw [List.map_cons, Value.depths, ha, has]

theorem Comparator.read_ne_tooDeep (cs : Text) (limit : Nat) :
    Comparator.read cs ≠ .error (.tooDeep limit) := by
  rw [Comparator.read]
  split <;> simp

theorem Domain.validate_ne_tooDeep (domain : Domain) (limit : Nat) :
    domain.validate ≠ .error (.tooDeep limit) := by
  rw [Domain.validate, Domain.check]
  split <;> simp [Except.map]

def finish (limit depth : Nat) (inner field comparator value : Text) : Except Fault Condition :=
  if unquote field = [] then .error (.emptyField (trim inner))
  else if unquote comparator = [] then .error (.emptyComparator (trim inner))
  else
    Comparator.read (unquote comparator) >>= fun known =>
      readValue limit depth value >>= fun value =>
        if value.isBlank then .error (.emptyValue (unquote field))
        else .ok ⟨String.ofList (unquote field), known, value⟩

theorem readCondition_eq (limit depth : Nat) (inner : Text) :
    readCondition limit depth inner =
      match cutAtMost 3 inner with
      | .error cause => .error (.unbalanced cause inner)
      | .ok [field, comparator, value] => finish limit depth inner field comparator value
      | .ok _ => .error (.notTriple (trim inner)) := by
  rw [readCondition]
  split
  · rename_i hcut
    rw [hcut]
  · rename_i hcut
    rw [hcut]
    rfl
  · rename_i parts hne hcut
    rw [hcut]
    split
    · rename_i h
      cases h
    · rename_i h
      cases h
      exact absurd rfl (hne _ _ _)
    · rfl

theorem settled_finish {most : Nat} {inner field comparator value : Text}
    (hv : Settled depth most Nested fun limit => readValue limit depth value) :
    Settled depth most (fun more c => Nested more c.value) fun limit =>
      finish limit depth inner field comparator value := by
  simp only [finish]
  by_cases hf : unquote field = []
  · simp only [hf, if_true]
    exact .const (by simp) (by simp)
  by_cases hc : unquote comparator = []
  · simp only [hf, hc, if_true, if_false]
    exact .const (by simp) (by simp)
  simp only [hf, hc, if_false]
  cases hk : Comparator.read (unquote comparator) with
  | error fault =>
    refine .const (fun limit h => Comparator.read_ne_tooDeep (unquote comparator) limit ?_)
      (fun c h => by cases h)
    rw [hk]
    cases h
    rfl
  | ok known =>
    simp only [Outcome.ok_bind]
    refine hv.andThen (fun v limit => ?_) fun v c more hmore h => ?_
    · split <;> simp
    · split at h
      · cases h
      · cases h
        exact hmore

/-- What is assumed of the texts inside of a text: as values they ask for their own brackets. -/
def ReadsInside (depth : Nat) (cs : Text) : Prop :=
  ∀ value, value <:+: cs →
    Settled depth (value.count '[') Nested fun limit => readValue limit depth value

theorem ReadsInside.of_isInfix {cs part : Text} (h : ReadsInside depth cs) (hp : part <:+: cs) :
    ReadsInside depth part := fun value hv => h value (hv.trans hp)

theorem settled_readCondition {inner : Text} (hv : ReadsInside depth inner) :
    Settled depth (inner.count '[') (fun more c => Nested more c.value) fun limit =>
      readCondition limit depth inner := by
  simp only [readCondition_eq]
  cases hcut : cutAtMost 3 inner with
  | error cause => exact .const (by simp) (by simp)
  | ok parts =>
    match parts, hcut with
    | [field, comparator, value], hcut =>
      have hvalue : value <:+: inner := join_cutAtMost hcut ▸ isInfix_of_mem_join (by simp)
      exact settled_finish ((hv value hvalue).mono (hvalue.sublist.count_le '['))
    | [], _ | [_], _ | [_, _], _ | _ :: _ :: _ :: _ :: _, _ =>
      exact .const (by simp) (by simp)

theorem settled_tuple {part inner : Text} (hv : ReadsInside depth part)
    (hi : interior? .round (trim part) = some inner) :
    Settled depth (part.count '[') (fun more c => Nested more c.value) fun limit =>
      readCondition limit depth inner := by
  have hinner : inner <:+: part := (isInfix_of_interior? hi).trans (trim_isInfix part)
  exact (settled_readCondition (hv.of_isInfix hinner)).mono (hinner.sublist.count_le '[')

theorem readNode_eq (limit depth : Nat) (term : Text) :
    readNode limit depth term =
      match interior? .round term with
      | some inner => (readCondition limit depth inner).map .condition
      | none =>
        match quotation? term with
        | none => .error (.unexpectedTerm term)
        | some body =>
          match Operator.ofSymbol? (trim body) with
          | some op => .ok (.operator op)
          | none => .error (.unknownOperator term) := by
  rw [readNode]
  split
  · rename_i inner hi
    rw [hi]
    simp only
    cases readCondition limit depth inner <;> rfl
  · rename_i hi
    rewrite [hi]
    rfl

theorem settled_readNode {part : Text} (hv : ReadsInside depth part) :
    Settled depth (part.count '[') (fun more n => Nested more n.toValue) fun limit =>
      readNode limit depth (trim part) := by
  simp only [readNode_eq]
  cases hi : interior? .round (trim part) with
  | some inner => exact (settled_tuple hv hi).map fun c more hc => hc
  | none =>
    cases quotation? (trim part) with
    | none => exact .const (by simp) (by simp)
    | some body =>
      cases ho : Operator.ofSymbol? (trim body) with
      | none =>
        simp only [ho]
        exact .const (by simp) (by simp)
      | some op =>
        simp only [ho]
        refine .const (fun limit h => by cases h) fun n h => ?_
        cases h
        rfl

theorem settled_readItem {part : Text} (hv : ReadsInside depth part) :
    Settled depth (part.count '[') Nested fun limit => readItem limit depth part := by
  simp only [readItem]
  cases hi : interior? .round (trim part) with
  | some inner => exact (settled_tuple hv hi).map fun c more hc => hc
  | none => exact hv part List.infix_rfl

theorem settled_readNodes {inner : Text} {parts : List Text} (hcut : cut inner = .ok parts)
    (hv : ReadsInside depth inner) (whole : Text) :
    Settled depth (inner.count '[')
      (fun more nodes => Value.depths (nodes.map Node.toValue) = more) fun limit =>
      readNodes limit depth whole parts := by
  simp only [readNodes_eq_readParts]
  refine .readParts (by simp) fun part hp => ?_
  have hpart : part <:+: inner := isInfix_of_cut hcut hp
  exact (settled_readNode (hv.of_isInfix hpart)).mono (hpart.sublist.count_le '[')

theorem settled_readItems {inner : Text} {parts : List Text} (hcut : cut inner = .ok parts)
    (hv : ReadsInside depth inner) (whole : Text) :
    Settled depth (inner.count '[') (fun more items => Value.depths items = more) fun limit =>
      readItems limit depth whole parts := by
  simp only [readItems_eq_readParts]
  have hparts : Settled depth (inner.count '[')
      (fun more items => Value.depths (items.map id) = more) fun limit =>
      readParts (.emptyElement whole) (readItem limit depth) parts := by
    refine .readParts (by simp) fun part hp => ?_
    have hpart : part <:+: inner := isInfix_of_cut hcut hp
    exact (settled_readItem (hv.of_isInfix hpart)).mono (hpart.sublist.count_le '[')
  simpa only [List.map_id] using hparts

theorem depth_eq_zero_of_scalar? {cs : Text} {v : Value} (h : scalar? cs = some v) :
    v.depth = 0 := by
  have hs := Value.Scalar.of_scalar? h
  cases v with
  | list => exact absurd hs id
  | condition => exact absurd hs id
  | _ => rfl

section Group

variable {cs inner : Text} {parts : List Text}

theorem settled_readAt_group (hi : interior? .square (trim cs) = some inner)
    (hcut : cut inner = .ok parts) (hv : ReadsInside (depth + 1) inner) :
    Settled depth (inner.count '[' + 1) (fun more domain => domain.depth = more) fun limit =>
      Domain.readAt limit depth cs := by
  simp only [readAt_group hi hcut]
  apply Settled.deeper
  have hnodes := settled_readNodes hcut hv (trim cs)
  refine hnodes.andThen Domain.validate_ne_tooDeep fun nodes other more h ho => ?_
  obtain ⟨-, rfl⟩ := Domain.validate_eq_ok_iff.mp ho
  rw [Domain.depth, Domain.toValue, Value.depth, h, Nat.add_comm]

theorem settled_readValue_group (hi : interior? .square (trim cs) = some inner)
    (hcut : cut inner = .ok parts) (hv : ReadsInside (depth + 1) inner) :
    Settled depth (inner.count '[' + 1) Nested fun limit => readValue limit depth cs := by
  by_cases hf : formsDomain parts
  · simp only [readValue_eq_readAt hi hcut hf]
    exact (settled_readAt_group hi hcut hv).map fun domain more h => h
  · simp only [readValue_group hi hcut, readGroup, hf]
    apply Settled.deeper
    refine (settled_readItems hcut hv (trim cs)).andThen (fun items limit h => by cases h)
      fun items v more hd h => ?_
    cases h
    rw [Nested, Value.depth, hd, Nat.add_comm]

end Group

theorem settled_readValue (cs : Text) (depth : Nat) :
    Settled depth (cs.count '[') Nested fun limit => readValue limit depth cs := by
  induction hn : cs.length using Nat.strong_induction_on generalizing cs depth with
  | _ n ih =>
    cases hs : scalar? (trim cs) with
    | some v =>
      simp only [readValue_eq, hs]
      refine .const (fun limit h => by cases h) fun w h => ?_
      cases h
      exact depth_eq_zero_of_scalar? hs
    | none =>
      cases hi : interior? .square (trim cs) with
      | none =>
        simp only [readValue_eq, hs, hi]
        refine .const (fun limit h => by cases h) fun w h => ?_
        cases h
        rfl
      | some inner =>
        cases hcut : cut inner with
        | error cause =>
          simp only [readValue_eq, hs, hi, hcut]
          exact .const (by simp) (by simp)
        | ok parts =>
          have hinside : ReadsInside (depth + 1) inner := by
            intro value hvalue
            have hlen := hvalue.length_le
            have hinner := length_interior? hi
            have htrim := length_trim_le cs
            exact ih value.length (by omega) value (depth + 1) rfl
          have hcount : inner.count '[' + 1 ≤ cs.count '[' := by
            rw [← count_interior?_square hi]
            exact (trim_isInfix cs).sublist.count_le '['
          exact (settled_readValue_group hi hcut hinside).mono hcount

theorem settled_fault {α : Type} {p : Nat → α → Prop} {fault : Fault}
    (h : ∀ limit, fault ≠ .tooDeep limit) :
    Settled depth 1 p fun limit => descend limit depth >>= fun _ => .error fault :=
  Settled.deeper (.const (fun limit he => h limit (Except.error.inj he)) fun a ha => by cases ha)

/-- A text that is not blank needs the brackets that are in the domain it is read as. -/
theorem settled_readAt (cs : Text) (depth : Nat) :
    Settled depth (max 1 (cs.count '[')) (fun more domain => trim cs ≠ [] → domain.depth = more)
      fun limit => Domain.readAt limit depth cs := by
  by_cases hb : trim cs = []
  · simp only [Domain.readAt, hb, if_true]
    exact .const (fun limit h => by cases h) (fun domain _ h => absurd rfl h)
  cases hi : interior? .square (trim cs) with
  | none =>
    simp only [Domain.readAt, hb, hi, if_false]
    exact (settled_fault (by simp)).mono (Nat.le_max_left 1 _)
  | some inner =>
    cases hcut : cut inner with
    | error cause =>
      simp only [Domain.readAt, hb, hi, hcut, if_false]
      exact (settled_fault (by simp)).mono (Nat.le_max_left 1 _)
    | ok parts =>
      have hinside : ReadsInside (depth + 1) inner := fun value _ => settled_readValue value _
      have hcount : inner.count '[' + 1 ≤ cs.count '[' := by
        rw [← count_interior?_square hi]
        exact (trim_isInfix cs).sublist.count_le '['
      have hgroup := settled_readAt_group hi hcut hinside
      exact (hgroup.mono (hcount.trans (Nat.le_max_right 1 _))).imp fun more domain h _ => h

end Readers

section Messages

/- The texts that the messages begin with are written out in the goals: to unfold a message by its
equations takes far longer. -/

theorem Imbalance.head?_message_ne (text : Text) (cause : Imbalance) :
    (cause.message text).toList.head? ≠ some 'n' := by
  cases cause with
  | strayCloser closer offset =>
    show ("unbalanced '" ++ _ ++ _ ++ _ ++ _ ++ _ ++ _).toList.head? ≠ _
    simp
  | openQuote quote =>
    show ("unterminated " ++ _ ++ _ ++ _ ++ _).toList.head? ≠ _
    simp
  | openGroup bracket =>
    show ("missing '" ++ _ ++ _ ++ _ ++ _).toList.head? ≠ _
    simp

namespace Fault

variable {fault : Fault}

/-- Of the faults in the shape of a domain, the limit alone is told in words with this letter in
front. -/
theorem head?_detail_ne (hk : fault.kind = .shape) (h : ∀ limit, fault ≠ .tooDeep limit) :
    fault.detail.toList.head? ≠ some 'n' := by
  cases fault with
  | tooDeep limit => exact absurd rfl (h limit)
  | unbalanced cause interior => exact cause.head?_message_ne interior
  | notBracketed domain =>
    show ("domain must be enclosed in square brackets: `" ++ _ ++ _).toList.head? ≠ _
    simp
  | emptyTerm domain =>
    show ("empty term in `" ++ _ ++ _).toList.head? ≠ _
    simp
  | unknownOperator term =>
    show ("unknown operator " ++ _).toList.head? ≠ _
    simp
  | unexpectedTerm term =>
    show ("unexpected term `" ++ _ ++ _).toList.head? ≠ _
    simp
  | emptyElement list =>
    show ("empty element in list `" ++ _ ++ _).toList.head? ≠ _
    simp
  | _ => cases hk

theorem message_ne_of_kind_ne (hk : fault.kind ≠ .shape) (words : String) :
    fault.message ≠ "invalid syntax: " ++ words := by
  intro he
  have hletter : fault.message.toList[8]? = some 's' := by
    rw [he]
    simp
  have hother : fault.message.toList[8]? ≠ some 's' := by
    cases hkind : fault.kind with
    | shape => exact absurd hkind hk
    | comparator => simp [message, hkind]
    | members => simp [message, hkind]
    | operands operator position => cases operator <;> simp [message, hkind]
  exact hother hletter

theorem message_ne_tooDeep (h : ∀ limit, fault ≠ .tooDeep limit) (limit : Nat) :
    fault.message ≠ (tooDeep limit).message := by
  by_cases hk : fault.kind = .shape
  · intro he
    have hdetail : fault.detail = "nesting exceeds the maximum depth of " ++ toString limit := by
      rw [message, hk] at he
      exact (String.append_right_inj _).mp he
    have hletter : fault.detail.toList.head? = some 'n' := by
      rw [hdetail]
      simp
    exact head?_detail_ne hk h hletter
  · exact message_ne_of_kind_ne hk _

end Fault
end Messages

namespace Domain

/-- The limit is a threshold. Every text needs some number of brackets, at most those that are in
it: a limit of that number or more changes nothing, and is not complained about; with any smaller
one the limit is what is complained about. A domain that is read needs the brackets it has. -/
theorem exists_limit (text : String) :
    ∃ need result, need ≤ max 1 (text.toList.count '[') ∧
      (∀ limit, need ≤ limit → Domain.read limit text = result) ∧
      (∀ limit fault, result = .error fault → fault.message ≠ (Fault.tooDeep limit).message) ∧
      (∀ limit, limit < need → Domain.read limit text = .error (.tooDeep limit) ∧
        (Fault.tooDeep limit).message =
          "invalid syntax: nesting exceeds the maximum depth of " ++ toString limit) ∧
      ∀ domain, result = .ok domain → trim text.toList ≠ [] → need = domain.depth := by
  obtain ⟨need, hle, result, hs, hp⟩ := settled_readAt text.toList 0
  refine ⟨need, result, hle, ?_, ?_, ?_, ?_⟩
  · intro limit hneed
    exact hs.enough limit (by omega)
  · intro limit fault hfault
    refine Fault.message_ne_tooDeep (fun other hother => ?_) limit
    exact hs.not_tooDeep other (hother ▸ hfault)
  · intro limit hneed
    exact ⟨hs.tooFew limit (Nat.zero_le _) (by omega), rfl⟩
  · intro domain hd hne
    exact (hp domain hd hne).symm

/-- What is wrong inside the inner brackets is found only with a limit that lets them be read. -/
example : Domain.read 1 "[('a', 'in', [1,,2])]" = .error (.tooDeep 1) ∧
    Domain.read 2 "[('a', 'in', [1,,2])]" = .error (.emptyElement "[1,,2]".toList) := by
  with_unfolding_all exact ⟨rfl, rfl⟩

end Domain
end QueryDomain

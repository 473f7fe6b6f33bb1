import QueryDomain.Proofs.Text.Splitting

/-! The search for the closer of a group, by counting the brackets of its kind. The closer is the
last character just if those before it match, quotations aside; and in a balanced text these are the
groups that are balanced inside. -/
namespace QueryDomain

namespace Bracket

theorem not_isQuote_opening (b : Bracket) : ¬ Text.isQuote b.opening := by cases b <;> decide

theorem not_isQuote_closing (b : Bracket) : ¬ Text.isQuote b.closing := by cases b <;> decide

theorem opening_ne_closing (b : Bracket) : b.opening ≠ b.closing := by cases b <;> decide

end Bracket

namespace Text

/-- The characters outside of quotations, where the given quote is open before the text. -/
def unquoted (quote : Option Char) : Text → Text
  | [] => []
  | c :: cs =>
    if quote.isSome ∨ isQuote c then unquoted (nextQuote quote c) cs else c :: unquoted none cs

/-- A text that closes as many groups of a kind as are open before it, and none too early, with
nothing left open at the end. -/
structure Closes (b : Bracket) (quote : Option Char) (inside : Nat) (cs : Text) : Prop where
  count_le : ∀ start, start <+: cs →
    (unquoted quote start).count b.closing ≤ inside + (unquoted quote start).count b.opening
  count_eq : (unquoted quote cs).count b.closing = inside + (unquoted quote cs).count b.opening
  quote_eq : cs.foldl nextQuote quote = none

section Counting

variable {b : Bracket} {quote : Option Char} {inside : Nat} {c : Char} {cs : Text}

theorem unquoted_quote (h : quote.isSome ∨ isQuote c) (cs : Text) :
    unquoted quote (c :: cs) = unquoted (nextQuote quote c) cs := by
  rw [unquoted, if_pos h]

theorem unquoted_outside (h : ¬ isQuote c) (cs : Text) :
    unquoted none (c :: cs) = c :: unquoted none cs := by
  rw [unquoted, if_neg (by simp [h])]

theorem nextQuote_outside (h : ¬ isQuote c) : nextQuote none c = none := if_neg h

theorem closes_iff : Closes b quote inside cs ↔
    (∀ start, start <+: cs →
        (unquoted quote start).count b.closing ≤ inside + (unquoted quote start).count b.opening) ∧
      (unquoted quote cs).count b.closing = inside + (unquoted quote cs).count b.opening ∧
      cs.foldl nextQuote quote = none :=
  ⟨fun h => ⟨h.count_le, h.count_eq, h.quote_eq⟩, fun h => ⟨h.1, h.2.1, h.2.2⟩⟩

theorem forall_isPrefix_cons {p : Text → Prop} :
    (∀ start, start <+: c :: cs → p start) ↔ p [] ∧ ∀ start, start <+: cs → p (c :: start) := by
  constructor
  · exact fun h => ⟨h [] List.nil_prefix, fun start hs => h _ ((List.prefix_cons_inj c).mpr hs)⟩
  · rintro ⟨hnil, hcons⟩ start hs
    rcases List.prefix_cons_iff.mp hs with rfl | ⟨rest, rfl, hrest⟩
    · exact hnil
    · exact hcons rest hrest

theorem closes_nil : Closes b quote inside [] ↔ quote = none ∧ inside = 0 := by
  simp [closes_iff, unquoted, and_comm, eq_comm]

theorem closes_quote (h : quote.isSome ∨ isQuote c) :
    Closes b quote inside (c :: cs) ↔ Closes b (nextQuote quote c) inside cs := by
  simp only [closes_iff, forall_isPrefix_cons, unquoted_quote h, List.foldl_cons]
  simp [unquoted]

theorem closes_outside (h : ¬ isQuote c) : Closes b none inside (c :: cs) ↔
    (∀ start, start <+: cs → (c :: unquoted none start).count b.closing ≤
        inside + (c :: unquoted none start).count b.opening) ∧
      (c :: unquoted none cs).count b.closing =
        inside + (c :: unquoted none cs).count b.opening ∧
      cs.foldl nextQuote none = none := by
  simp only [closes_iff, forall_isPrefix_cons, unquoted_outside h, List.foldl_cons,
    nextQuote_outside h]
  simp [unquoted]

theorem closes_opening :
    Closes b none inside (b.opening :: cs) ↔ Closes b none (inside + 1) cs := by
  simp only [closes_outside b.not_isQuote_opening, closes_iff, List.count_cons_self,
    List.count_cons_of_ne b.opening_ne_closing, Nat.add_assoc, Nat.add_comm 1]

theorem not_closes_closing : ¬ Closes b none 0 (b.closing :: cs) := by
  intro h
  have hfirst := ((closes_outside b.not_isQuote_closing).mp h).1 [] List.nil_prefix
  rw [List.count_cons_self, List.count_cons_of_ne b.opening_ne_closing.symm] at hfirst
  simp [unquoted] at hfirst

theorem closes_closing :
    Closes b none (inside + 1) (b.closing :: cs) ↔ Closes b none inside cs := by
  simp only [closes_outside b.not_isQuote_closing, closes_iff, List.count_cons_self,
    List.count_cons_of_ne b.opening_ne_closing.symm, Nat.add_right_comm inside 1,
    Nat.add_le_add_iff_right, Nat.add_right_cancel_iff]

theorem closes_other (hquote : ¬ isQuote c) (ho : c ≠ b.opening) (hc : c ≠ b.closing) :
    Closes b none inside (c :: cs) ↔ Closes b none inside cs := by
  simp only [closes_outside hquote, closes_iff, List.count_cons_of_ne ho, List.count_cons_of_ne hc]

end Counting

section Searching

variable {b : Bracket} {quote : Option Char} {inside : Nat} {body : Text}

theorem closeGroup_end :
    closeGroup b quote inside [b.closing] = some [] ↔ quote = none ∧ inside = 0 := by
  cases quote with
  | some q => simp [closeGroup]
  | none =>
    cases inside with
    | zero => simp [closeGroup_last]
    | succ inside => simp [closeGroup]

/-- The search ends at the last character just if all that is open before is closed there. -/
theorem closeGroup_eq_some_iff :
    closeGroup b quote inside (body ++ [b.closing]) = some body ↔ Closes b quote inside body := by
  have hcons : ∀ {c : Char} {found : Option Text} {cs : Text},
      found.map (c :: ·) = some (c :: cs) ↔ found = some cs := by
    intro c found cs
    cases found <;> simp
  induction body generalizing quote inside with
  | nil => rw [List.nil_append, closeGroup_end, closes_nil]
  | cons c cs ih =>
    by_cases hquote : quote.isSome ∨ isQuote c
    · rw [List.cons_append, closeGroup_quote hquote, hcons, closes_quote hquote]
      exact ih
    · simp only [not_or, Option.not_isSome_iff_eq_none] at hquote
      obtain ⟨rfl, hplain⟩ := hquote
      by_cases ho : c = b.opening
      · subst ho
        rw [List.cons_append, closeGroup_opening, hcons, closes_opening]
        exact ih
      · by_cases hc : c = b.closing
        · subst hc
          cases inside with
          | zero =>
            -- the closer that is searched for stands too early
            rw [List.cons_append, closeGroup_last, if_neg (by simp)]
            simp [not_closes_closing]
          | succ inside =>
            rw [List.cons_append, closeGroup_closing, hcons, closes_closing]
            exact ih
        · rw [List.cons_append, closeGroup_other hplain ho hc, hcons, closes_other hplain ho hc]
          exact ih

theorem interior?_eq_some_iff_closes {cs : Text} :
    interior? b cs = some body ↔ cs = b.opening :: body ++ [b.closing] ∧ Closes b none 0 body := by
  constructor
  · intro h
    obtain rfl := eq_of_interior? h
    rw [List.cons_append, interior?, if_pos rfl, closeGroup_eq_some_iff] at h
    exact ⟨rfl, h⟩
  · rintro ⟨rfl, h⟩
    rw [List.cons_append, interior?, if_pos rfl, closeGroup_eq_some_iff]
    exact h

end Searching

/-- The interior of a group is the text between the first and the last character, where these are
brackets of the kind and those between them match, quotations aside. In a text that can be cut it is
the text between them that can be cut itself. -/
theorem interior?_exact (b : Bracket) (cs inner : Text) :
    (interior? b cs = some inner ↔
        cs = b.opening :: inner ++ [b.closing] ∧
          (∀ start, start <+: inner →
            (unquoted none start).count b.closing ≤ (unquoted none start).count b.opening) ∧
          (unquoted none inner).count b.closing = (unquoted none inner).count b.opening ∧
          inner.foldl nextQuote none = none) ∧
      ∀ m n, (∃ parts, cutAtMost m cs = .ok parts) →
        (interior? b cs = some inner ↔
          cs = b.opening :: inner ++ [b.closing] ∧ ∃ parts, cutAtMost n inner = .ok parts) := by
  constructor
  · rw [interior?_eq_some_iff_closes, closes_iff]
    simp only [Nat.zero_add]
  · intro m n h
    rw [exists_cutAtMost_iff] at h
    rw [exists_cutAtMost_iff]
    constructor
    · exact fun hi => ⟨eq_of_interior? hi, h.of_interior? hi⟩
    · rintro ⟨rfl, hinner⟩
      exact interior?_group b hinner

/-- A group and another one behind it are not one group. -/
example : interior? .round "(a)(b)".toList = none := rfl

/-- The closer in the quotation is not counted. -/
theorem interior?_exact_quotation :
    cutAtMost 2 "(a,')')".toList = .ok ["(a,')')".toList] ∧
      interior? .round "(a,')')".toList = some "a,')'".toList := by
  have hok : cutAtMost 2 "(a,')')".toList = .ok ["(a,')')".toList] := rfl
  obtain ⟨-, hcut⟩ := interior?_exact .round "(a,')')".toList "a,')'".toList
  exact ⟨hok, (hcut 2 1 ⟨_, hok⟩).mpr ⟨rfl, _, rfl⟩⟩

end Text
end QueryDomain

import QueryDomain.Proofs.Text.Cutting

/-! The texts that a literal is put together from: bare text, quotations, and groups. Each of them
is uncut, and can be told from the others by the character that it starts with. -/
namespace QueryDomain
namespace Text

def marks : List Char := ['\x27', '\x22', '(', ')', '[', ']', ',']

def Bare (cs : Text) : Prop := ∀ c ∈ cs, c ∉ marks

instance (cs : Text) : Decidable (Bare cs) := List.decidableBAll (· ∉ marks) cs

/-- A quotation of a text, in either of the two quotes. -/
def Quoted (body cs : Text) : Prop := ∃ q, isQuote q ∧ q ∉ body ∧ cs = q :: body ++ [q]

theorem isPlain_of_notMem_marks {c : Char} (h : c ∉ marks) : isPlain c ∧ c ≠ ',' := by
  simp only [marks, List.mem_cons, List.not_mem_nil, or_false, not_or] at h
  simp [isPlain, isQuote, Bracket.ofOpening?, Bracket.ofClosing?, h]

theorem bare_of_all {p : Char → Bool} {cs : Text} (hp : marks.all fun c => !p c)
    (h : ∀ c ∈ cs, p c) : Bare cs := by
  intro c hc hm
  have hnot := List.all_eq_true.mp hp c hm
  simp [h c hc] at hnot

theorem Blank.bare {cs : Text} (h : Blank cs) : Bare cs := bare_of_all (by decide) h

theorem Bare.uncut {cs : Text} (h : Bare cs) : Uncut cs := by
  induction cs with
  | nil => exact .nil
  | cons c cs ih =>
    obtain ⟨hc, hn⟩ := isPlain_of_notMem_marks (h c (by simp))
    exact .plain hc hn (ih fun d hd => h d (by simp [hd]))

theorem Quoted.uncut {body cs : Text} (h : Quoted body cs) : Uncut cs := by
  obtain ⟨q, hq, hb, rfl⟩ := h
  exact .quotation hq hb .nil

theorem uncut_group (b : Bracket) {inner : Text} (h : Balanced inner) :
    Uncut (b.opening :: inner ++ [b.closing]) := .group b h .nil

theorem Padded.uncut {core cs : Text} (h : Padded core cs) (hc : Uncut core) : Uncut cs := by
  obtain ⟨before, after, hb, ha, rfl⟩ := h
  exact (hb.bare.uncut.append hc).append ha.bare.uncut

theorem quotation?_eq_some_iff_quoted {body cs : Text} :
    quotation? cs = some body ↔ Quoted body cs := quotation?_eq_some_iff

theorem Bare.quotation?_eq_none {cs : Text} (h : Bare cs) : quotation? cs = none := by
  rw [Option.eq_none_iff_forall_ne_some]
  intro body hb
  obtain ⟨q, hq, -, rfl⟩ := quotation?_eq_some_iff.mp hb
  have hmark : q ∉ marks := h q (by simp)
  simp only [isQuote, Bool.or_eq_true, decide_eq_true_eq] at hq
  rcases hq with rfl | rfl <;> exact absurd hmark (by decide)

theorem quotation?_group (b : Bracket) (cs : Text) : quotation? (b.opening :: cs) = none := by
  cases b <;> simp [quotation?, isQuote, Bracket.opening]

theorem interior?_eq_none {b : Bracket} {cs : Text} (h : cs.head? ≠ some b.opening) :
    interior? b cs = none := by
  cases cs with
  | nil => rfl
  | cons c cs =>
    have hc : c ≠ b.opening := by simpa using h
    simp [interior?, hc]

theorem Bare.interior?_eq_none {cs : Text} (h : Bare cs) (b : Bracket) :
    interior? b cs = none := by
  apply Text.interior?_eq_none
  intro hb
  have hmark := h _ (List.mem_of_head? hb)
  cases b <;> exact absurd hmark (by decide)

theorem Quoted.interior?_eq_none {body cs : Text} (h : Quoted body cs) (b : Bracket) :
    interior? b cs = none := by
  obtain ⟨q, hq, -, rfl⟩ := h
  apply Text.interior?_eq_none
  intro hb
  have hqb : q = b.opening := by simpa using hb
  rw [hqb] at hq
  cases b <;> exact absurd hq (by decide)

theorem closeGroup_quote {b : Bracket} {quote : Option Char} {c : Char}
    (h : quote.isSome ∨ isQuote c) (inside : Nat) (ds : Text) :
    closeGroup b quote inside (c :: ds) =
      (closeGroup b (nextQuote quote c) inside ds).map (c :: ·) := by
  rw [closeGroup.eq_def]
  simp only [h, if_true]

theorem closeGroup_quoted (b : Bracket) (inside : Nat) {q : Char} {body : Text} (hb : q ∉ body)
    (ds : Text) : closeGroup b (some q) inside (body ++ q :: ds) =
      (closeGroup b none inside ds).map ((body ++ [q]) ++ ·) := by
  induction body with
  | nil => simp [closeGroup, nextQuote]
  | cons c body ih =>
    have hc : c ≠ q := fun h => hb (by simp [h])
    rw [List.cons_append, closeGroup_quote (by simp), nextQuote, if_neg hc,
      ih fun h => hb (by simp [h])]
    cases closeGroup b none inside ds <;> simp

theorem closeGroup_quotation (b : Bracket) (inside : Nat) {q : Char} {body : Text}
    (hq : isQuote q) (hb : q ∉ body) (ds : Text) :
    closeGroup b none inside (q :: body ++ q :: ds) =
      (closeGroup b none inside ds).map ((q :: body ++ [q]) ++ ·) := by
  rw [List.cons_append, closeGroup_quote (by simp [hq]), nextQuote, if_pos hq,
    closeGroup_quoted b inside hb]
  cases closeGroup b none inside ds <;> simp

theorem closeGroup_other {b : Bracket} {c : Char} (hq : ¬ isQuote c) (ho : c ≠ b.opening)
    (hc : c ≠ b.closing) (inside : Nat) (ds : Text) :
    closeGroup b none inside (c :: ds) = (closeGroup b none inside ds).map (c :: ·) := by
  simp [closeGroup, hq, ho, hc]

theorem closeGroup_opening (b : Bracket) (inside : Nat) (ds : Text) :
    closeGroup b none inside (b.opening :: ds) =
      (closeGroup b none (inside + 1) ds).map (b.opening :: ·) := by
  cases b <;> simp [closeGroup, isQuote, Bracket.opening]

theorem closeGroup_closing (b : Bracket) (inside : Nat) (ds : Text) :
    closeGroup b none (inside + 1) (b.closing :: ds) =
      (closeGroup b none inside ds).map (b.closing :: ·) := by
  cases b <;> simp [closeGroup, isQuote, Bracket.opening, Bracket.closing]

/-- The search for the closer passes over a balanced text. -/
theorem closeGroup_balanced {cs : Text} (h : Balanced cs) (b : Bracket) (inside : Nat)
    (ds : Text) :
    closeGroup b none inside (cs ++ ds) = (closeGroup b none inside ds).map (cs ++ ·) := by
  induction h generalizing inside ds with
  | nil => simp
  | @plain c cs hc _ ih =>
    have ho : c ≠ b.opening := by
      rintro rfl
      simp [isPlain] at hc
    have hcl : c ≠ b.closing := by
      rintro rfl
      simp [isPlain] at hc
    rw [List.cons_append, closeGroup_other hc.1 ho hcl, ih]
    cases closeGroup b none inside ds <;> simp
  | @quotation q body cs hq hb _ ih =>
    have hassoc : q :: body ++ q :: cs ++ ds = q :: body ++ q :: (cs ++ ds) := by simp
    rw [hassoc, closeGroup_quotation b inside hq hb, ih]
    cases closeGroup b none inside ds <;> simp
  | @group b' inner cs _ _ ihi ih =>
    simp only [List.cons_append, List.append_assoc]
    by_cases hbb : b' = b
    · subst hbb
      rw [closeGroup_opening, ihi, closeGroup_closing, ih]
      cases closeGroup b' none inside ds <;> simp
    · -- brackets of the other kind are characters like any others
      have hopen : ¬ isQuote b'.opening ∧ b'.opening ≠ b.opening ∧ b'.opening ≠ b.closing := by
        cases b <;> cases b' <;> first | contradiction | decide
      have hclose : ¬ isQuote b'.closing ∧ b'.closing ≠ b.opening ∧ b'.closing ≠ b.closing := by
        cases b <;> cases b' <;> first | contradiction | decide
      rw [closeGroup_other hopen.1 hopen.2.1 hopen.2.2, ihi,
        closeGroup_other hclose.1 hclose.2.1 hclose.2.2, ih]
      cases closeGroup b none inside ds <;> simp

theorem interior?_group (b : Bracket) {inner : Text} (h : Balanced inner) :
    interior? b (b.opening :: inner ++ [b.closing]) = some inner := by
  have hend : closeGroup b none 0 [b.closing] = some [] := by cases b <;> rfl
  rw [List.cons_append, interior?, if_pos rfl, closeGroup_balanced h, hend]
  simp

end Text
end QueryDomain

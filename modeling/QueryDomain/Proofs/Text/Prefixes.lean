import QueryDomain.Proofs.Text.Grouping

/-! Texts that are cut off before their end. The scanner gets over such a text just if something
makes it balanced, and then knows what is still open: the text is a balanced one, behind which
groups are opened one inside the other and at last perhaps a quote. -/
namespace QueryDomain

namespace Bracket

theorem eq_opening_of_ofOpening? {c : Char} {b : Bracket} (h : ofOpening? c = some b) :
    c = b.opening := by
  unfold ofOpening? at h
  split_ifs at h with hr hs
  · cases h
    exact hr
  · cases h
    exact hs

theorem eq_closing_of_ofClosing? {c : Char} {b : Bracket} (h : ofClosing? c = some b) :
    c = b.closing := by
  unfold ofClosing? at h
  split_ifs at h with hr hs
  · cases h
    exact hr
  · cases h
    exact hs

end Bracket

namespace Text

open Nesting

/-- The nesting behind a text, unless it has a closer that does not match. -/
def scan (n : Nesting) : Text → Option Nesting
  | [] => some n
  | c :: cs => (n.step c).bind (scan · cs)

/-- A text at the end of which just the given quote and groups are open. -/
inductive Opened : Nesting → Text → Prop
  | balanced {cs : Text} : Balanced cs → Opened ⟨none, []⟩ cs
  | group (b : Bracket) {groups : List Bracket} {cs inner : Text} :
    Opened ⟨none, groups⟩ cs → Balanced inner →
    Opened ⟨none, b :: groups⟩ (cs ++ b.opening :: inner)
  | quote {q : Char} {groups : List Bracket} {cs body : Text} :
    Opened ⟨none, groups⟩ cs → isQuote q → q ∉ body → Opened ⟨some q, groups⟩ (cs ++ q :: body)

/-- A text that can be continued to a balanced one. -/
def Extendable (cs : Text) : Prop := ∃ ds, Balanced (cs ++ ds)

section Scanning

theorem scan_append (n : Nesting) (cs ds : Text) :
    scan n (cs ++ ds) = (scan n cs).bind (scan · ds) := by
  induction cs generalizing n with
  | nil => rfl
  | cons c cs ih =>
    rw [List.cons_append, scan, scan]
    cases n.step c with
    | none => rfl
    | some m => exact ih m

theorem scan_singleton (n : Nesting) (c : Char) : scan n [c] = n.step c := by
  rw [scan]
  cases n.step c <;> rfl

theorem scan_inside {q : Char} {body : Text} (h : q ∉ body) (groups : List Bracket) :
    scan ⟨some q, groups⟩ body = some ⟨some q, groups⟩ := by
  induction body with
  | nil => rfl
  | cons c body ih =>
    have hc : c ≠ q := fun h' => h (by simp [h'])
    rw [scan, step_inside hc, Option.bind_some, ih fun h' => h (by simp [h'])]

theorem Balanced.scan_eq {cs : Text} (h : Balanced cs) (groups : List Bracket) :
    scan ⟨none, groups⟩ cs = some ⟨none, groups⟩ := by
  induction h generalizing groups with
  | nil => rfl
  | plain hc _ ih => rw [scan, step_isPlain hc, Option.bind_some, ih]
  | quotation hq hb _ ih =>
    rw [List.cons_append, scan, step_isQuote hq, Option.bind_some, scan_append, scan_inside hb,
      Option.bind_some, scan, step_unquote, Option.bind_some, ih]
  | group b _ _ ihi ih =>
    rw [List.cons_append, scan, step_opening, Option.bind_some, scan_append, ihi,
      Option.bind_some, scan, step_closing, Option.bind_some, ih]

theorem Opened.scan_eq {n : Nesting} {cs : Text} (h : Opened n cs) :
    scan outermost cs = some n := by
  induction h with
  | balanced h => exact h.scan_eq []
  | group b _ hi ih =>
    rw [scan_append, ih, Option.bind_some, scan, step_opening, Option.bind_some, hi.scan_eq]
  | quote _ hq hb ih =>
    rw [scan_append, ih, Option.bind_some, scan, step_isQuote hq, Option.bind_some,
      scan_inside hb]

theorem Opened.append_balanced {groups : List Bracket} {cs ds : Text}
    (h : Opened ⟨none, groups⟩ cs) (hd : Balanced ds) : Opened ⟨none, groups⟩ (cs ++ ds) := by
  cases h with
  | balanced h => exact .balanced (h.append hd)
  | group b h hi =>
    rw [List.append_assoc, List.cons_append]
    exact .group b h (hi.append hd)

/-- One more character opens or closes something, or leaves everything as it was. -/
theorem Opened.concat {n m : Nesting} {cs : Text} {c : Char} (h : Opened n cs)
    (hs : n.step c = some m) : Opened m (cs ++ [c]) := by
  obtain ⟨quote, groups⟩ := n
  cases quote with
  | some q =>
    cases h with
    | @quote _ _ cs body h hq hb =>
      by_cases hc : c = q
      · subst hc
        cases (step_unquote c groups).symm.trans hs
        rw [List.append_assoc]
        exact h.append_balanced (.quotation hq hb .nil)
      · cases (step_inside hc groups).symm.trans hs
        rw [List.append_assoc, List.cons_append]
        exact .quote h hq (by simp [hb, Ne.symm hc])
  | none =>
    by_cases hq : isQuote c
    · cases (step_isQuote hq groups).symm.trans hs
      exact .quote h hq (by simp)
    · cases ho : Bracket.ofOpening? c with
      | some b =>
        obtain rfl := Bracket.eq_opening_of_ofOpening? ho
        cases (step_opening b groups).symm.trans hs
        exact .group b h .nil
      | none =>
        cases hc : Bracket.ofClosing? c with
        | none =>
          have hplain : isPlain c := ⟨hq, ho, hc⟩
          cases (step_isPlain hplain groups).symm.trans hs
          exact h.append_balanced (.plain hplain .nil)
        | some b =>
          -- a closer is only passed over if it is the one of the innermost group
          simp only [step, hq, ho, hc, Option.isSome_none, Bool.false_eq_true, or_self,
            if_false] at hs
          cases h with
          | balanced => cases hs
          | @group top groups cs inner h hi =>
            obtain ⟨rfl, hm⟩ := Option.ite_none_right_eq_some.mp hs
            cases hm
            obtain rfl := Bracket.eq_closing_of_ofClosing? hc
            rw [List.append_assoc]
            exact h.append_balanced (.group top hi .nil)

/-- The scanner knows what is open. -/
theorem scan_eq_some_iff {n : Nesting} {cs : Text} :
    scan outermost cs = some n ↔ Opened n cs := by
  refine ⟨fun h => ?_, Opened.scan_eq⟩
  induction cs using List.reverseRecOn generalizing n with
  | nil =>
    cases h
    exact .balanced .nil
  | append_singleton cs c ih =>
    rw [scan_append] at h
    obtain ⟨m, hm, hc⟩ := Option.bind_eq_some_iff.mp h
    rw [scan_singleton] at hc
    exact (ih hm).concat hc

theorem opened_outermost_iff {cs : Text} : Opened outermost cs ↔ Balanced cs := by
  refine ⟨fun h => ?_, .balanced⟩
  generalize hn : outermost = n at h
  cases h with
  | balanced h => exact h
  | group => cases hn
  | quote => cases hn

theorem balanced_iff_scan {cs : Text} : Balanced cs ↔ scan outermost cs = some outermost := by
  rw [scan_eq_some_iff, opened_outermost_iff]

instance (cs : Text) : Decidable (Balanced cs) := decidable_of_iff' _ balanced_iff_scan

end Scanning

section Completion

theorem Opened.balanced_append_closers {groups : List Bracket} {cs : Text}
    (h : Opened ⟨none, groups⟩ cs) : Balanced (cs ++ groups.map Bracket.closing) := by
  induction groups generalizing cs with
  | nil =>
    rw [List.map_nil, List.append_nil]
    exact opened_outermost_iff.mp h
  | cons b groups ih =>
    cases h with
    | @group _ _ cs inner h hi =>
      have hclosed := ih (h.append_balanced (.group b hi .nil))
      simpa using hclosed

/-- A text can be completed just if everything in it that is closed has been opened. -/
theorem extendable_iff {cs : Text} : Extendable cs ↔ ∃ n, Opened n cs := by
  constructor
  · rintro ⟨ds, h⟩
    have hscan := h.scan_eq []
    rw [scan_append] at hscan
    obtain ⟨n, hn, -⟩ := Option.bind_eq_some_iff.mp hscan
    exact ⟨n, scan_eq_some_iff.mp hn⟩
  · rintro ⟨⟨quote, groups⟩, h⟩
    cases quote with
    | none => exact ⟨_, h.balanced_append_closers⟩
    | some q =>
      cases h with
      | @quote _ _ cs body h hq hb =>
        have hclosed := (h.append_balanced (.quotation hq hb .nil)).balanced_append_closers
        exact ⟨q :: groups.map Bracket.closing, by simpa using hclosed⟩

theorem Extendable.of_isPrefix {cs start : Text} (h : Extendable cs) (hs : start <+: cs) :
    Extendable start := by
  obtain ⟨ds, hd⟩ := h
  obtain ⟨rest, rfl⟩ := hs
  exact ⟨rest ++ ds, by rwa [← List.append_assoc]⟩

end Completion

section Parts

variable {cs ds : Text}

theorem Balanced.balanced_append_iff (h : Balanced cs) : Balanced (cs ++ ds) ↔ Balanced ds := by
  refine ⟨fun hd => ?_, h.append⟩
  rw [balanced_iff_scan, scan_append, balanced_iff_scan.mp h] at hd
  exact balanced_iff_scan.mpr hd

theorem Opened.append_bare {n : Nesting} (h : Opened n cs) (hd : Bare ds) : Opened n (cs ++ ds) := by
  obtain ⟨quote, groups⟩ := n
  cases quote with
  | none => exact h.append_balanced hd.uncut.balanced
  | some q =>
    cases h with
    | @quote _ _ cs body h hq hb =>
      have hmark : q ∈ marks := by
        simp only [isQuote, Bool.or_eq_true, decide_eq_true_eq] at hq
        rcases hq with rfl | rfl <;> decide
      rw [List.append_assoc]
      refine .quote h hq fun hm => ?_
      rcases List.mem_append.mp hm with hm | hm
      · exact hb hm
      · exact hd q hm hmark

theorem Bare.append_balanced_iff (hd : Bare ds) : Balanced (cs ++ ds) ↔ Balanced cs := by
  refine ⟨fun h => ?_, fun h => h.append hd.uncut.balanced⟩
  obtain ⟨n, hn⟩ := extendable_iff.mp ⟨ds, h⟩
  have hscan := (hn.append_bare hd).scan_eq
  rw [balanced_iff_scan.mp h] at hscan
  obtain rfl := Option.some.inj hscan
  exact opened_outermost_iff.mp hn

theorem balanced_trim_iff : Balanced (trim cs) ↔ Balanced cs := by
  obtain ⟨before, after, hb, ha, hcs⟩ := padded_trim cs
  generalize trim cs = core at hcs
  rw [hcs, ha.bare.append_balanced_iff, hb.bare.uncut.balanced.balanced_append_iff]

theorem closeGroup_last (b : Bracket) (ds : Text) :
    closeGroup b none 0 (b.closing :: ds) = if ds = [] then some [] else none := by
  cases b <;> simp [closeGroup, isQuote, Bracket.opening, Bracket.closing]

/-- The closer of the group that a balanced text starts with is the one that its brackets of the
same kind lead to. -/
theorem Balanced.of_interior? {b : Bracket} {inner : Text} (h : Balanced cs)
    (hi : interior? b cs = some inner) : Balanced inner := by
  have hcs := eq_of_interior? hi
  cases h with
  | nil => cases hcs
  | plain hc =>
    obtain ⟨rfl, -⟩ := List.cons.inj hcs
    exact absurd hc.2.1 (by simp)
  | quotation hq =>
    obtain ⟨rfl, -⟩ := List.cons.inj hcs
    cases b <;> exact absurd hq (by decide)
  | @group b' body rest hb _ =>
    obtain ⟨hopen, -⟩ := List.cons.inj hcs
    obtain rfl : b' = b := by cases b' <;> cases b <;> first | rfl | cases hopen
    rw [List.cons_append, interior?, if_pos rfl, closeGroup_balanced hb] at hi
    obtain ⟨last, hlast, rfl⟩ := Option.map_eq_some_iff.mp hi
    rw [closeGroup_last] at hlast
    obtain ⟨-, hnil⟩ := Option.ite_none_right_eq_some.mp hlast
    cases hnil
    rwa [List.append_nil]

end Parts

end Text
end QueryDomain

import QueryDomain.Proofs.Text.Prefixes

/-! Cutting a text accepts just the balanced ones, and takes them apart at all the commas that are
outside of quotations and groups, or at the first few of them. What it says about another text is
where this text stops being the start of a balanced one, or else what is open at its end. -/
namespace QueryDomain
namespace Text

open Nesting

section Scanner

variable {n m : Nesting} {cs : Text}

theorem step_comma : outermost.step ',' = some outermost := rfl

theorem map_cutFrom (h : scan n cs = some m) (offset : Nat) :
    (cutFrom n offset cs).map (fun _ => ()) = m.atEnd := by
  have hforget : ∀ {α β : Type} (f : α → β) (x : Except Imbalance α),
      (x.map f).map (fun _ => ()) = x.map fun _ => () := by
    intro α β f x
    cases x <;> rfl
  induction cs generalizing n offset with
  | nil =>
    cases h
    rw [cutFrom, hforget]
    cases m.atEnd <;> rfl
  | cons c cs ih =>
    rw [scan] at h
    obtain ⟨k, hk, h⟩ := Option.bind_eq_some_iff.mp h
    rw [cutFrom]
    split
    · rename_i hc
      obtain ⟨rfl, rfl⟩ := hc
      obtain rfl : outermost = k := Option.some.inj (step_comma.symm.trans hk)
      rw [hforget, ih h]
    · simp only [hk]
      rw [hforget, ih h]

theorem exists_stray_of_scan_eq_none (h : scan n cs = none) :
    ∃ before c after k, cs = before ++ c :: after ∧ scan n before = some k ∧ k.step c = none ∧
      ∀ offset, cutFrom n offset cs = .error (.strayCloser c (offset + size before)) := by
  induction cs generalizing n with
  | nil => cases h
  | cons c cs ih =>
    cases hs : n.step c with
    | none =>
      refine ⟨[], c, cs, n, rfl, rfl, hs, fun offset => ?_⟩
      have hne : ¬ (c = ',' ∧ n = outermost) := by
        rintro ⟨rfl, rfl⟩
        cases hs
      rw [cutFrom, if_neg hne, hs]
      rfl
    | some k =>
      rw [scan, hs, Option.bind_some] at h
      obtain ⟨before, d, after, l, rfl, hl, hd, hcut⟩ := ih h
      refine ⟨c :: before, d, after, l, rfl, ?_, hd, fun offset => ?_⟩
      · rw [scan, hs, Option.bind_some, hl]
      · rw [cutFrom, size, ← Nat.add_assoc]
        split
        · rename_i hc
          obtain ⟨rfl, rfl⟩ := hc
          obtain rfl : outermost = k := Option.some.inj (step_comma.symm.trans hs)
          rw [hcut]
          rfl
        · rw [hs]
          simp only [hcut]
          rfl

theorem cut_eq_error_of_scan {cause : Imbalance} (h : scan outermost cs = some m)
    (hm : m.atEnd = .error cause) : cut cs = .error cause := by
  have hcut := map_cutFrom h 0
  rw [hm] at hcut
  rw [cut]
  cases hc : cutFrom outermost 0 cs with
  | ok p =>
    rw [hc] at hcut
    cases hcut
  | error other =>
    rw [hc] at hcut
    cases hcut
    rfl

theorem exists_cut_iff : (∃ parts, cut cs = .ok parts) ↔ Balanced cs := by
  constructor
  · rintro ⟨parts, h⟩
    obtain ⟨p, hp, -⟩ := Outcome.map_eq_ok_iff.mp h
    cases hs : scan outermost cs with
    | none =>
      obtain ⟨before, c, after, k, -, -, -, hcut⟩ := exists_stray_of_scan_eq_none hs
      cases hp.symm.trans (hcut 0)
    | some m =>
      have hend := map_cutFrom hs 0
      rw [hp] at hend
      rw [balanced_iff_scan, hs, eq_outermost_of_atEnd hend.symm]
  · intro h
    have hend := map_cutFrom (balanced_iff_scan.mp h) 0
    obtain ⟨p, hp, -⟩ := Outcome.map_eq_ok_iff.mp hend
    exact ⟨p.1 :: p.2, by rw [cut, hp]; rfl⟩

end Scanner

section Commas

/-- The number of commas that have a balanced text in front of them: of a balanced text, those
outside of quotations and groups. -/
def outerCommas (cs : Text) : Nat :=
  (List.range cs.length).countP fun i => cs[i]? = some ',' ∧ Balanced (cs.take i)

theorem outerCommas_eq_zero_iff {cs : Text} :
    outerCommas cs = 0 ↔ ∀ start rest, cs = start ++ ',' :: rest → ¬ Balanced start := by
  simp only [outerCommas, List.countP_eq_zero, List.mem_range, decide_eq_true_eq, not_and]
  constructor
  · rintro h start rest rfl
    simpa using h start.length (by simp)
  · intro h i hi hc
    obtain ⟨hlt, hget⟩ := List.getElem?_eq_some_iff.mp hc
    refine h (cs.take i) (cs.drop (i + 1)) ?_
    rw [← hget, List.getElem_cons_drop, List.take_append_drop]

theorem outerCommas_append {cs : Text} (h : Balanced cs) (ds : Text) :
    outerCommas (cs ++ ds) = outerCommas cs + outerCommas ds := by
  rw [outerCommas, List.length_append, List.range_add, List.countP_append, List.countP_map,
    outerCommas, outerCommas]
  congr 1
  · refine List.countP_congr fun i hi => ?_
    have hlt : i < cs.length := List.mem_range.mp hi
    rw [List.getElem?_append_left hlt, List.take_append_of_le_length (Nat.le_of_lt hlt)]
  · refine List.countP_congr fun i _ => ?_
    simp only [Function.comp_apply, List.take_length_add_append, h.balanced_append_iff,
      List.getElem?_append_right (Nat.le_add_right _ i), Nat.add_sub_cancel_left]

theorem outerCommas_join {parts : List Text}
    (h : ∀ part ∈ parts, Balanced part ∧ outerCommas part = 0) (hne : parts ≠ []) :
    1 + outerCommas (join parts) = parts.length := by
  induction parts with
  | nil => contradiction
  | cons part more ih =>
    obtain ⟨hp, hzero⟩ := h part (by simp)
    cases more with
    | nil => rw [join, hzero, List.length_singleton]
    | cons next more =>
      have hcomma : Balanced [','] := .plain (by decide) .nil
      have hone : outerCommas [','] = 1 := rfl
      have hmore := ih (fun part hp => h part (by simp [hp])) (by simp)
      rw [join_cons_cons, outerCommas_append hp, hzero, ← List.singleton_append,
        outerCommas_append hcomma, hone, List.length_cons, ← hmore]
      omega

end Commas

section Parts

/-- A text that gets the scanner back outside without a comma there on the way. -/
structure Ends (n : Nesting) (cs : Text) : Prop where
  scan_eq : scan n cs = some outermost
  no_comma : ∀ start rest, cs = start ++ ',' :: rest → scan n start ≠ some outermost

theorem Ends.nil : Ends outermost [] := ⟨rfl, by simp⟩

theorem Ends.cons {n m : Nesting} {c : Char} {cs : Text} (h : Ends m cs) (hs : n.step c = some m)
    (hc : ¬ (c = ',' ∧ n = outermost)) : Ends n (c :: cs) := by
  refine ⟨by rw [scan, hs, Option.bind_some, h.scan_eq], ?_⟩
  intro start rest heq
  cases start with
  | nil =>
    rintro hn
    cases hn
    exact hc ⟨(List.cons.inj heq).1, rfl⟩
  | cons d start =>
    obtain ⟨rfl, htail⟩ := List.cons.inj heq
    rw [scan, hs, Option.bind_some]
    exact h.no_comma start rest htail

theorem ends_of_cutFrom {n : Nesting} {offset : Nat} {cs : Text} {p : Text × List Text}
    (h : cutFrom n offset cs = .ok p) : Ends n p.1 ∧ ∀ part ∈ p.2, Ends outermost part := by
  induction cs generalizing n offset p with
  | nil =>
    obtain ⟨u, hu, rfl⟩ := Outcome.map_eq_ok_iff.mp h
    obtain rfl := eq_outermost_of_atEnd hu
    exact ⟨.nil, by simp⟩
  | cons c cs ih =>
    rw [cutFrom] at h
    split at h
    · rename_i hc
      obtain ⟨q, hq, rfl⟩ := Outcome.map_eq_ok_iff.mp h
      obtain ⟨-, rfl⟩ := hc
      obtain ⟨hfirst, hmore⟩ := ih hq
      exact ⟨.nil, by simpa [hfirst] using hmore⟩
    · rename_i hc
      cases hs : n.step c with
      | none =>
        rw [hs] at h
        cases h
      | some m =>
        rw [hs] at h
        obtain ⟨q, hq, rfl⟩ := Outcome.map_eq_ok_iff.mp h
        obtain ⟨hfirst, hmore⟩ := ih hq
        exact ⟨hfirst.cons hs hc, hmore⟩

theorem ends_outermost_iff {cs : Text} :
    Ends outermost cs ↔ Balanced cs ∧ outerCommas cs = 0 := by
  simp only [outerCommas_eq_zero_iff, balanced_iff_scan]
  exact ⟨fun h => ⟨h.scan_eq, h.no_comma⟩, fun h => ⟨h.1, h.2⟩⟩

variable {cs : Text} {parts : List Text}

theorem parts_of_cut (h : cut cs = .ok parts) :
    parts ≠ [] ∧ ∀ part ∈ parts, Balanced part ∧ outerCommas part = 0 := by
  obtain ⟨p, hp, rfl⟩ := Outcome.map_eq_ok_iff.mp h
  obtain ⟨hfirst, hmore⟩ := ends_of_cutFrom hp
  refine ⟨by simp, fun part hpart => ends_outermost_iff.mp ?_⟩
  rcases List.mem_cons.mp hpart with rfl | hpart
  · exact hfirst
  · exact hmore part hpart

theorem length_cut (h : cut cs = .ok parts) : parts.length = 1 + outerCommas cs := by
  obtain ⟨hne, hparts⟩ := parts_of_cut h
  rw [← outerCommas_join hparts hne, join_cut h]

theorem Balanced.uncut (h : Balanced cs) (hc : outerCommas cs = 0) : Uncut cs := by
  induction h with
  | nil => exact .nil
  | @plain c cs hplain _ ih =>
    have hone : Balanced [c] := .plain hplain .nil
    have hsum := outerCommas_append hone cs
    have hcomma : c ≠ ',' := by
      rintro rfl
      exact outerCommas_eq_zero_iff.mp hc [] cs rfl .nil
    rw [List.singleton_append, hc] at hsum
    exact .plain hplain hcomma (ih (by omega))
  | @quotation q body cs hq hb _ ih =>
    have hone : Balanced (q :: body ++ [q]) := .quotation hq hb .nil
    have hsum := outerCommas_append hone cs
    rw [List.append_assoc, List.singleton_append, hc] at hsum
    exact .quotation hq hb (ih (by omega))
  | @group b inner cs hi _ _ ih =>
    have hone : Balanced (b.opening :: inner ++ [b.closing]) := .group b hi .nil
    have hsum := outerCommas_append hone cs
    rw [List.append_assoc, List.singleton_append, hc] at hsum
    exact .group b hi (ih (by omega))

theorem join_append {more : List Text} (hp : parts ≠ []) (hm : more ≠ []) :
    join (parts ++ more) = join parts ++ ',' :: join more := by
  induction parts with
  | nil => contradiction
  | cons part parts ih =>
    cases parts with
    | nil => exact join_cons part hm
    | cons next parts =>
      have hrest := ih (by simp)
      rw [List.cons_append, List.cons_append, join_cons_cons, join_cons_cons, ← List.cons_append,
        hrest, List.append_assoc, List.cons_append]

theorem cut_append {ds : Text} {more : List Text} (h : cut cs = .ok parts)
    (hd : cut ds = .ok more) : cut (cs ++ ',' :: ds) = .ok (parts ++ more) := by
  obtain ⟨hne, hparts⟩ := parts_of_cut h
  obtain ⟨hne', hmore⟩ := parts_of_cut hd
  have hjoin : join (parts ++ more) = cs ++ ',' :: ds := by
    rw [join_append hne hne', join_cut h, join_cut hd]
  have huncut : ∀ part ∈ parts ++ more, Uncut part := by
    intro part hp
    rcases List.mem_append.mp hp with hp | hp
    · exact (hparts part hp).1.uncut (hparts part hp).2
    · exact (hmore part hp).1.uncut (hmore part hp).2
  rw [← hjoin]
  exact cut_join huncut (by simp [hne])

end Parts

section Regrouping

theorem regroup_of_length_le {cuts : Nat} {parts : List Text} (h : parts.length ≤ cuts + 1) :
    regroup cuts parts = parts := by
  induction parts generalizing cuts with
  | nil => cases cuts <;> rfl
  | cons part more ih =>
    cases cuts with
    | zero =>
      have hnil : more = [] := List.length_eq_zero_iff.mp (by simpa using h)
      rw [hnil]
      rfl
    | succ cuts => rw [regroup, ih (by simpa using h)]

theorem regroup_of_lt {cuts : Nat} {parts : List Text} (h : cuts < parts.length) :
    regroup cuts parts = parts.take cuts ++ [join (parts.drop cuts)] := by
  induction parts generalizing cuts with
  | nil => cases h
  | cons part more ih =>
    cases cuts with
    | zero => rfl
    | succ cuts => rw [regroup, ih (by simpa using h)]; rfl

end Regrouping

section Exactness

variable {most : Nat} {cs : Text}

theorem exists_cutAtMost_iff : (∃ parts, cutAtMost most cs = .ok parts) ↔ Balanced cs := by
  rw [← exists_cut_iff, cutAtMost]
  cases cut cs <;> simp [Except.map]

theorem cutAtMost_eq_error_iff {cause : Imbalance} :
    cutAtMost most cs = .error cause ↔ cut cs = .error cause := by
  rw [cutAtMost]
  cases cut cs <;> simp [Except.map]

/-- With a limit on the parts, the last of as many as it allows may have commas left. -/
theorem parts_of_cutAtMost {parts : List Text} (hmost : 0 < most)
    (h : cutAtMost most cs = .ok parts) :
    (∀ part ∈ parts, Balanced part) ∧ parts.length = min most (1 + outerCommas cs) ∧
      (∀ part ∈ parts.dropLast, outerCommas part = 0) ∧
      (parts.length ≠ most → ∀ part ∈ parts, outerCommas part = 0) := by
  obtain ⟨all, hall, rfl⟩ := Outcome.map_eq_ok_iff.mp h
  obtain ⟨-, hparts⟩ := parts_of_cut hall
  have hlen := length_cut hall
  by_cases hle : all.length ≤ most - 1 + 1
  · rw [regroup_of_length_le hle]
    refine ⟨fun part hp => (hparts part hp).1, by omega, ?_, fun _ part hp => (hparts part hp).2⟩
    exact fun part hp => (hparts part (List.dropLast_subset all hp)).2
  · have htake : (all.take (most - 1)).length = most - 1 := List.length_take_of_le (by omega)
    rw [regroup_of_lt (by omega), List.dropLast_concat]
    refine ⟨?_, by rw [List.length_append, htake, List.length_singleton]; omega, ?_, ?_⟩
    · intro part hp
      rcases List.mem_append.mp hp with hp | hp
      · exact (hparts part (List.mem_of_mem_take hp)).1
      · rw [List.mem_singleton.mp hp]
        exact .join fun part hp => (hparts part (List.mem_of_mem_drop hp)).1
    · exact fun part hp => (hparts part (List.mem_of_mem_take hp)).2
    · intro hne
      rw [List.length_append, htake, List.length_singleton] at hne
      omega

end Exactness

section Faults

variable {cs before : Text} {c : Char}

/-- The first character that keeps a text from being continued to a balanced one. -/
def Stray (cs before : Text) (c : Char) : Prop :=
  ∃ after, cs = before ++ c :: after ∧ ∀ start, start <+: cs → (Extendable start ↔ start <+: before)

theorem Stray.scan_eq_none (h : Stray cs before c) : scan outermost cs = none := by
  obtain ⟨after, rfl, hstart⟩ := h
  rw [Option.eq_none_iff_forall_ne_some]
  intro n hn
  have hprefix := (hstart _ List.prefix_rfl).mp (extendable_iff.mpr ⟨n, scan_eq_some_iff.mp hn⟩)
  have hlen := hprefix.length_le
  rw [List.length_append, List.length_cons] at hlen
  omega

theorem Stray.unique {other : Text} {d : Char} (h : Stray cs before c) (ho : Stray cs other d) :
    before = other ∧ c = d := by
  obtain ⟨after, hcs, hstart⟩ := h
  obtain ⟨after', hcs', hstart'⟩ := ho
  have hp : before <+: cs := ⟨_, hcs.symm⟩
  have hp' : other <+: cs := ⟨_, hcs'.symm⟩
  have hle : before <+: other := (hstart' _ hp).mp ((hstart _ hp).mpr List.prefix_rfl)
  have hge : other <+: before := (hstart _ hp').mp ((hstart' _ hp').mpr List.prefix_rfl)
  obtain rfl := hle.eq_of_length_le hge.length_le
  have htail := List.append_cancel_left (hcs.symm.trans hcs')
  exact ⟨rfl, (List.cons.inj htail).1⟩

theorem exists_stray (h : scan outermost cs = none) :
    ∃ before c, Stray cs before c ∧ cut cs = .error (.strayCloser c (size before)) := by
  obtain ⟨before, c, after, n, rfl, hn, hc, hcut⟩ := exists_stray_of_scan_eq_none h
  have hbefore : Extendable before := extendable_iff.mpr ⟨n, scan_eq_some_iff.mp hn⟩
  have hstop : ¬ Extendable (before ++ [c]) := by
    intro he
    obtain ⟨m, hm⟩ := extendable_iff.mp he
    have hscan := hm.scan_eq
    rw [scan_append, hn, Option.bind_some, scan_singleton, hc] at hscan
    cases hscan
  refine ⟨before, c, ⟨after, rfl, fun start hstart => ⟨fun he => ?_, hbefore.of_isPrefix⟩⟩, ?_⟩
  · have hwhole : before ++ [c] <+: before ++ c :: after := ⟨after, by simp⟩
    rcases List.prefix_or_prefix_of_prefix hstart hwhole with hle | hge
    · rcases List.prefix_concat_iff.mp hle with rfl | hle
      · exact absurd he hstop
      · exact hle
    · exact absurd (he.of_isPrefix hge) hstop
  · rw [cut, hcut, Nat.zero_add]
    rfl

/-- A complaint is about a stray closer, or else about what is open at the end. -/
theorem cut_eq_error {cause : Imbalance} (h : cut cs = .error cause) :
    (∃ before c, Stray cs before c ∧ cause = .strayCloser c (size before)) ∨
      ∃ n, Opened n cs ∧ n.atEnd = .error cause := by
  cases hs : scan outermost cs with
  | none =>
    obtain ⟨before, c, hstray, hcut⟩ := exists_stray hs
    rw [hcut] at h
    cases h
    exact .inl ⟨before, c, hstray, rfl⟩
  | some n =>
    refine .inr ⟨n, scan_eq_some_iff.mp hs, ?_⟩
    rw [← map_cutFrom hs 0]
    rw [cut] at h
    cases hc : cutFrom outermost 0 cs with
    | ok p =>
      rw [hc] at h
      cases h
    | error other =>
      rw [hc] at h
      cases h
      rfl

theorem cut_eq_strayCloser_iff {offset : Nat} :
    cut cs = .error (.strayCloser c offset) ↔
      ∃ before, Stray cs before c ∧ size before = offset := by
  constructor
  · intro h
    rcases cut_eq_error h with ⟨before, d, hstray, heq⟩ | ⟨n, -, hn⟩
    · cases heq
      exact ⟨before, hstray, rfl⟩
    · obtain ⟨_ | q, _ | ⟨b, groups⟩⟩ := n <;> cases hn
  · rintro ⟨before, hstray, rfl⟩
    obtain ⟨other, d, hother, hcut⟩ := exists_stray hstray.scan_eq_none
    obtain ⟨rfl, rfl⟩ := hstray.unique hother
    exact hcut

/-- The offset counts bytes. -/
example : cut "(é]".toList = .error (.strayCloser ']' 3) := rfl

theorem cut_eq_openQuote_iff {q : Char} :
    cut cs = .error (.openQuote q) ↔ ∃ groups, Opened ⟨some q, groups⟩ cs := by
  constructor
  · intro h
    rcases cut_eq_error h with ⟨before, d, -, heq⟩ | ⟨n, hopened, hn⟩
    · cases heq
    · obtain ⟨_ | q, _ | ⟨b, groups⟩⟩ := n <;> cases hn
      · exact ⟨_, hopened⟩
      · exact ⟨_, hopened⟩
  · rintro ⟨groups, h⟩
    exact cut_eq_error_of_scan h.scan_eq rfl

theorem cut_eq_openGroup_iff {b : Bracket} :
    cut cs = .error (.openGroup b) ↔ ∃ groups, Opened ⟨none, b :: groups⟩ cs := by
  constructor
  · intro h
    rcases cut_eq_error h with ⟨before, d, -, heq⟩ | ⟨n, hopened, hn⟩
    · cases heq
    · obtain ⟨_ | q, _ | ⟨b, groups⟩⟩ := n <;> cases hn
      exact ⟨_, hopened⟩
  · rintro ⟨groups, h⟩
    exact cut_eq_error_of_scan h.scan_eq rfl

theorem extendable_of_cut (h : ∀ closer offset, cut cs ≠ .error (.strayCloser closer offset)) :
    Extendable cs := by
  cases hs : scan outermost cs with
  | none =>
    obtain ⟨before, c, -, hcut⟩ := exists_stray hs
    exact absurd hcut (h c _)
  | some n => exact extendable_iff.mpr ⟨n, scan_eq_some_iff.mp hs⟩

end Faults

/-- Just the balanced texts are cut, and they are cut at all their outer commas, or at the first
ones if only so many parts are allowed. The closer that is complained about is the first character
that no balanced text can have there; without one the text could still be continued, and what is
complained about is the quote it ends in, or else the innermost of its open groups. -/
theorem cutAtMost_exact {most : Nat} (hmost : 0 < most) (cs : Text) :
    ((∃ parts, cutAtMost most cs = .ok parts) ↔ Balanced cs) ∧
      (∀ parts, cutAtMost most cs = .ok parts →
        join parts = cs ∧ (∀ part ∈ parts, Balanced part) ∧
          parts.length = min most (1 + outerCommas cs) ∧
          (∀ part ∈ parts.dropLast, outerCommas part = 0) ∧
          (parts.length ≠ most → ∀ part ∈ parts, outerCommas part = 0)) ∧
      (outerCommas cs < most → cutAtMost most cs = cut cs) ∧
      (∀ closer offset, cutAtMost most cs = .error (.strayCloser closer offset) ↔
        ∃ before after, cs = before ++ closer :: after ∧ size before = offset ∧
          ∀ start, start <+: cs → (Extendable start ↔ start <+: before)) ∧
      ((∀ closer offset, cutAtMost most cs ≠ .error (.strayCloser closer offset)) →
        ∀ start, start <+: cs → Extendable start) ∧
      (∀ q, cutAtMost most cs = .error (.openQuote q) ↔ ∃ groups, Opened ⟨some q, groups⟩ cs) ∧
      (∀ b, cutAtMost most cs = .error (.openGroup b) ↔
        ∃ groups, Opened ⟨none, b :: groups⟩ cs) ∧
      (∀ closer offset, (Imbalance.strayCloser closer offset).message cs =
        "unbalanced '" ++ String.ofList [closer] ++ "' at byte " ++ toString offset ++ " in `" ++
          String.ofList cs ++ "`") ∧
      (∀ q, (Imbalance.openQuote q).message cs =
        "unterminated " ++ String.ofList [q] ++ " quote in `" ++ String.ofList cs ++ "`") ∧
      ∀ b, (Imbalance.openGroup b).message cs =
        "missing '" ++ String.ofList [b.closing] ++ "' in `" ++ String.ofList cs ++ "`" := by
  simp only [cutAtMost_eq_error_iff, ne_eq]
  refine ⟨exists_cutAtMost_iff, ?_, ?_, ?_, ?_, fun _ => cut_eq_openQuote_iff,
    fun _ => cut_eq_openGroup_iff, fun _ _ => rfl, fun _ => rfl, fun _ => rfl⟩
  · intro parts h
    exact ⟨join_cutAtMost h, parts_of_cutAtMost hmost h⟩
  · intro hlt
    rw [cutAtMost]
    cases hc : cut cs with
    | error cause => rfl
    | ok parts =>
      have hlen := length_cut hc
      exact congrArg Except.ok (regroup_of_length_le (by omega))
  · intro closer offset
    rw [cut_eq_strayCloser_iff]
    constructor
    · rintro ⟨before, ⟨after, hcs, hstart⟩, hsize⟩
      exact ⟨before, after, hcs, hsize, hstart⟩
    · rintro ⟨before, after, hcs, hsize, hstart⟩
      exact ⟨before, ⟨after, hcs, hstart⟩, hsize⟩
  · intro h start hstart
    exact (extendable_of_cut h).of_isPrefix hstart

/-- Neither the comma in the group nor the one in the quotation is cut at, and the last one is left
in the second part. -/
theorem cutAtMost_exact_two :
    0 < 2 ∧ Balanced "[a,b],',',c".toList ∧ outerCommas "[a,b],',',c".toList = 2 ∧
      cutAtMost 2 "[a,b],',',c".toList = .ok ["[a,b]".toList, "',',c".toList] ∧
      Balanced "',',c".toList ∧ outerCommas "[a,b]".toList = 0 := by
  have hok : cutAtMost 2 "[a,b],',',c".toList = .ok ["[a,b]".toList, "',',c".toList] := rfl
  obtain ⟨hbalanced, hparts, -⟩ := cutAtMost_exact (by decide : 0 < 2) "[a,b],',',c".toList
  obtain ⟨-, hall, -, hfirst, -⟩ := hparts _ hok
  exact ⟨by decide, hbalanced.mp ⟨_, hok⟩, by decide, hok, hall _ (by simp), hfirst _ (by simp)⟩

end Text
end QueryDomain

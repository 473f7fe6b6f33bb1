import Mathlib.Data.List.DropRight
import QueryDomain.Text.Basic

/-! Trimming is the removal of blanks at both ends: blanks around a text do not matter to it, and
a text without a blank at either end is left as it is. The words of a text do not depend on the
blanks around and between them. -/
namespace QueryDomain
namespace Text

def Blank (cs : Text) : Prop := ∀ c ∈ cs, isBlank c

instance (cs : Text) : Decidable (Blank cs) := List.decidableBAll (fun c => isBlank c) cs

/-- A text with blanks around it. -/
def Padded (core cs : Text) : Prop :=
  ∃ before after, Blank before ∧ Blank after ∧ cs = before ++ core ++ after

@[simp] theorem blank_nil : Blank [] := by simp [Blank]

theorem blank_space : Blank [' '] := by
  intro c hc
  rw [List.mem_singleton.mp hc]
  decide

theorem Padded.refl (cs : Text) : Padded cs cs := ⟨[], [], blank_nil, blank_nil, by simp⟩

theorem dropEnd_eq_rdropWhile (cs : Text) : dropEnd cs = cs.rdropWhile isBlank := rfl

theorem dropEnd_isPrefix (cs : Text) : dropEnd cs <+: cs := List.rdropWhile_prefix _ cs

theorem trim_eq_nil_iff {cs : Text} : trim cs = [] ↔ Blank cs := by
  rw [trim, dropEnd_eq_rdropWhile, List.rdropWhile_eq_nil_iff]
  constructor
  · intro h c hc
    by_cases hd : cs.dropWhile isBlank = []
    · exact List.dropWhile_eq_nil_iff.mp hd c hc
    · exact absurd (h _ (List.head_mem hd)) (by simpa using List.head_dropWhile_not isBlank hd)
  · intro h
    simp [List.dropWhile_eq_nil_iff.mpr h]

theorem trim_eq_self {cs : Text} (hh : ∀ c ∈ cs.head?, ¬ isBlank c)
    (hl : ∀ c ∈ cs.getLast?, ¬ isBlank c) : trim cs = cs := by
  cases cs with
  | nil => rfl
  | cons c cs =>
    have hc : ¬ isBlank c := hh c rfl
    rw [trim, List.dropWhile_cons_of_neg hc, dropEnd_eq_rdropWhile, List.rdropWhile_eq_self_iff]
    intro hne
    exact hl _ (List.getLast?_eq_some_getLast hne)

theorem trim_between {c d : Char} (hc : ¬ isBlank c) (hd : ¬ isBlank d) (cs : Text) :
    trim (c :: cs ++ [d]) = c :: cs ++ [d] := by
  apply trim_eq_self
  · intro e he
    obtain rfl : c = e := by simpa using he
    exact hc
  · intro e he
    rw [List.getLast?_concat] at he
    obtain rfl : d = e := by simpa using he
    exact hd

theorem not_isBlank_head_trim {cs : Text} : ∀ c ∈ (trim cs).head?, ¬ isBlank c := by
  intro c hc
  obtain ⟨rest, hrest⟩ := dropEnd_isPrefix (cs.dropWhile isBlank)
  have hd : (cs.dropWhile isBlank).head? = some c := by
    rw [← hrest, List.head?_append, ← trim, hc]
    rfl
  have := List.head?_dropWhile_not isBlank cs
  rw [hd] at this
  simpa using this

theorem not_isBlank_getLast_trim {cs : Text} : ∀ c ∈ (trim cs).getLast?, ¬ isBlank c := by
  intro c hc
  obtain ⟨hne, rfl⟩ := List.mem_getLast?_eq_getLast hc
  exact List.rdropWhile_last_not _ _ hne

@[simp] theorem trim_trim (cs : Text) : trim (trim cs) = trim cs :=
  trim_eq_self not_isBlank_head_trim not_isBlank_getLast_trim

theorem padded_trim (cs : Text) : Padded (trim cs) cs := by
  refine ⟨cs.takeWhile isBlank, (cs.dropWhile isBlank).rtakeWhile isBlank, ?_, ?_, ?_⟩
  · intro c hc
    exact List.mem_takeWhile_imp hc
  · intro c hc
    exact List.mem_rtakeWhile_imp hc
  · rw [List.append_assoc, trim, dropEnd_eq_rdropWhile, List.rdropWhile_append_rtakeWhile,
      List.takeWhile_append_dropWhile]

theorem mem_of_mem_trim {cs : Text} {c : Char} (h : c ∈ trim cs) : c ∈ cs := by
  obtain ⟨before, after, -, -, hcs⟩ := padded_trim cs
  rw [hcs]
  simp [h]

theorem trim_blank_append {before : Text} (h : Blank before) (cs : Text) :
    trim (before ++ cs) = trim cs := by
  rw [trim, List.dropWhile_append_of_pos h, trim]

theorem trim_append_blank (cs : Text) {after : Text} (h : Blank after) :
    trim (cs ++ after) = trim cs := by
  rw [trim, trim, List.dropWhile_append]
  split
  · rename_i hd
    have hcs : cs.dropWhile isBlank = [] := by simpa using hd
    rw [hcs, List.dropWhile_eq_nil_iff.mpr h]
  · have hr : (cs.dropWhile isBlank ++ after).reverse.dropWhile isBlank =
        (cs.dropWhile isBlank).reverse.dropWhile isBlank := by
      rw [List.reverse_append, List.dropWhile_append_of_pos]
      intro c hc
      exact h c (List.mem_reverse.mp hc)
    rw [dropEnd, hr, dropEnd]

theorem Padded.trim_eq {core cs : Text} (h : Padded core cs) : trim cs = trim core := by
  obtain ⟨before, after, hb, ha, rfl⟩ := h
  rw [trim_append_blank _ ha, trim_blank_append hb]

/-- Where a text with blanks before it continues another text, so does what is left of it. -/
theorem trim_isPrefix {before cs ds : Text} (hb : Blank before) (hd : ∀ c ∈ ds.head?, ¬ isBlank c)
    (h : cs <+: before ++ ds) : trim cs <+: ds := by
  obtain ⟨rest, hrest⟩ := h
  have hds : ds.dropWhile isBlank = ds := by
    cases ds with
    | nil => rfl
    | cons d ds => rw [List.dropWhile_cons_of_neg (hd d rfl)]
  have hcs : (cs ++ rest).dropWhile isBlank = ds := by
    rw [hrest, List.dropWhile_append_of_pos hb, hds]
  rw [List.dropWhile_append] at hcs
  split at hcs
  · rename_i he
    rw [trim, show cs.dropWhile isBlank = [] by simpa using he]
    exact List.nil_prefix
  · exact (dropEnd_isPrefix _).trans ⟨rest, hcs⟩

theorem words_append_cons {c : Char} (hc : isBlank c) (cs ds : Text) :
    words (cs ++ c :: ds) = words cs ++ words ds := by
  rw [words, List.splitOnP_append_cons cs ds hc, List.filter_append]
  rfl

theorem words_blank_append {gap : Text} (h : Blank gap) (cs : Text) :
    words (gap ++ cs) = words cs := by
  induction gap with
  | nil => rfl
  | cons c gap ih =>
    have hw := words_append_cons (h c (by simp)) [] (gap ++ cs)
    rw [List.nil_append] at hw
    rw [List.cons_append, hw, ih fun d hd => h d (by simp [hd])]
    rfl

theorem words_append_blank (cs : Text) {gap : Text} (h : Blank gap) :
    words (cs ++ gap) = words cs := by
  cases gap with
  | nil => rw [List.append_nil]
  | cons c gap =>
    have hg : words gap = [] := by
      have hw := words_blank_append (fun d hd => h d (by simp [hd]) : Blank gap) []
      rwa [List.append_nil] at hw
    rw [words_append_cons (h c (by simp)), hg, List.append_nil]

theorem Padded.words_eq {core cs : Text} (h : Padded core cs) : words cs = words core := by
  obtain ⟨before, after, hb, ha, rfl⟩ := h
  rw [words_append_blank _ ha, words_blank_append hb]

theorem words_trim (cs : Text) : words (trim cs) = words cs := (padded_trim cs).words_eq.symm

structure Word (cs : Text) : Prop where
  ne_nil : cs ≠ []
  not_isBlank : ∀ c ∈ cs, isBlank c = false

theorem Word.words_eq {cs : Text} (h : Word cs) : words cs = [cs] := by
  rw [words, List.splitOnP_eq_singleton h.not_isBlank]
  simp [h.ne_nil]

theorem words_intercalate {gap : Text} (hg : Blank gap) (hne : gap ≠ []) {ws : List Text}
    (h : ∀ w ∈ ws, Word w) : words (gap.intercalate ws) = ws := by
  induction ws with
  | nil => rfl
  | cons w ws ih =>
    have hw : Word w := h w (by simp)
    have hws := ih fun w hw => h w (by simp [hw])
    cases ws with
    | nil => simpa using hw.words_eq
    | cons next ws =>
      obtain ⟨c, gap', rfl⟩ := List.exists_cons_of_ne_nil hne
      rw [List.intercalate_cons_cons, List.append_assoc, List.cons_append,
        words_append_cons (hg c (by simp)),
        words_blank_append (fun d hd => hg d (by simp [hd])), hw.words_eq, hws]
      rfl

end Text
end QueryDomain

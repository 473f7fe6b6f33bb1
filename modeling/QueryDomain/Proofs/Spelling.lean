import QueryDomain.Proofs.Legible

/-! The texts that may be written for a value in place of its literal form: with other blanks and
quotes, without quotes where none are needed, and with a comma behind the last item of a list.
However a list is spelled, its parts are those of its items, and make a domain just if these do. -/
namespace QueryDomain

open Text

namespace Text

structure Unquoted (cs : Text) : Prop extends Plain cs where
  scalar?_eq : scalar? cs = none

/-- A name in a tuple: between quotes, where blanks around it do not count, or bare. -/
def Named (core cs : Text) : Prop :=
  (∃ body, Padded core body ∧ Quoted body cs) ∨ (Bare core ∧ cs = core)

structure Token (cs : Text) : Prop where
  uncut : Uncut cs
  trim_eq : trim cs = cs
  ne_nil : cs ≠ []

end Text

namespace Comparator

/-- A spelling in which any blanks stand between the words. -/
def Widened (c : Comparator) (cs : Text) : Prop :=
  ∃ gap, Blank gap ∧ gap ≠ [] ∧ cs = gap.intercalate (words c.spelling.toList)

theorem word_spelling (c : Comparator) : ∀ w ∈ words c.spelling.toList, Word w := by
  have hall : ∀ c ∈ all, ∀ w ∈ words c.spelling.toList,
      w ≠ [] ∧ w.all fun d => !isBlank d := by decide
  intro w hw
  obtain ⟨hne, hb⟩ := hall c (mem_all c) w hw
  exact ⟨hne, by simpa using hb⟩

theorem normalize_spelling (c : Comparator) :
    normalize c.spelling.toList = c.spelling.toList := by
  cases c <;> decide

theorem Widened.words_eq {c : Comparator} {cs : Text} (h : c.Widened cs) :
    words cs = words c.spelling.toList := by
  obtain ⟨gap, hg, hne, rfl⟩ := h
  exact words_intercalate hg hne c.word_spelling

theorem widened_spelling (c : Comparator) : c.Widened c.spelling.toList :=
  ⟨[' '], blank_space, by simp, (normalize_spelling c).symm⟩

theorem read_eq_ok_of_words {c : Comparator} {cs : Text}
    (h : words cs = words c.spelling.toList) : read cs = .ok c := by
  have hn : normalize cs = c.spelling.toList := by
    rw [normalize, h]
    exact normalize_spelling c
  have hf : (all.find? fun d => d.spelling.toList = c.spelling.toList) = some c := by
    cases c <;> decide
  rw [read, hn, hf]

theorem Widened.ne_nil {c : Comparator} {cs : Text} (h : c.Widened cs) : trim cs ≠ [] := by
  intro hb
  have hw := words_trim cs
  rw [hb, h.words_eq] at hw
  exact absurd hw (by cases c <;> decide)

end Comparator

namespace Value

mutual
/-- How a value may be spelled. -/
def Spelled : Value → Text → Prop
  | text content, cs =>
    Quoted content.toList cs ∨ (Unquoted content.toList ∧ cs = content.toList)
  | integer number, cs =>
    ∃ zeros, cs = List.replicate zeros '0' ++ Text.ofInteger number.toInt
  | float number, cs => cs = number.literal
  | boolean truth, cs => (boolean truth).Scalar cs
  | null, cs => null.Scalar cs
  | list items, cs => ∃ cores parts, SpelledAll items cores ∧ Trailing cores parts ∧
    cs = '[' :: join parts ++ [']']
  | condition field comparator value, cs =>
    ∃ name relation core first second third,
      Named field.toList name ∧ Padded name first ∧
      (∃ words, comparator.Widened words ∧ Named words relation) ∧ Padded relation second ∧
      value.Spelled core ∧ Padded core third ∧
      cs = '(' :: join [first, second, third] ++ [')']
  | operator op, cs => ∃ body, Padded [op.symbol] body ∧ Quoted body cs

/-- Each item is spelled in a part of its own, with any blanks around it. -/
def SpelledAll : List Value → List Text → Prop
  | [], parts => parts = []
  | item :: items, parts => ∃ core part more, item.Spelled core ∧ Padded core part ∧
    SpelledAll items more ∧ parts = part :: more
end

theorem spelledAll_iff {items : List Value} {parts : List Text} :
    SpelledAll items parts ↔
      List.Forall₂ (fun part item => ∃ core, item.Spelled core ∧ Padded core part) parts items := by
  induction items generalizing parts with
  | nil =>
    rw [SpelledAll, List.forall₂_nil_right_iff]
  | cons item items ih =>
    rw [SpelledAll, List.forall₂_cons_right_iff]
    constructor
    · rintro ⟨core, part, more, hs, hp, hm, rfl⟩
      exact ⟨part, more, ⟨core, hs, hp⟩, ih.mp hm, rfl⟩
    · rintro ⟨part, more, ⟨core, hs, hp⟩, hm, rfl⟩
      exact ⟨core, part, more, hs, hp, ih.mpr hm, rfl⟩

end Value

/-- A domain is spelled as the list of its members, with any blanks around it. -/
def Domain.Spelled (domain : Domain) (cs : Text) : Prop :=
  ∃ core, domain.toValue.Spelled core ∧ Padded core cs

namespace Text

variable {core body cs : Text}

theorem not_isBlank_of_isQuote {q : Char} (h : isQuote q) : ¬ isBlank q := by
  simp only [isQuote, Bool.or_eq_true, decide_eq_true_eq] at h
  rcases h with rfl | rfl <;> decide

theorem Quoted.token (h : Quoted body cs) : Token cs := by
  refine ⟨h.uncut, ?_, ?_⟩
  · obtain ⟨q, hq, -, rfl⟩ := h
    exact trim_between (not_isBlank_of_isQuote hq) (not_isBlank_of_isQuote hq) body
  · obtain ⟨q, -, -, rfl⟩ := h
    simp

theorem Plain.token (h : Plain cs) : Token cs := ⟨h.bare.uncut, h.trim_eq, h.ne_nil⟩

theorem token_group (b : Bracket) (h : Balanced cs) :
    Token (b.opening :: cs ++ [b.closing]) := by
  refine ⟨uncut_group b h, ?_, by simp⟩
  cases b
  · exact trim_between (by decide) (by decide) cs
  · exact trim_between (by decide) (by decide) cs

theorem Named.uncut (h : Named core cs) : Uncut cs := by
  rcases h with ⟨body, -, hq⟩ | ⟨hb, rfl⟩
  · exact hq.uncut
  · exact hb.uncut

theorem Named.unquote_eq {part : Text} (h : Named core cs) (hp : Padded cs part) :
    unquote part = trim core := by
  rw [unquote]
  rcases h with ⟨body, hbody, hq⟩ | ⟨hb, rfl⟩
  · have ht : quotation? (trim part) = some body := by
      rw [hp.trim_eq, hq.token.trim_eq]
      exact quotation?_eq_some_iff_quoted.mpr hq
    rw [ht]
    exact hbody.trim_eq
  · have ht : quotation? (trim part) = none := by
      rw [hp.trim_eq]
      exact Bare.quotation?_eq_none fun c hc => hb c (mem_of_mem_trim hc)
    rw [ht]
    exact hp.trim_eq

end Text

theorem Operator.trim_symbol (op : Operator) : trim [op.symbol] = [op.symbol] := by
  cases op <;> decide

namespace Value

theorem Spelled.scalar {v : Value} {cs : Text} (hl : v.Legible) (h : v.Spelled cs)
    (ht : ∀ content, v ≠ .text content) (hi : ∀ items, v ≠ .list items)
    (hn : v.isNode = false) : v.Scalar cs := by
  cases v with
  | text content => exact absurd rfl (ht content)
  | integer number =>
    obtain ⟨zeros, rfl⟩ := h
    have hpos : 0 ≤ number.toInt := hl
    have hlt := number.toInt_lt
    have hw : Text.ofInteger number.toInt = Text.ofNatural number.toInt.toNat := by
      have habs : number.toInt.natAbs = number.toInt.toNat := by omega
      rw [Text.ofInteger, if_neg (by omega), habs]
    refine ⟨number.toInt.toNat, ?_, by omega, ?_⟩
    · rw [hw]
      exact natural?_zeros_append zeros _
    · apply Int64.toInt_inj.mp
      rw [Int64.toInt_ofNat_of_lt (by omega)]
      omega
  | float number =>
    obtain ⟨x, rfl⟩ := hl
    rw [Spelled] at h
    obtain ⟨whole, fraction, d, -, -, hlit, hd, hx⟩ := Binary64.exists_literal x
    rw [hlit] at h
    exact ⟨d, h ▸ hd, hx.symm⟩
  | boolean truth => exact h
  | null => exact h
  | list items => exact absurd rfl (hi items)
  | condition => cases hn
  | operator => cases hn

theorem token_of_scalar {v : Value} {cs : Text} (hl : v.Legible) (h : v.Spelled cs)
    (ht : ∀ content, v ≠ .text content) (hi : ∀ items, v ≠ .list items)
    (hn : v.isNode = false) : Token cs := ((h.scalar hl ht hi hn).plain ht).token

theorem SpelledAll.uncut {items : List Value} {cores : List Text} (h : SpelledAll items cores)
    (ht : ∀ item ∈ items, ∀ cs, item.Spelled cs → Token cs) : ∀ part ∈ cores, Uncut part := by
  intro part hp
  obtain ⟨item, hi, core, hs, hpad⟩ := exists_of_mem_left (spelledAll_iff.mp h) hp
  exact hpad.uncut (ht item hi core hs).uncut

theorem uncut_members {field words name relation core first second third : Text}
    (hn : Named field name) (h₁ : Padded name first) (hr : Named words relation)
    (h₂ : Padded relation second) (hc : Token core) (h₃ : Padded core third) :
    ∀ part ∈ [first, second, third], Uncut part := by
  intro part hp
  simp only [List.mem_cons, List.not_mem_nil, or_false] at hp
  rcases hp with rfl | rfl | rfl
  · exact h₁.uncut hn.uncut
  · exact h₂.uncut hr.uncut
  · exact h₃.uncut hc.uncut

theorem balanced_join {cores parts : List Text} (ht : Trailing cores parts)
    (hu : ∀ part ∈ cores, Uncut part) : Balanced (join parts) := by
  apply Balanced.join
  intro part hp
  rcases ht.mem hp with hp | hb
  · exact (hu part hp).balanced
  · exact hb.bare.uncut.balanced

theorem Spelled.token {v : Value} {cs : Text} (hl : ∀ w ∈ v.subvalues, w.Legible)
    (h : v.Spelled cs) : Token cs := by
  induction v generalizing cs with
  | text content =>
    rcases h with h | ⟨h, rfl⟩
    · exact h.token
    · exact h.token
  | integer number =>
    exact token_of_scalar (hl _ (mem_subvalues_self _)) h (by simp) (by simp) rfl
  | float number => exact token_of_scalar (hl _ (mem_subvalues_self _)) h (by simp) (by simp) rfl
  | boolean truth => exact token_of_scalar (hl _ (mem_subvalues_self _)) h (by simp) (by simp) rfl
  | null => exact token_of_scalar (hl _ (mem_subvalues_self _)) h (by simp) (by simp) rfl
  | list items ih =>
    obtain ⟨-, hl⟩ := forall_subvalues_list.mp hl
    obtain ⟨cores, parts, hs, ht, rfl⟩ := h
    have hu := hs.uncut fun item hi cs hs => ih item hi (hl item hi) hs
    exact token_group .square (balanced_join ht hu)
  | condition field comparator value ih =>
    obtain ⟨-, hl⟩ := forall_subvalues_condition.mp hl
    obtain ⟨name, relation, core, first, second, third, hn, h₁, ⟨words, -, hr⟩, h₂, hv, h₃,
      rfl⟩ := h
    have hu := uncut_members hn h₁ hr h₂ (ih hl hv) h₃
    apply token_group .round
    apply Balanced.join
    intro part hp
    exact (hu part hp).balanced
  | operator op =>
    obtain ⟨body, -, hq⟩ := h
    exact hq.token

section Parts

variable {v : Value} {core part : Text}

/-- Only conditions are spelled in parentheses. -/
theorem Spelled.isTuple_eq (hl : ∀ w ∈ v.subvalues, w.Legible) (h : v.Spelled core)
    (hp : Padded core part) : isTuple part = v.isCondition := by
  have htoken := h.token hl
  have hself := hl v (mem_subvalues_self v)
  rw [isTuple, hp.trim_eq, htoken.trim_eq]
  cases v with
  | text content =>
    rcases h with h | ⟨h, rfl⟩
    · rw [h.interior?_eq_none]
      rfl
    · rw [h.bare.interior?_eq_none]
      rfl
  | list items =>
    obtain ⟨cores, parts, -, -, rfl⟩ := h
    rfl
  | condition field comparator value =>
    obtain ⟨-, hl⟩ := forall_subvalues_condition.mp hl
    obtain ⟨name, relation, core, first, second, third, hn, h₁, ⟨words, -, hr⟩, h₂, hv, h₃,
      rfl⟩ := h
    have hu := uncut_members hn h₁ hr h₂ (hv.token hl) h₃
    have hb := Balanced.join fun part hp => (hu part hp).balanced
    have hi : interior? .round ('(' :: join [first, second, third] ++ [')']) = _ :=
      interior?_group .round hb
    rw [hi]
    rfl
  | operator op =>
    obtain ⟨body, -, hq⟩ := h
    rw [hq.interior?_eq_none]
    rfl
  | _ =>
    have hs := (h.scalar hself (by simp) (by simp) rfl).plain (by simp)
    rw [hs.bare.interior?_eq_none]
    rfl

theorem Spelled.isNode_or_isSymbol (hl : ∀ w ∈ v.subvalues, w.Legible) (h : v.Spelled core)
    (hp : Padded core part) (ho : Text.isOperator part) : v.isNode ∨ v.isSymbol := by
  have hself := hl v (mem_subvalues_self v)
  rw [Text.isOperator, hp.trim_eq, (h.token hl).trim_eq] at ho
  cases v with
  | text content =>
    rcases h with h | ⟨h, rfl⟩
    · rw [quotation?_eq_some_iff_quoted.mpr h] at ho
      exact .inr ho
    · rw [h.bare.quotation?_eq_none] at ho
      cases ho
  | list items =>
    obtain ⟨cores, parts, -, -, rfl⟩ := h
    cases ho
  | condition => exact .inl rfl
  | operator => exact .inl rfl
  | _ =>
    have hs := (h.scalar hself (by simp) (by simp) rfl).plain (by simp)
    rw [hs.bare.quotation?_eq_none] at ho
    cases ho

theorem Spelled.isOperator (h : v.Spelled core) (hp : Padded core part) (ho : v.isOperator) :
    Text.isOperator part := by
  cases v with
  | operator op =>
    obtain ⟨body, hb, hq⟩ := h
    rw [Text.isOperator, hp.trim_eq, hq.token.trim_eq, quotation?_eq_some_iff_quoted.mpr hq]
    simp [hb.trim_eq, op.trim_symbol]
  | _ => cases ho

end Parts

theorem exists_cut {cores parts : List Text} (ht : Trailing cores parts)
    (hu : ∀ part ∈ cores, Uncut part) :
    ∃ found, cut (join parts) = .ok found ∧ Trailing cores found := by
  by_cases hne : parts = []
  · subst hne
    have hc : cores = [] := by
      rcases ht with rfl | ⟨blank, -, h⟩
      · rfl
      · simp at h
    exact ⟨[[]], rfl, .inr ⟨[], blank_nil, by rw [hc]; rfl⟩⟩
  · refine ⟨parts, cut_join (fun part hp => ?_) hne, ht⟩
    rcases ht.mem hp with hp | hb
    · exact hu part hp
    · exact hb.bare.uncut

structure Placed (part : Text) (item : Value) : Prop where
  ne_nil : trim part ≠ []
  isTuple_eq : isTuple part = item.isCondition
  isOperator : item.isOperator → Text.isOperator part
  isNode_or_isSymbol : Text.isOperator part → item.isNode ∨ item.isSymbol

theorem Spelled.placed {v : Value} {core part : Text} (hl : ∀ w ∈ v.subvalues, w.Legible)
    (h : v.Spelled core) (hp : Padded core part) : Placed part v := by
  have htoken := h.token hl
  refine ⟨?_, h.isTuple_eq hl hp, h.isOperator hp, h.isNode_or_isSymbol hl hp⟩
  rw [hp.trim_eq, htoken.trim_eq]
  exact htoken.ne_nil

theorem formsDomain_of_looksLikeDomain {cores : List Text} {items : List Value}
    (hf : List.Forall₂ Placed cores items) (hd : looksLikeDomain items)
    (hn : ∀ item ∈ items, item.isNode) : formsDomain cores := by
  obtain ⟨⟨item, hi, hc⟩, -⟩ := looksLikeDomain_iff.mp hd
  obtain ⟨part, hpart, hp⟩ := exists_of_mem_right hf hi
  refine formsDomain_iff.mpr ⟨⟨part, hpart, hp.isTuple_eq.trans hc⟩, ?_⟩
  intro part hpart
  obtain ⟨item, hi, hp⟩ := exists_of_mem_left hf hpart
  have hnode := hn item hi
  rw [isNode, Bool.or_eq_true] at hnode
  rcases hnode with hc | ho
  · exact .inr (.inl (hp.isTuple_eq.trans hc))
  · exact .inr (.inr (hp.isOperator ho))

theorem looksLikeDomain_of_formsDomain {cores : List Text} {items : List Value}
    (hf : List.Forall₂ Placed cores items) (hd : formsDomain cores) : looksLikeDomain items := by
  obtain ⟨⟨part, hpart, htuple⟩, hall⟩ := formsDomain_iff.mp hd
  rw [looksLikeDomain_iff]
  constructor
  · obtain ⟨item, hi, hp⟩ := exists_of_mem_left hf hpart
    exact ⟨item, hi, hp.isTuple_eq.symm.trans htuple⟩
  · intro item hi
    obtain ⟨part, hpart, hp⟩ := exists_of_mem_right hf hi
    rcases hall part hpart with hb | ht | ho
    · exact absurd hb hp.ne_nil
    · left
      rw [isNode, ← hp.isTuple_eq, ht, Bool.true_or]
    · exact hp.isNode_or_isSymbol ho

theorem readsList_of_placed {limit depth : Nat} {cores parts : List Text} {items : List Value}
    (hl : (list items).Legible) (ht : Trailing cores parts)
    (hp : List.Forall₂ Placed cores items)
    (hr : List.Forall₂ (ReadsAs limit depth) cores items) :
    ReadsList limit depth parts items := by
  rcases legible_list_iff.mp hl with ⟨hlooks, domain, rfl, hcheck⟩ | ⟨hlooks, hops⟩
  · left
    have hn : ∀ item ∈ domain.map Node.toValue, item.isNode := by
      intro item hi
      obtain ⟨n, -, rfl⟩ := List.mem_map.mp hi
      exact isNode_toValue n
    refine ⟨?_, domain, ⟨cores, ht, ?_⟩, hcheck, rfl⟩
    · rw [ht.formsDomain_eq]
      exact formsDomain_of_looksLikeDomain hp hlooks hn
    · have hp' := List.forall₂_map_right_iff.mp hp
      have hr' := List.forall₂_map_right_iff.mp hr
      exact hp'.mp (fun part n h hr => ⟨h.ne_nil, hr.readNode_eq⟩) hr'
  · right
    refine ⟨?_, cores, ht, ?_⟩
    · rw [ht.formsDomain_eq]
      intro hf
      rw [looksLikeDomain_of_formsDomain hp hf] at hlooks
      cases hlooks
    · have hp' : List.Forall₂ (fun part item => Placed part item ∧ item.isOperator = false)
          cores items := forall₂_imp_of_mem hp fun part item hi h => ⟨h, hops item hi⟩
      exact hp'.mp (fun part item h hr => ⟨h.1.ne_nil, hr.readItem_eq h.1.isTuple_eq h.2⟩) hr

end Value
end QueryDomain

import QueryDomain.Proofs.Numbers
import QueryDomain.Proofs.Text.Grouping
import QueryDomain.Reader

/-! Values without structure and the texts that stand for them: keywords, quotations and
numerals. No text is of two of these kinds. -/
namespace QueryDomain

namespace Text

structure Numeral (cs : Text) : Prop where
  ne_nil : cs ≠ []
  all : ∀ c ∈ cs, c.isDigit || c = '.'

theorem Digits.numeral {cs : Text} (h : Digits cs) : Numeral cs := by
  refine ⟨h.ne_nil, fun c hc => ?_⟩
  rw [h.all c hc, Bool.true_or]

theorem Digits.numeral_point {whole fraction : Text} (hw : Digits whole) (hf : Digits fraction) :
    Numeral (whole ++ '.' :: fraction) := by
  refine ⟨by simp, fun c hc => ?_⟩
  rcases List.mem_append.mp hc with hc | hc
  · exact hw.numeral.all c hc
  · rcases List.mem_cons.mp hc with rfl | hc
    · rfl
    · exact hf.numeral.all c hc

namespace Numeral

variable {cs : Text}

theorem bare (h : Numeral cs) : Bare cs := bare_of_all (by decide) h.all

theorem not_isBlank {c : Char} (h : c.isDigit || c = '.') : ¬ isBlank c := by
  simp only [Char.isDigit, Bool.or_eq_true, Bool.and_eq_true, decide_eq_true_eq,
    UInt32.le_iff_toNat_le] at h
  rcases h with ⟨hl, hu⟩ | rfl
  · change 48 ≤ c.toNat at hl
    change c.toNat ≤ 57 at hu
    simp [isBlank, inRanges, blankRanges]
    omega
  · decide

theorem trim_eq (h : Numeral cs) : trim cs = cs := by
  apply trim_eq_self
  · intro c hc
    exact not_isBlank (h.all c (List.mem_of_head? hc))
  · intro c hc
    exact not_isBlank (h.all c (List.mem_of_getLast? hc))

theorem keyword?_eq_none (h : Numeral cs) : keyword? cs = none := by
  have hne : ∀ c ds, ¬ (c.isDigit || c = '.') → cs ≠ c :: ds := by
    rintro c ds hc rfl
    exact hc (h.all c (by simp))
  simp [keyword?, hne]

end Numeral
end Text

open Text

/-- The texts that stand for a value without structure, by the kind of value. -/
def Value.Scalar : Value → Text → Prop
  | .text content, cs => quotation? cs = some content.toList
  | .integer number, cs =>
    ∃ n, natural? cs = some n ∧ n < 0x8000000000000000 ∧ number = Int64.ofNat n
  | .float number, cs => ∃ d, decimal? cs = some d ∧ number = Binary64.ofDecimal d
  | .boolean true, cs => cs = "True".toList ∨ cs = "true".toList
  | .boolean false, cs => cs = "False".toList ∨ cs = "false".toList
  | .null, cs => cs = "None".toList ∨ cs = "none".toList
  | _, _ => False

theorem Value.Scalar.of_keyword? {cs : Text} {v : Value} (h : keyword? cs = some v) :
    v.Scalar cs := by
  rw [keyword?] at h
  split at h
  · rename_i hk
    cases h
    exact hk
  · split at h
    · rename_i hk
      cases h
      exact hk
    · split at h
      · rename_i hk
        cases h
        exact hk
      · cases h

theorem Value.Scalar.of_scalar? {cs : Text} {v : Value} (h : scalar? cs = some v) :
    v.Scalar cs := by
  rw [scalar?, Option.or_eq_some_iff, Option.or_eq_some_iff, Option.or_eq_some_iff] at h
  rcases h with h | ⟨-, h | ⟨-, h | ⟨-, h⟩⟩⟩
  · exact .of_keyword? h
  · obtain ⟨body, hb, rfl⟩ := Option.map_eq_some_iff.mp h
    rw [Value.Scalar, String.toList_ofList]
    exact hb
  · obtain ⟨n, hn, h⟩ := Option.bind_eq_some_iff.mp h
    rw [Option.ite_none_right_eq_some, Option.some.injEq] at h
    obtain ⟨hlt, rfl⟩ := h
    exact ⟨n, hn, hlt, rfl⟩
  · obtain ⟨d, hd, rfl⟩ := Option.map_eq_some_iff.mp h
    exact ⟨d, hd, rfl⟩

theorem keyword?_quotation {q : Char} (hq : isQuote q) (cs : Text) :
    keyword? (q :: cs) = none := by
  simp only [isQuote, Bool.or_eq_true, decide_eq_true_eq] at hq
  rcases hq with rfl | rfl <;> simp [keyword?]

theorem integer?_point (whole fraction : Text) : integer? (whole ++ '.' :: fraction) = none := by
  have hn : natural? (whole ++ '.' :: fraction) = none := by
    rw [Option.eq_none_iff_forall_ne_some]
    intro n hn
    exact absurd ((digits_of_natural? hn).all '.' (by simp)) (by decide)
  rw [integer?, hn, Option.bind_none]

/-- It does not matter in which order the kinds are looked for. -/
theorem scalar?_eq_some_iff {cs : Text} {v : Value} : scalar? cs = some v ↔ v.Scalar cs := by
  refine ⟨.of_scalar?, fun h => ?_⟩
  cases v with
  | text content =>
    rw [Value.Scalar] at h
    have hk : keyword? cs = none := by
      obtain ⟨q, hq, -, rfl⟩ := quotation?_eq_some_iff.mp h
      exact keyword?_quotation hq _
    simp [scalar?, hk, h]
  | integer number =>
    obtain ⟨n, hn, hlt, rfl⟩ := h
    have hd := (digits_of_natural? hn).numeral
    simp [scalar?, hd.keyword?_eq_none, hd.bare.quotation?_eq_none, integer?, hn, hlt]
  | float number =>
    obtain ⟨d, hd, rfl⟩ := h
    obtain ⟨whole, fraction, hw, hf, rfl⟩ := exists_of_decimal? hd
    have hp := hw.numeral_point hf
    rw [scalar?, hp.keyword?_eq_none, hp.bare.quotation?_eq_none, integer?_point, hd]
    rfl
  | boolean truth => cases truth <;> rcases h with rfl | rfl <;> rfl
  | null => rcases h with rfl | rfl <;> rfl
  | list => exact absurd h id
  | condition => exact absurd h id
  | operator => exact absurd h id

/-- A text that needs no quotes to be one part of another text. -/
structure Text.Plain (cs : Text) : Prop where
  bare : Bare cs
  trim_eq : trim cs = cs
  ne_nil : cs ≠ []

theorem Text.Numeral.plain {cs : Text} (h : Numeral cs) : Plain cs :=
  ⟨h.bare, h.trim_eq, h.ne_nil⟩

theorem Value.Scalar.plain {v : Value} {cs : Text} (h : v.Scalar cs)
    (ht : ∀ content, v ≠ .text content) : Plain cs := by
  cases v with
  | text content => exact absurd rfl (ht content)
  | integer number =>
    obtain ⟨n, hn, -, -⟩ := h
    exact (digits_of_natural? hn).numeral.plain
  | float number =>
    obtain ⟨d, hd, -⟩ := h
    obtain ⟨whole, fraction, hw, hf, rfl⟩ := exists_of_decimal? hd
    exact (hw.numeral_point hf).plain
  | boolean truth =>
    cases truth <;> rcases h with rfl | rfl <;> exact ⟨by decide, by decide, by decide⟩
  | null => rcases h with rfl | rfl <;> exact ⟨by decide, by decide, by decide⟩
  | list => exact absurd h id
  | condition => exact absurd h id
  | operator => exact absurd h id

theorem scalar?_group (b : Bracket) (cs : Text) : scalar? (b.opening :: cs) = none := by
  rw [Option.eq_none_iff_forall_ne_some]
  intro v hv
  have hs := Value.Scalar.of_scalar? hv
  by_cases ht : ∃ content, v = .text content
  · obtain ⟨content, rfl⟩ := ht
    rw [Value.Scalar, quotation?_group] at hs
    cases hs
  · have hb := (hs.plain fun content h => ht ⟨content, h⟩).bare b.opening (by simp)
    cases b <;> exact absurd hb (by decide)

end QueryDomain

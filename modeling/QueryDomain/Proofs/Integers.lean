import Mathlib.Data.Nat.Digits.Defs
import QueryDomain.Proofs.Reading

/-! Integers in texts. A text is read as an integer just if it is a row of digits that stand for a
number within 63 bits; a larger number is left as the text that it is, and every integer without a
sign reads back. -/
namespace QueryDomain

namespace Text

/-- The number that a row of digits stands for: the last digit counts ones, the one before it tens,
and so on. -/
def decimalValue (cs : Text) : Nat :=
  Nat.ofDigits 10 (cs.reverse.map fun c => c.toNat - '0'.toNat)

theorem ofDigitChars_eq_decimalValue (cs : Text) :
    Nat.ofDigitChars 10 cs 0 = decimalValue cs := by
  induction cs with
  | nil => rfl
  | cons c cs ih =>
    have hlen : (cs.reverse.map fun c => c.toNat - '0'.toNat).length = cs.length := by simp
    rw [Nat.ofDigitChars_cons, Nat.ofDigitChars_eq_ofDigitChars_zero, ih, decimalValue,
      decimalValue, List.reverse_cons, List.map_append, Nat.ofDigits_append, hlen]
    simp [Nat.add_comm]

theorem natural?_eq_some_iff {cs : Text} {n : Nat} :
    natural? cs = some n ↔ Digits cs ∧ decimalValue cs = n := by
  constructor
  · intro h
    have hd := digits_of_natural? h
    rw [hd.natural?_eq, ofDigitChars_eq_decimalValue] at h
    exact ⟨hd, Option.some.inj h⟩
  · rintro ⟨hd, rfl⟩
    rw [hd.natural?_eq, ofDigitChars_eq_decimalValue]

theorem Digits.decimal?_eq_none {cs : Text} (h : Digits cs) : decimal? cs = none := by
  rw [Option.eq_none_iff_forall_ne_some]
  intro d hd
  obtain ⟨whole, fraction, -, -, rfl⟩ := exists_of_decimal? hd
  exact absurd (h.all '.' (by simp)) (by decide)

theorem Digits.scalar?_eq_none {cs : Text} (h : Digits cs)
    (hlarge : 0x8000000000000000 ≤ decimalValue cs) : scalar? cs = none := by
  have hinteger : integer? cs = none := by
    rw [integer?, natural?_eq_some_iff.mpr ⟨h, rfl⟩, Option.bind_some, if_neg (by omega)]
  rw [scalar?, h.numeral.keyword?_eq_none, h.numeral.bare.quotation?_eq_none, hinteger,
    h.decimal?_eq_none]
  rfl

end Text

open Text

namespace Value

theorem scalar_integer_iff {number : Int64} {cs : Text} :
    (integer number).Scalar cs ↔
      Digits cs ∧ decimalValue cs ≤ 0x7FFFFFFFFFFFFFFF ∧ number.toInt = decimalValue cs := by
  constructor
  · rintro ⟨n, hn, hlt, rfl⟩
    obtain ⟨hd, rfl⟩ := natural?_eq_some_iff.mp hn
    exact ⟨hd, by omega, Int64.toInt_ofNat_of_lt hlt⟩
  · rintro ⟨hd, hle, hvalue⟩
    have hlt : decimalValue cs < 0x8000000000000000 := by omega
    refine ⟨decimalValue cs, natural?_eq_some_iff.mpr ⟨hd, rfl⟩, hlt, ?_⟩
    apply Int64.toInt_inj.mp
    rw [hvalue, Int64.toInt_ofNat_of_lt hlt]

section Reading

variable {limit depth : Nat} {cs : Text}

theorem readValue_eq_integer_iff {number : Int64} :
    readValue limit depth cs = .ok (integer number) ↔ (integer number).Scalar (trim cs) := by
  rw [readValue_eq_ok_iff, scalar?_eq_some_iff]
  constructor
  · rintro (h | ⟨-, -, h⟩ | ⟨-, _, _, _, -, -, -, -, h⟩)
    · exact h
    · cases h
    · cases h
  · exact .inl

theorem readValue_large (h : Digits (trim cs))
    (hlarge : 0x8000000000000000 ≤ decimalValue (trim cs)) :
    readValue limit depth cs = .ok (text (String.ofList (trim cs))) := by
  have hscalar := h.scalar?_eq_none hlarge
  have hlist := h.numeral.bare.interior?_eq_none .square
  exact readValue_eq_ok_iff.mpr (.inr (.inl ⟨hscalar, hlist, rfl⟩))

theorem readValue_literal_integer {number : Int64} (h : 0 ≤ number.toInt) :
    readValue limit depth (literal (integer number)) = .ok (integer number) := by
  have hliteral : literal (integer number) = ofNatural number.toInt.natAbs := by
    rw [literal, ofInteger, if_neg (by omega)]
  have hdigits := digits_ofNatural number.toInt.natAbs
  have hvalue : decimalValue (ofNatural number.toInt.natAbs) = number.toInt.natAbs := by
    rw [← ofDigitChars_eq_decimalValue, ofDigitChars_ofNatural]
  have hlt := number.toInt_lt
  rw [readValue_eq_integer_iff, hliteral, hdigits.numeral.trim_eq, scalar_integer_iff, hvalue]
  exact ⟨hdigits, by omega, by omega⟩

end Reading

/-- Just the digits of a number of at most 63 bits are read as an integer, and as the one that they
stand for. With more digits than that a text remains a text, and what an integer without a sign is
written as is read as this integer. -/
theorem read_integer_exact (text : String) :
    (∀ number : Int64, Value.read text = .ok (integer number) ↔
      Digits (trim text.toList) ∧ decimalValue (trim text.toList) ≤ 0x7FFFFFFFFFFFFFFF ∧
        number.toInt = decimalValue (trim text.toList)) ∧
      (Digits (trim text.toList) → 0x7FFFFFFFFFFFFFFF < decimalValue (trim text.toList) →
        Value.read text = .ok (.text (String.ofList (trim text.toList)))) ∧
      ∀ number : Int64, 0 ≤ number.toInt →
        Value.read (integer number).render = .ok (integer number) := by
  refine ⟨fun number => ?_, fun hdigits hlarge => ?_, fun number hnumber => ?_⟩
  · rw [Value.read, readValue_eq_integer_iff, scalar_integer_iff]
  · exact readValue_large hdigits (by omega)
  · rw [Value.read, render, String.toList_ofList]
    exact readValue_literal_integer hnumber

/-- Zeros in front do not count, and one more than the largest integer is a text. -/
example : Value.read " 009223372036854775807 " = .ok (integer 9223372036854775807) ∧
    Value.read " 009223372036854775808 " = .ok (.text "009223372036854775808") :=
  ⟨by with_unfolding_all rfl, by with_unfolding_all rfl⟩

end Value
end QueryDomain

import QueryDomain.Proofs.Json.Rereading
import QueryDomain.Proofs.Numbers
import QueryDomain.Proofs.Subvalues

/-! The numbers in the JSON form of a value are numerals of the format. An integer is a sign and
digits, and a finite number has a point or an exponent besides. -/
namespace QueryDomain

open Text

namespace Text

structure Whole (cs : Text) : Prop extends Digits cs where
  eq_zero : cs.head? = some '0' → cs = ['0']

theorem Digits.whole_singleton {c : Char} (h : c.isDigit) : Whole [c] :=
  ⟨⟨by simp, by simpa using h⟩, by simp⟩

theorem head?_ofNatural {n : Nat} (h : n ≠ 0) : (ofNatural n).head? ≠ some '0' := by
  induction n using Nat.strong_induction_on with
  | _ n ih =>
    by_cases hn : n < 10
    · have hdigit : ∀ m < 10, m ≠ 0 → Nat.digitChar m ≠ '0' := by decide
      rw [ofNatural, Nat.toDigits_of_lt_base hn]
      simpa using hdigit n hn h
    · have hfirst := ih (n / 10) (by omega) (by omega)
      have hne : Nat.toDigits 10 (n / 10) ≠ [] := ofNatural_ne_nil _
      rwa [ofNatural, Nat.toDigits_of_base_le (by decide) (by omega),
        List.head?_append_of_ne_nil _ hne]

theorem whole_ofNatural (n : Nat) : Whole (ofNatural n) := by
  refine ⟨digits_ofNatural n, fun h => ?_⟩
  by_cases hn : n = 0
  · rw [hn]
    rfl
  · exact absurd h (head?_ofNatural hn)

end Text

namespace Json

def isDecimal (numeral : Text) : Bool := '.' ∈ numeral || 'e' ∈ numeral

inductive Fraction : Text → Prop
  | none : Fraction []
  | digits {digits : Text} : Digits digits → Fraction ('.' :: digits)

inductive Exponent : Text → Prop
  | none : Exponent []
  | power {sign : Char} {digits : Text} : sign = '+' ∨ sign = '-' → Digits digits →
      Exponent ('e' :: sign :: digits)

inductive Unsigned : Text → Prop
  | parts {whole fraction exponent : Text} : Whole whole → Fraction fraction →
      Exponent exponent → Unsigned (whole ++ (fraction ++ exponent))

theorem Exponent.isExponent {cs : Text} (h : Exponent cs) : isExponent cs := by
  cases h with
  | none => rfl
  | power hsign hdigits =>
    simpa [Json.isExponent, hsign, hdigits.ne_nil] using hdigits.all

theorem Exponent.head?_isDigit {cs : Text} (h : Exponent cs) :
    ∀ c ∈ cs.head?, c.isDigit = false := by
  cases h <;> simp

theorem isWordChar_of_isDigit {c : Char} (h : c.isDigit) : isWordChar c := by
  simp [isWordChar, Char.isAlphanum, h]

namespace Unsigned

variable {cs : Text}

theorem word (h : Unsigned cs) : ∀ c ∈ cs, isWordChar c := by
  obtain @⟨whole, fraction, exponent, hw, hf, he⟩ := h
  have hdigits : ∀ {ds : Text}, Digits ds → ∀ c ∈ ds, isWordChar c :=
    fun hd c hc => isWordChar_of_isDigit (hd.all c hc)
  have hfraction : ∀ c ∈ fraction, isWordChar c := by
    cases hf with
    | none => simp
    | digits hd => exact List.forall_mem_cons.mpr ⟨rfl, hdigits hd⟩
  have hexponent : ∀ c ∈ exponent, isWordChar c := by
    cases he with
    | none => simp
    | power hsign hd =>
      refine List.forall_mem_cons.mpr ⟨rfl, List.forall_mem_cons.mpr ⟨?_, hdigits hd⟩⟩
      rcases hsign with rfl | rfl <;> rfl
  exact List.forall_mem_append.mpr
    ⟨hdigits hw.toDigits, List.forall_mem_append.mpr ⟨hfraction, hexponent⟩⟩

theorem head?_ne (h : Unsigned cs) : cs.head? ≠ some '-' := by
  obtain ⟨hw, hf, he⟩ := h
  rw [List.head?_append_of_ne_nil _ hw.ne_nil]
  intro hsign
  exact absurd (hw.all '-' (List.mem_of_head? hsign)) (by decide)

theorem isNumeral (h : Unsigned cs) : isNumeral cs := by
  have hsign := h.head?_ne
  obtain @⟨whole, fraction, exponent, hw, hf, he⟩ := h
  have hover : ∀ c ∈ (fraction ++ exponent).head?, c.isDigit = false := by
    cases hf with
    | none => exact he.head?_isDigit
    | digits => simp
  obtain ⟨htake, hdrop⟩ := span_append hw.all hover
  have hzero : whole.head? ≠ some '0' ∨ whole = ['0'] :=
    (em (whole.head? = some '0')).symm.imp_right hw.eq_zero
  have hexponent := he.isExponent
  simp only [Json.isNumeral, if_neg hsign, htake, hdrop, Bool.and_eq_true, Bool.or_eq_true,
    decide_eq_true_eq]
  refine ⟨⟨hw.ne_nil, hzero⟩, ?_⟩
  cases hf with
  | none => cases he <;> exact hexponent
  | digits hd =>
    obtain ⟨hdigits, hrest⟩ := span_append hd.all he.head?_isDigit
    simpa only [List.cons_append, hdigits, hrest, if_neg hd.ne_nil] using hexponent

theorem numeral (h : Unsigned cs) : Numeral cs := ⟨h.isNumeral, h.word⟩

theorem numeral_neg (h : Unsigned cs) : Numeral ('-' :: cs) := by
  refine ⟨?_, List.forall_mem_cons.mpr ⟨rfl, h.word⟩⟩
  have haccepted := h.isNumeral
  simp only [Json.isNumeral, if_neg h.head?_ne] at haccepted
  simpa only [Json.isNumeral, List.head?_cons, List.tail_cons, if_pos] using haccepted

end Unsigned

end Json

namespace Decimal

/-- A zero before the point stands there alone, if the decimal zero has no zeros added to it. -/
theorem eq_zero_of_head?_whole {d : Decimal} (h : d.digits = 0 → d.exponent ≤ 0)
    (hzero : d.whole.head? = some '0') : d.whole = ['0'] := by
  have hlen : d.whole.length = 1 := by
    have hle : 0 < d.padded.length - d.places := Nat.sub_pos_of_lt d.places_lt
    by_cases hp : d.places < d.written.length
    · -- no zeros stand in front, so the first digit is the one of the decimal
      have hpadded : d.padded = d.written := by simp [padded, Nat.sub_eq_zero_of_le hp]
      have hhead : (ofNatural d.digits).head? = some '0' := by
        rw [whole, List.head?_take, if_neg (by omega), hpadded, written,
          List.head?_append_of_ne_nil _ (ofNatural_ne_nil _)] at hzero
        exact hzero
      have hdigits : d.digits = 0 := by
        by_contra hne
        exact head?_ofNatural hne hhead
      have hexp := h hdigits
      have hw : d.written.length = 1 := by
        rw [written, hdigits, Int.toNat_of_nonpos hexp]
        rfl
      rw [whole, List.length_take, hpadded]
      omega
    · rw [whole, List.length_take]
      simp only [padded, List.length_append, List.length_replicate]
      omega
  obtain ⟨c, hc⟩ := List.length_eq_one_iff.mp hlen
  rw [hc] at hzero ⊢
  simpa using hzero

theorem unsigned_positional {d : Decimal} (h : d.digits = 0 → d.exponent ≤ 0) :
    Json.Unsigned d.positional := by
  have hwhole : Whole d.whole := ⟨d.digits_whole, eq_zero_of_head?_whole h⟩
  have hparts := Json.Unsigned.parts hwhole (.digits d.digits_fraction) .none
  rwa [List.append_nil, ← positional_eq] at hparts

theorem unsigned_scientific (d : Decimal) : Json.Unsigned d.scientific := by
  have hdigits := digits_ofNatural d.digits
  have hwhole := whole_ofNatural d.digits
  have hexponent : Json.Exponent
      ('e' :: (if d.leading < 0 then '-' else '+') :: ofNatural d.leading.natAbs) := by
    refine .power ?_ (digits_ofNatural _)
    split
    · exact .inr rfl
    · exact .inl rfl
  rw [scientific]
  split
  · rename_i first second more hd
    rw [hd] at hdigits
    have hfirst : first.isDigit := hdigits.all first (by simp)
    have hmore : Digits (second :: more) := ⟨by simp, fun c hc => hdigits.all c (by simp [hc])⟩
    exact .parts (Digits.whole_singleton hfirst) (.digits hmore) hexponent
  · exact .parts hwhole .none hexponent

theorem unsigned_jsonNumeral {d : Decimal} (h : d.digits = 0 → d.exponent ≤ 0) :
    Json.Unsigned d.jsonNumeral := by
  rw [jsonNumeral]
  split
  · exact unsigned_positional h
  · exact unsigned_scientific d

theorem isDecimal_jsonNumeral (d : Decimal) : Json.isDecimal d.jsonNumeral := by
  rw [jsonNumeral]
  split
  · simp [Json.isDecimal, positional_eq]
  · simp [Json.isDecimal, scientific]

end Decimal

namespace Magnitude

theorem code_eq_zero_of_digits {x : Magnitude} {d : Decimal} (h : ofDecimal? d = some x)
    (hd : d.digits = 0) : x.code = 0 := by
  rw [ofDecimal?_eq, hd, Nat.zero_mul, Nat.zero_mul] at h
  have hzero : ⟨0, by decide⟩ = x := by simpa [nearest?, roundQuotient] using h
  rw [← hzero]

theorem exponent_shortest (tie : Tie) (x : Magnitude) (h : (x.shortest tie).digits = 0) :
    (x.shortest tie).exponent ≤ 0 := by
  have hcode := code_eq_zero_of_digits (ofDecimal?_shortest tie x) h
  rw [shortest, if_pos hcode]

end Magnitude

theorem Json.numeral_ofInteger (i : Int) : Json.Numeral (ofInteger i) := by
  have hunsigned : Json.Unsigned (ofNatural i.natAbs) := by
    simpa using Json.Unsigned.parts (whole_ofNatural i.natAbs) .none .none
  rw [ofInteger]
  split
  · exact hunsigned.numeral_neg
  · exact hunsigned.numeral

theorem Json.isDecimal_ofInteger (i : Int) : Json.isDecimal (ofInteger i) = false := by
  have hdigits : '.' ∉ ofNatural i.natAbs ∧ 'e' ∉ ofNatural i.natAbs := by
    have hall := (digits_ofNatural i.natAbs).all
    exact ⟨fun h => absurd (hall _ h) (by decide), fun h => absurd (hall _ h) (by decide)⟩
  rw [ofInteger]
  split <;> simp [Json.isDecimal, hdigits]

theorem Binary64.proper_toJson (x : Binary64) : x.toJson.Proper := by
  cases x with
  | nan => exact .null
  | infinite => exact .null
  | finite negative x =>
    have hunsigned := Decimal.unsigned_jsonNumeral (x.exponent_shortest .toEven)
    cases negative
    · exact .number hunsigned.numeral
    · exact .number hunsigned.numeral_neg

theorem Value.proper_toJson (v : Value) : v.toJson.Proper := by
  induction v with
  | text content => exact .text _
  | integer number => exact .number (Json.numeral_ofInteger number.toInt)
  | float number => exact number.proper_toJson
  | boolean truth => exact .boolean truth
  | null => exact .null
  | operator op => exact .text _
  | list items ih =>
    rw [toJson, toJsons_eq_map]
    exact .array (List.forall_mem_map.mpr ih)
  | condition field comparator value ih =>
    rw [toJson]
    refine .array ?_
    simp only [List.forall_mem_cons]
    exact ⟨.text _, .text _, ih, by simp⟩

theorem Domain.proper_toJson (domain : Domain) : domain.toJson.Proper :=
  .array (List.forall_mem_map.mpr fun n _ => n.toValue.proper_toJson)

end QueryDomain

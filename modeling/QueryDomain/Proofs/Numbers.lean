import Mathlib.Tactic.Ring
import QueryDomain.Value

/-! Rounding depends on the value of a decimal only, so every way of writing the shortest decimal
of a magnitude reads back as this magnitude. Numerals read as the numbers that they are written for:
natural numbers with any zeros in front, and finite numbers without a sign in the positional
notation of their shortest decimal. -/
namespace QueryDomain

theorem roundQuotient_mul_right (num den : Nat) {k : Nat} (hk : 0 < k) :
    roundQuotient (num * k) (den * k) = roundQuotient num den := by
  have hlt : ∀ a b : Nat, 2 * (a * k) < b * k ↔ 2 * a < b := by
    intro a b
    rw [← Nat.mul_assoc]
    exact Nat.mul_lt_mul_right hk
  have hgt : ∀ a b : Nat, b * k < 2 * (a * k) ↔ b < 2 * a := by
    intro a b
    rw [← Nat.mul_assoc]
    exact Nat.mul_lt_mul_right hk
  simp only [roundQuotient, Nat.mul_div_mul_right _ _ hk, Nat.mul_mod_mul_right, hlt, hgt]

namespace Magnitude

theorem nearest?_mul_right (num den : Nat) {k : Nat} (hk : 0 < k) :
    nearest? (num * k) (den * k) = nearest? num den := by
  have hshift : ∀ scale, (den * k) <<< scale = (den <<< scale) * k := by
    intro scale
    rw [Nat.shiftLeft_eq, Nat.shiftLeft_eq, Nat.mul_right_comm]
  simp only [nearest?, Nat.mul_div_mul_right _ _ hk, hshift, roundQuotient_mul_right _ _ hk]

theorem nearest?_congr {num den num' den' : Nat} (hd : 0 < den) (hd' : 0 < den')
    (h : num * den' = num' * den) : nearest? num den = nearest? num' den' := by
  rw [← nearest?_mul_right num den hd', h, Nat.mul_comm den den', nearest?_mul_right _ _ hd]

end Magnitude

namespace Decimal

def shift (d : Decimal) : Nat := 10 ^ d.exponent.toNat

def unit (d : Decimal) : Nat := 10 ^ (-d.exponent).toNat

def Same (d e : Decimal) : Prop := d.digits * d.shift * e.unit = e.digits * e.shift * d.unit

theorem unit_pos (d : Decimal) : 0 < d.unit := Nat.pow_pos (by decide)

end Decimal

namespace Magnitude

theorem ofDecimal?_eq (d : Decimal) :
    ofDecimal? d = nearest? (d.digits * d.shift * unitsPerOne) d.unit := rfl

theorem ofDecimal?_congr {d e : Decimal} (h : d.Same e) : ofDecimal? d = ofDecimal? e := by
  rw [ofDecimal?_eq, ofDecimal?_eq]
  apply nearest?_congr d.unit_pos e.unit_pos
  rw [Nat.mul_right_comm, h, Nat.mul_right_comm]

theorem pow_two_mul_pow_five (p : Nat) : Nat.pow 2 p * Nat.pow 5 p = 10 ^ p := by
  rw [Nat.pow_eq, Nat.pow_eq, ← Nat.mul_pow]

/-- The exponent is given by a name, since numbers of this size are not to be computed. -/
theorem exists_exponent :
    ∃ p, unitsPerOne = Nat.pow 2 p ∧ stepsPerUnit = Nat.pow 5 p ∧ p = 1074 :=
  ⟨_, rfl, rfl, rfl⟩

theorem stepsPerUnit_pos : 0 < stepsPerUnit := by
  obtain ⟨p, -, hs, -⟩ := exists_exponent
  rw [hs]
  exact Nat.pow_pos (by decide)

-- the two numbers are far too large to be computed in a comparison of terms
attribute [local irreducible] unitsPerOne stepsPerUnit

theorem ofDecimal?_grid (digits grid : Nat) {exponent : Int} (h : exponent = grid - 1074) :
    ofDecimal? ⟨digits, exponent⟩ = nearest? (digits * 10 ^ grid) stepsPerUnit := by
  obtain ⟨p, hu, hs, hp⟩ := exists_exponent
  have hunits : unitsPerOne * stepsPerUnit = 10 ^ p := by rw [hu, hs, pow_two_mul_pow_five]
  have hpow : 10 ^ exponent.toNat * 10 ^ p = 10 ^ grid * 10 ^ (-exponent).toNat := by
    rw [← Nat.pow_add, ← Nat.pow_add]
    congr 1
    omega
  rw [ofDecimal?_eq]
  apply nearest?_congr (Decimal.unit_pos _) stepsPerUnit_pos
  calc digits * 10 ^ exponent.toNat * unitsPerOne * stepsPerUnit
      = digits * (10 ^ exponent.toNat * (unitsPerOne * stepsPerUnit)) := by ring
    _ = digits * (10 ^ grid * 10 ^ (-exponent).toNat) := by rw [hunits, hpow]
    _ = digits * 10 ^ grid * 10 ^ (-exponent).toNat := by ring

theorem readsBack_iff {x : Magnitude} {steps : Nat} :
    x.readsBack steps ↔ nearest? steps stepsPerUnit = some x := decide_eq_true_iff

end Magnitude

theorem readsBack_of_onGrid? {tie : Tie} {readsBack : Nat → Bool} {steps grid digits : Nat}
    (h : onGrid? tie readsBack steps grid = some digits) :
    readsBack (digits * 10 ^ grid) := by
  simp only [onGrid?, Nat.pow_eq] at h
  split at h
  · rename_i hlow hhigh
    cases h
    split
    · exact hlow
    · exact hhigh
  · rename_i hlow _
    cases h
    exact hlow
  · rename_i _ hhigh
    cases h
    exact hhigh
  · cases h

theorem exists_search (tie : Tie) {readsBack : Nat → Bool} {steps : Nat} (h : readsBack steps)
    (grid : Nat) :
    ∃ digits grid' : Nat, search tie readsBack steps grid = ⟨digits, grid' - 1074⟩ ∧
      readsBack (digits * 10 ^ grid') := by
  induction grid with
  | zero => exact ⟨steps, 0, rfl, by simpa using h⟩
  | succ grid ih =>
    rw [search]
    split
    · rename_i digits hdigits
      exact ⟨digits, grid + 1, by simp, readsBack_of_onGrid? hdigits⟩
    · exact ih

namespace Magnitude

/-- The shortest decimal of a magnitude reads back. -/
theorem ofDecimal?_shortest (tie : Tie) (x : Magnitude) :
    ofDecimal? (x.shortest tie) = some x := by
  rw [shortest]
  split
  · rename_i h
    have hx : x = ⟨0, by decide⟩ := by
      cases x
      simp_all
    have hu : x.units = 0 := by
      rw [hx]
      rfl
    have hz := nearest?_units x Nat.one_pos
    rw [hu] at hz
    rw [ofDecimal?_eq]
    simpa [Decimal.shift, Decimal.unit] using hz
  · have hsteps : x.readsBack x.steps := readsBack_iff.mpr (nearest?_units x stepsPerUnit_pos)
    obtain ⟨digits, grid, hs, hr⟩ := exists_search tie hsteps (Text.ofNatural x.steps).length
    rw [hs, ofDecimal?_grid digits grid rfl]
    exact readsBack_iff.mp hr

end Magnitude

namespace Text

structure Digits (cs : Text) : Prop where
  ne_nil : cs ≠ []
  all : ∀ c ∈ cs, c.isDigit

theorem Digits.natural?_eq {cs : Text} (h : Digits cs) :
    natural? cs = some (Nat.ofDigitChars 10 cs 0) :=
  if_pos ⟨h.ne_nil, List.all_eq_true.mpr h.all⟩

theorem digits_of_natural? {cs : Text} {n : Nat} (h : natural? cs = some n) : Digits cs := by
  rw [natural?, Option.ite_none_right_eq_some] at h
  exact ⟨h.1.1, List.all_eq_true.mp h.1.2⟩

theorem digits_ofNatural (n : Nat) : Digits (ofNatural n) :=
  ⟨ofNatural_ne_nil n, List.all_eq_true.mp (all_isDigit_ofNatural n)⟩

theorem Digits.zeros_append {cs : Text} (h : Digits cs) (k : Nat) :
    Digits (List.replicate k '0' ++ cs) := by
  refine ⟨by simp [h.ne_nil], ?_⟩
  intro c hc
  rcases List.mem_append.mp hc with hc | hc
  · rw [List.eq_of_mem_replicate hc]
    decide
  · exact h.all c hc

theorem Digits.append_zeros {cs : Text} (h : Digits cs) (k : Nat) :
    Digits (cs ++ List.replicate k '0') := by
  refine ⟨by simp [h.ne_nil], ?_⟩
  intro c hc
  rcases List.mem_append.mp hc with hc | hc
  · exact h.all c hc
  · rw [List.eq_of_mem_replicate hc]
    decide

theorem ofDigitChars_ofNatural (n : Nat) : Nat.ofDigitChars 10 (ofNatural n) 0 = n :=
  Nat.ofDigitChars_toDigits (by decide) (by decide)

theorem ofDigitChars_zeros_append (k : Nat) (cs : Text) :
    Nat.ofDigitChars 10 (List.replicate k '0' ++ cs) 0 = Nat.ofDigitChars 10 cs 0 := by
  rw [Nat.ofDigitChars_append, Nat.ofDigitChars_replicate_zero, Nat.mul_zero]

theorem natural?_zeros_append (k n : Nat) :
    natural? (List.replicate k '0' ++ ofNatural n) = some n := by
  rw [((digits_ofNatural n).zeros_append k).natural?_eq, ofDigitChars_zeros_append,
    ofDigitChars_ofNatural]

theorem decimal?_point {whole fraction : Text} (hw : Digits whole) (hf : Digits fraction) :
    decimal? (whole ++ '.' :: fraction) =
      some ⟨Nat.ofDigitChars 10 (whole ++ fraction) 0, -fraction.length⟩ := by
  have hpoint : ∀ c ∈ ('.' :: fraction).head?, c.isDigit = false := by simp
  obtain ⟨htake, hdrop⟩ := span_append hw.all hpoint
  have hboth : Digits (whole ++ fraction) := by
    refine ⟨by simp [hw.ne_nil], ?_⟩
    intro c hc
    rcases List.mem_append.mp hc with hc | hc
    · exact hw.all c hc
    · exact hf.all c hc
  rw [decimal?, hdrop]
  simp only
  rw [htake, if_neg (by simp [hw.ne_nil, hf.ne_nil]), hboth.natural?_eq, Option.map_some]

theorem exists_of_decimal? {cs : Text} {d : Decimal} (h : decimal? cs = some d) :
    ∃ whole fraction, Digits whole ∧ Digits fraction ∧ cs = whole ++ '.' :: fraction := by
  rw [decimal?] at h
  split at h
  · rename_i fraction hd
    split at h
    · cases h
    · rename_i hne
      obtain ⟨n, hn, -⟩ := Option.map_eq_some_iff.mp h
      have hall := (digits_of_natural? hn).all
      simp only [not_or] at hne
      refine ⟨cs.takeWhile Char.isDigit, fraction, ⟨hne.1, ?_⟩, ⟨hne.2, ?_⟩, ?_⟩
      · intro c hc
        exact hall c (List.mem_append_left _ hc)
      · intro c hc
        exact hall c (List.mem_append_right _ hc)
      · rw [← hd, List.takeWhile_append_dropWhile]
  · cases h

end Text

namespace Decimal

open Text

section Positional

variable (d : Decimal)

def written : Text := ofNatural d.digits ++ List.replicate d.exponent.toNat '0'

def places : Nat := (-d.exponent).toNat

def padded : Text := List.replicate (d.places + 1 - d.written.length) '0' ++ d.written

def whole : Text := d.padded.take (d.padded.length - d.places)

def fraction : Text := d.padded.drop (d.padded.length - d.places)

theorem positional_eq :
    d.positional = d.whole ++ '.' :: (if d.fraction = [] then ['0'] else d.fraction) := rfl

theorem digits_written : Digits d.written := (digits_ofNatural d.digits).append_zeros _

theorem digits_padded : Digits d.padded := d.digits_written.zeros_append _

theorem ofDigitChars_padded : Nat.ofDigitChars 10 d.padded 0 = d.digits * d.shift := by
  rw [padded, ofDigitChars_zeros_append, written, Nat.ofDigitChars_append, ofDigitChars_ofNatural,
    Nat.ofDigitChars_replicate_zero, Nat.mul_comm, shift]

theorem places_lt : d.places < d.padded.length := by
  rw [padded, List.length_append, List.length_replicate]
  omega

theorem length_fraction : d.fraction.length = d.places := by
  have hlt := d.places_lt
  rw [fraction, List.length_drop]
  omega

theorem digits_whole : Digits d.whole := by
  have hlt := d.places_lt
  refine ⟨?_, fun c hc => d.digits_padded.all c (List.mem_of_mem_take hc)⟩
  apply List.ne_nil_of_length_pos
  rw [whole, List.length_take]
  omega

theorem digits_fraction : Digits (if d.fraction = [] then ['0'] else d.fraction) := by
  split
  · exact ⟨by simp, by simp⟩
  · rename_i hf
    exact ⟨hf, fun c hc => d.digits_padded.all c (List.mem_of_mem_drop hc)⟩

/-- The positional notation has digits before and behind a point, and these have the value of the
decimal. -/
theorem exists_positional :
    ∃ whole fraction, Digits whole ∧ Digits fraction ∧ d.positional = whole ++ '.' :: fraction ∧
      d.Same ⟨Nat.ofDigitChars 10 (whole ++ fraction) 0, -fraction.length⟩ := by
  refine ⟨d.whole, _, d.digits_whole, d.digits_fraction, d.positional_eq, ?_⟩
  have hall : d.whole ++ d.fraction = d.padded := List.take_append_drop ..
  have hlen := d.length_fraction
  have hplaces : (-d.exponent).toNat = d.places := rfl
  by_cases hf : d.fraction = []
  · -- there are no places, and one zero is written behind the point
    rw [hf, List.append_nil] at hall
    rw [hf, List.length_nil] at hlen
    have hzero : Nat.ofDigitChars 10 (d.whole ++ ['0']) 0 = d.digits * d.shift * 10 := by
      rw [Nat.ofDigitChars_append, hall, ofDigitChars_padded, Nat.ofDigitChars_cons,
        Nat.ofDigitChars_nil, Nat.mul_comm]
      rfl
    rw [if_pos hf]
    simp [Same, hplaces, ← hlen, hzero, shift, unit]
  · rw [if_neg hf]
    simp [Same, hplaces, hall, hlen, ofDigitChars_padded, shift, unit]

end Positional

end Decimal

namespace Binary64

open Text

theorem ofDecimal_cases (d : Decimal) :
    ofDecimal d = infinite false ∨ ∃ x, ofDecimal d = finite false x := by
  rw [ofDecimal]
  generalize Magnitude.ofDecimal? d = found
  cases found with
  | none => exact .inl rfl
  | some x => exact .inr ⟨x, rfl⟩

/-- The literal of a finite number without a sign is a decimal numeral of this number. -/
theorem exists_literal (x : Magnitude) :
    ∃ whole fraction d, Digits whole ∧ Digits fraction ∧
      (finite false x).literal = whole ++ '.' :: fraction ∧
      decimal? (whole ++ '.' :: fraction) = some d ∧ ofDecimal d = finite false x := by
  have hl : (finite false x).literal = (x.shortest .up).positional := by
    simp only [literal, signed, if_false, Bool.false_eq_true]
  have hd := Magnitude.ofDecimal?_shortest .up x
  generalize x.shortest .up = shortest at hl hd
  obtain ⟨whole, fraction, hw, hf, hp, hs⟩ := shortest.exists_positional
  have hread := (Magnitude.ofDecimal?_congr hs).symm.trans hd
  refine ⟨whole, fraction, _, hw, hf, hl.trans hp, decimal?_point hw hf, ?_⟩
  rw [ofDecimal, hread, Option.elim_some]

end Binary64
end QueryDomain

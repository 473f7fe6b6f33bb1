import QueryDomain.Text.Basic

/-! Decimal and binary numbers. A natural number is written in digits and read from them, and a
decimal number can be written out in two ways.

The binary numbers are those of 64 bits. A finite magnitude is a whole number of units `2 ^ -1074`,
and its code, the bits without the sign, orders the magnitudes by size. Rounding goes to the nearest
magnitude, and halfway to the one with the even code. The number `0x10000000000000` is `2 ^ 52`.

The shortest decimal of a magnitude has the fewest digits that read back, and of several with as few
digits it is the nearest. A magnitude is a whole number of steps `10 ^ -1074`, so each grid of powers
of ten is compared with it in whole numbers. -/
namespace QueryDomain

/-- The number `digits * 10 ^ exponent`. -/
structure Decimal where
  digits : Nat
  exponent : Int
  deriving DecidableEq, Repr

namespace Text

/-- The value of a text of one or more of the ten ASCII digits, leading zeros allowed. -/
def natural? (cs : Text) : Option Nat :=
  if cs ≠ [] ∧ cs.all Char.isDigit then some (Nat.ofDigitChars 10 cs 0) else none

def ofNatural (n : Nat) : Text := Nat.toDigits 10 n

def ofInteger (i : Int) : Text :=
  if i < 0 then '-' :: ofNatural i.natAbs else ofNatural i.natAbs

/-- The value of a text `digits.digits`, with at least one digit on each side of the point. -/
def decimal? (cs : Text) : Option Decimal :=
  match cs.dropWhile Char.isDigit with
  | '.' :: fraction =>
    if cs.takeWhile Char.isDigit = [] ∨ fraction = [] then none
    else
      (natural? (cs.takeWhile Char.isDigit ++ fraction)).map fun n => ⟨n, -fraction.length⟩
  | _ => none

theorem all_isDigit_ofNatural (n : Nat) : (ofNatural n).all Char.isDigit := by
  simp only [List.all_eq_true, ofNatural]
  exact fun c hc => Nat.isDigit_of_mem_toDigits (by decide) (by decide) hc

theorem ofNatural_ne_nil (n : Nat) : ofNatural n ≠ [] := Nat.toDigits_ne_nil

end Text

namespace Decimal

/-- Positional notation: at least one digit before the point and at least one behind it. -/
def positional (d : Decimal) : Text :=
  let written := Text.ofNatural d.digits ++ List.replicate d.exponent.toNat '0'
  let places := (-d.exponent).toNat
  let padded := List.replicate (places + 1 - written.length) '0' ++ written
  let fraction := padded.drop (padded.length - places)
  padded.take (padded.length - places) ++ '.' :: (if fraction = [] then ['0'] else fraction)

def leading (d : Decimal) : Int := (Text.ofNatural d.digits).length - 1 + d.exponent

/-- Scientific notation: a point only between digits, a sign and no padding in the exponent. -/
def scientific (d : Decimal) : Text :=
  let mantissa := match Text.ofNatural d.digits with
    | first :: second :: more => first :: '.' :: second :: more
    | digits => digits
  let sign := if d.leading < 0 then '-' else '+'
  mantissa ++ 'e' :: sign :: Text.ofNatural d.leading.natAbs

end Decimal

/-- Ties go to the even quotient. -/
def roundQuotient (num den : Nat) : Nat :=
  let rest := 2 * (num % den)
  if rest < den then num / den
  else if den < rest then num / den + 1
  else num / den + num / den % 2

/-- The code has 11 bits for the scale above 52 bits of the mantissa, and the highest scale is kept
for what is not finite. -/
structure Magnitude where
  code : Nat
  code_lt : code < 2047 * 0x10000000000000
  deriving DecidableEq, Repr

namespace Magnitude

def scale (x : Magnitude) : Nat := x.code / 0x10000000000000 - 1

def mantissa (x : Magnitude) : Nat := x.code - x.scale * 0x10000000000000

def units (x : Magnitude) : Nat := x.mantissa <<< x.scale

def unitsPerOne : Nat := Nat.pow 2 1074

/-- The magnitude nearest to `num / den` units, unless this rounds beyond the largest one. -/
def nearest? (num den : Nat) : Option Magnitude :=
  let scale := (num / den).log2 - 52
  let code := scale * 0x10000000000000 + roundQuotient num (den <<< scale)
  if h : code < 2047 * 0x10000000000000 then some ⟨code, h⟩ else none

def ofDecimal? (d : Decimal) : Option Magnitude :=
  nearest? (d.digits * Nat.pow 10 d.exponent.toNat * unitsPerOne) (Nat.pow 10 (-d.exponent).toNat)

theorem mantissa_lt (x : Magnitude) : x.mantissa < 0x20000000000000 := by
  simp only [mantissa, scale]
  omega

theorem scale_eq_zero_or (x : Magnitude) : x.scale = 0 ∨ 0x10000000000000 ≤ x.mantissa := by
  simp only [mantissa, scale]
  omega

theorem code_eq (x : Magnitude) : x.code = x.scale * 0x10000000000000 + x.mantissa := by
  simp only [mantissa, scale]
  omega

theorem log2_units (x : Magnitude) : x.units.log2 - 52 = x.scale := by
  have hlt := x.mantissa_lt
  rcases x.scale_eq_zero_or with h | h
  · have hu : x.units = x.mantissa := by simp [units, h]
    rw [hu, h]
    rcases Nat.eq_zero_or_pos x.mantissa with hz | hz
    · simp [hz]
    · have hlog := (Nat.log2_lt (n := x.mantissa) (k := 53) (by omega)).mpr hlt
      omega
  · have hpos : 0 < 2 ^ x.scale := Nat.two_pow_pos _
    have hm : 0 < x.units := by
      rw [units, Nat.shiftLeft_eq]
      exact Nat.mul_pos (by omega) hpos
    have hlog : x.units.log2 = 52 + x.scale := by
      rw [Nat.log2_eq_iff (by omega), units, Nat.shiftLeft_eq]
      constructor
      · rw [Nat.pow_add]
        exact Nat.mul_le_mul_right _ h
      · rw [show 52 + x.scale + 1 = 53 + x.scale by omega, Nat.pow_add]
        exact Nat.mul_lt_mul_of_pos_right hlt hpos
    omega

theorem roundQuotient_mul (n : Nat) {den : Nat} (h : 0 < den) :
    roundQuotient (n * den) den = n := by
  simp [roundQuotient, Nat.mul_div_cancel _ h, h]

theorem nearest?_units (x : Magnitude) {den : Nat} (h : 0 < den) :
    nearest? (x.units * den) den = some x := by
  have hs : (x.units * den / den).log2 - 52 = x.scale := by
    rw [Nat.mul_div_cancel _ h, log2_units]
  have hr : roundQuotient (x.units * den) (den <<< x.scale) = x.mantissa := by
    have hd : x.units * den = x.mantissa * (den <<< x.scale) := by
      rw [units, Nat.shiftLeft_eq, Nat.shiftLeft_eq, Nat.mul_assoc, Nat.mul_comm (2 ^ x.scale)]
    rw [hd]
    refine roundQuotient_mul _ ?_
    rw [Nat.shiftLeft_eq]
    exact Nat.mul_pos h (Nat.two_pow_pos _)
  have hc := x.code_eq
  have hlt := x.code_lt
  simp only [nearest?, hs, hr, ← hc, hlt, dite_true]

end Magnitude

/-- Zero has both signs, and there is one value that is not a number. -/
inductive Binary64
  | nan
  | infinite (negative : Bool)
  | finite (negative : Bool) (magnitude : Magnitude)
  deriving DecidableEq, Repr

namespace Binary64

/-- The sign is the highest bit; codes past the largest magnitude are infinity and then not
numbers. -/
def ofBits (bits : UInt64) : Binary64 :=
  let negative := 0x8000000000000000 ≤ bits.toNat
  let code := bits.toNat % 0x8000000000000000
  if h : code < 2047 * 0x10000000000000 then finite negative ⟨code, h⟩
  else if code = 2047 * 0x10000000000000 then infinite negative
  else nan

/-- Decimals beyond the largest magnitude read as infinity. -/
def ofDecimal (d : Decimal) : Binary64 :=
  (Magnitude.ofDecimal? d).elim (infinite false) (finite false)

/-- Numerical equality: the two zeros are equal, and what is not a number equals nothing. -/
def same : Binary64 → Binary64 → Bool
  | infinite s, infinite t => s = t
  | finite s x, finite t y => x = y && (s = t || x.code = 0)
  | _, _ => false

end Binary64

/-- What is taken when two decimals with as few digits are equally near. -/
inductive Tie
  | up
  | toEven
  deriving DecidableEq, Repr

/-- The multiple of `10 ^ grid` steps that is written for a number of steps, if one of the two
around it reads back. -/
def onGrid? (tie : Tie) (readsBack : Nat → Bool) (steps grid : Nat) : Option Nat :=
  let size := Nat.pow 10 grid
  let low := steps / size
  let rest := 2 * (steps % size)
  let takesLow := rest < size ∨ (rest = size ∧ tie = .toEven ∧ low % 2 = 0)
  match readsBack (low * size), readsBack ((low + 1) * size) with
  | true, true => some (if takesLow then low else low + 1)
  | true, false => some low
  | false, true => some (low + 1)
  | false, false => none

/-- The first grid with a multiple that reads back, from the given one down. On the grid of the
steps themselves their number is exact. -/
def search (tie : Tie) (readsBack : Nat → Bool) (steps : Nat) : Nat → Decimal
  | 0 => ⟨steps, -1074⟩
  | grid + 1 =>
    match onGrid? tie readsBack steps (grid + 1) with
    | some digits => ⟨digits, grid + 1 - 1074⟩
    | none => search tie readsBack steps grid

namespace Magnitude

def stepsPerUnit : Nat := Nat.pow 5 1074

def steps (x : Magnitude) : Nat := x.units * stepsPerUnit

def readsBack (x : Magnitude) (steps : Nat) : Bool :=
  nearest? steps stepsPerUnit = some x

def shortest (tie : Tie) (x : Magnitude) : Decimal :=
  if x.code = 0 then ⟨0, 0⟩
  else search tie x.readsBack x.steps (Text.ofNatural x.steps).length

end Magnitude
end QueryDomain

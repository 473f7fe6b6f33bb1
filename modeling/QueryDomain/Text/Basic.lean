/-! Blank characters, the cutting of a text at blanks, and quotations: a text between two equal
quotes that does not contain that quote. There are no escapes, so a text with both quotes in it has
no quotation that gives it back. -/
namespace QueryDomain

/-- Texts are read character by character, so they are lists inside the library. -/
abbrev Text := List Char

namespace Text

section Blanks

def inRanges (ranges : List (Nat × Nat)) (c : Char) : Bool :=
  ranges.any fun r => r.1 ≤ c.toNat && c.toNat ≤ r.2

/-- The 25 code points with the property White_Space, as closed ranges. -/
def blankRanges : List (Nat × Nat) :=
  [(0x09, 0x0D), (0x20, 0x20), (0x85, 0x85), (0xA0, 0xA0), (0x1680, 0x1680), (0x2000, 0x200A),
    (0x2028, 0x2029), (0x202F, 0x202F), (0x205F, 0x205F), (0x3000, 0x3000)]

def isBlank (c : Char) : Bool := inRanges blankRanges c

def dropEnd (cs : Text) : Text := (cs.reverse.dropWhile isBlank).reverse

/-- Blanks are dropped at both ends and kept inside. -/
def trim (cs : Text) : Text := dropEnd (cs.dropWhile isBlank)

def words (cs : Text) : List Text := (cs.splitOnP isBlank).filter (· ≠ [])

theorem length_dropWhile_le (p : Char → Bool) (cs : Text) :
    (cs.dropWhile p).length ≤ cs.length :=
  (List.dropWhile_sublist p).length_le

/-- A run of characters is over where the first other one stands. -/
theorem span_append {p : Char → Bool} {cs rest : Text} (h : ∀ c ∈ cs, p c)
    (hrest : ∀ c ∈ rest.head?, p c = false) :
    (cs ++ rest).takeWhile p = cs ∧ (cs ++ rest).dropWhile p = rest := by
  have hstop : rest.takeWhile p = [] ∧ rest.dropWhile p = rest := by
    cases rest with
    | nil => exact ⟨rfl, rfl⟩
    | cons c rest =>
      have hc : p c = false := hrest c rfl
      simp [hc]
  rw [List.takeWhile_append_of_pos h, List.dropWhile_append_of_pos h, hstop.1, hstop.2,
    List.append_nil]
  exact ⟨rfl, rfl⟩

theorem length_trim_le (cs : Text) : (trim cs).length ≤ cs.length := by
  have h₁ := length_dropWhile_le isBlank cs
  have h₂ := length_dropWhile_le isBlank (cs.dropWhile isBlank).reverse
  simp only [trim, dropEnd, List.length_reverse] at *
  omega

end Blanks

section Quotations

def isQuote (c : Char) : Bool := c = '\x27' || c = '\x22'

/-- The body of a text that is one quotation from its first to its last character. -/
def quotation? : Text → Option Text
  | [] => none
  | q :: cs =>
    if isQuote q ∧ cs.dropWhile (· ≠ q) = [q] then some (cs.takeWhile (· ≠ q)) else none

/-- A trimmed text without the quotes around it, if there are any, and trimmed once more. -/
def unquote (cs : Text) : Text :=
  match quotation? (trim cs) with
  | some body => trim body
  | none => trim cs

/-- Single quotes are written unless the text holds one and no double quote. -/
def quoteFor (cs : Text) : Char :=
  if '\x27' ∈ cs ∧ '\x22' ∉ cs then '\x22' else '\x27'

def quote (cs : Text) : Text := quoteFor cs :: cs ++ [quoteFor cs]

theorem quotation?_eq_some_iff {cs body : Text} :
    quotation? cs = some body ↔ ∃ q, isQuote q ∧ q ∉ body ∧ cs = q :: body ++ [q] := by
  cases cs with
  | nil => simp [quotation?]
  | cons q cs =>
    simp only [quotation?, Option.ite_none_right_eq_some, Option.some.injEq]
    constructor
    · rintro ⟨⟨hq, hd⟩, rfl⟩
      refine ⟨q, hq, fun hm => ?_, ?_⟩
      · simpa using List.all_eq_true.mp List.all_takeWhile q hm
      · rw [List.cons_append, ← hd, List.takeWhile_append_dropWhile]
    · rintro ⟨p, hp, hb, h⟩
      obtain ⟨rfl, rfl⟩ := List.cons.inj h
      have hne : ∀ c ∈ body, (decide (c ≠ q)) = true := by
        rintro c hc
        exact decide_eq_true fun e : c = q => hb (e ▸ hc)
      refine ⟨⟨hp, (List.dropWhile_append_of_pos hne).trans (by simp)⟩, ?_⟩
      exact (List.takeWhile_append_of_pos hne).trans (by simp)

end Quotations

end Text
end QueryDomain

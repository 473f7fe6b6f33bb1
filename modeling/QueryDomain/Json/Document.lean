import QueryDomain.Value

/-! JSON documents and their compact text: no blanks between tokens, and escapes only where the
format demands them. Numbers are kept as they are written.

In the JSON form of values and domains a condition becomes an array of three, an operator the text
of its symbol, and a number without a finite value becomes null. -/
namespace QueryDomain

inductive Json
  | null
  | boolean (truth : Bool)
  | number (numeral : Text)
  | text (content : Text)
  | array (items : List Json)
  | object (members : List (Text × Json))
  deriving Inhabited

namespace Json

def hexDigit (n : Nat) : Char := Nat.digitChar (n % 16)

/-- The characters with an escape of one letter, behind that letter. -/
def shortEscapes : List (Char × Char) :=
  [('\x22', '\x22'), ('\\', '\\'), ('b', '\x08'), ('t', '\t'), ('n', '\n'), ('f', '\x0C'),
    ('r', '\r')]

def escape (c : Char) : Text :=
  match shortEscapes.find? fun e => e.2 = c with
  | some e => ['\\', e.1]
  | none =>
    if c.toNat < 0x20 then
      ['\\', 'u', '0', '0', hexDigit (c.toNat / 16), hexDigit c.toNat]
    else [c]

def writeText (cs : Text) : Text := '\x22' :: cs.flatMap escape ++ ['\x22']

mutual
def write : Json → Text
  | null => "null".toList
  | boolean true => "true".toList
  | boolean false => "false".toList
  | number numeral => numeral
  | text content => writeText content
  | array items => '[' :: [','].intercalate (writeItems items) ++ [']']
  | object members => '\x7b' :: [','].intercalate (writeMembers members) ++ ['\x7d']

def writeItems : List Json → List Text
  | [] => []
  | item :: items => write item :: writeItems items

def writeMembers : List (Text × Json) → List Text
  | [] => []
  | (name, member) :: members => (writeText name ++ ':' :: write member) :: writeMembers members
end

@[simp] theorem writeItems_eq_map (items : List Json) : writeItems items = items.map write := by
  induction items with
  | nil => rfl
  | cons item items ih => rw [writeItems, ih, List.map_cons]

theorem hexDigit_ne_newline (n : Nat) : hexDigit n ≠ '\n' := by
  have h : ∀ m < 16, Nat.digitChar m ≠ '\n' := by decide
  exact h _ (Nat.mod_lt _ (by decide))

/-- A line break is always escaped, so a compact text is one line. -/
theorem newline_notMem_escape (c : Char) : '\n' ∉ escape c := by
  unfold escape
  split
  · rename_i e he
    have h : ∀ e ∈ shortEscapes, '\n' ≠ e.1 := by decide
    simpa using h e (List.mem_of_find?_eq_some he)
  · rename_i he
    have hn : '\n' ≠ c := by rintro rfl; exact absurd he (by decide)
    split
    · simp [(hexDigit_ne_newline _).symm]
    · simpa using hn

/-- The member of an object that a name has; of several the last one counts. -/
def get? (name : Text) : Json → Option Json
  | object members => (members.reverse.find? fun m => m.1 = name).map Prod.snd
  | _ => none

end Json

namespace Decimal

/-- Positional for leading digits from `10 ^ -5` to `10 ^ 15`, and scientific outside. -/
def jsonNumeral (d : Decimal) : Text :=
  if d.digits = 0 ∨ (-5 ≤ d.leading ∧ d.leading < 16) then d.positional else d.scientific

end Decimal

def Binary64.toJson : Binary64 → Json
  | finite negative x =>
    .number (if negative then '-' :: (x.shortest .toEven).jsonNumeral
      else (x.shortest .toEven).jsonNumeral)
  | _ => .null

namespace Value

mutual
def toJson : Value → Json
  | text content => .text content.toList
  | integer number => .number (Text.ofInteger number.toInt)
  | float number => number.toJson
  | boolean truth => .boolean truth
  | null => .null
  | list items => .array (toJsons items)
  | condition field comparator value =>
    .array [.text field.toList, .text comparator.spelling.toList, toJson value]
  | operator op => .text [op.symbol]

def toJsons : List Value → List Json
  | [] => []
  | item :: items => toJson item :: toJsons items
end

@[simp] theorem toJsons_eq_map (items : List Value) : toJsons items = items.map toJson := by
  induction items with
  | nil => rfl
  | cons item items ih => rw [toJsons, ih, List.map_cons]

end Value

def Domain.toJson (domain : Domain) : Json := .array (domain.map fun n => n.toValue.toJson)

end QueryDomain

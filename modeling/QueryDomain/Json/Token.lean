import QueryDomain.Json.Document

/-! Reading JSON. A text is cut into tokens, and these are put together in one pass that keeps the
arrays and objects around the present place on a stack. -/
namespace QueryDomain
namespace Json

inductive Token
  | openArray
  | closeArray
  | openObject
  | closeObject
  | comma
  | colon
  | text (content : Text)
  | scalar (document : Json)

def isSpace (c : Char) : Bool := c = ' ' || c = '\t' || c = '\n' || c = '\r'

def mark? (c : Char) : Option Token :=
  if c = '[' then some .openArray
  else if c = ']' then some .closeArray
  else if c = '\x7b' then some .openObject
  else if c = '\x7d' then some .closeObject
  else if c = ',' then some .comma
  else if c = ':' then some .colon
  else none

def hexValue? (c : Char) : Option Nat :=
  if c.isDigit then some (c.toNat - '0'.toNat)
  else if 'a' ≤ c ∧ c ≤ 'f' then some (c.toNat - 'a'.toNat + 10)
  else if 'A' ≤ c ∧ c ≤ 'F' then some (c.toNat - 'A'.toNat + 10)
  else none

def codeUnit? : Text → Option (Nat × Text)
  | a :: b :: c :: d :: cs => do
    let a ← hexValue? a
    let b ← hexValue? b
    let c ← hexValue? c
    let d ← hexValue? d
    return (a * 4096 + b * 256 + c * 16 + d, cs)
  | _ => none

/-- A code unit below the surrogates or above them, or a high surrogate with its low one. -/
def codePoint? (cs : Text) : Option (Char × Text) :=
  match codeUnit? cs with
  | none => none
  | some (high, rest) =>
    if high < 0xD800 ∨ 0xE000 ≤ high then some (Char.ofNat high, rest)
    else if high < 0xDC00 then
      match rest with
      | '\\' :: 'u' :: more =>
        match codeUnit? more with
        | some (low, rest) =>
          if 0xDC00 ≤ low ∧ low < 0xE000 then
            some (Char.ofNat (0x10000 + (high - 0xD800) * 0x400 + (low - 0xDC00)), rest)
          else none
        | none => none
      | _ => none
    else none

/-- The character that is meant by what follows a backslash. -/
def unescape? : Text → Option (Char × Text)
  | [] => none
  | c :: cs =>
    if c = 'u' then codePoint? cs
    else if c = '/' then some (c, cs)
    else (shortEscapes.find? fun e => e.1 = c).map fun e => (e.2, cs)

theorem length_codeUnit? {cs rest : Text} {n : Nat} (h : codeUnit? cs = some (n, rest)) :
    rest.length < cs.length := by
  unfold codeUnit? at h
  split at h
  · simp only [Option.bind_eq_bind, Option.bind_eq_some_iff, Option.pure_def,
      Option.some.injEq, Prod.mk.injEq] at h
    obtain ⟨_, _, _, _, _, _, _, _, _, rfl⟩ := h
    simp only [List.length_cons]
    omega
  · cases h

theorem length_codePoint? {cs rest : Text} {c : Char} (h : codePoint? cs = some (c, rest)) :
    rest.length < cs.length := by
  unfold codePoint? at h
  split at h
  · cases h
  · rename_i hu
    have hl := length_codeUnit? hu
    split at h
    · cases h; exact hl
    · split at h
      · split at h
        · split at h
          · rename_i hv
            have hm := length_codeUnit? hv
            split at h
            · obtain ⟨_, rfl⟩ := Prod.mk.inj (Option.some.inj h)
              simp only [List.length_cons] at hl
              omega
            · cases h
          · cases h
        · cases h
      · cases h

theorem length_unescape? {cs rest : Text} {c : Char} (h : unescape? cs = some (c, rest)) :
    rest.length < cs.length := by
  cases cs with
  | nil => cases h
  | cons d cs =>
    simp only [unescape?] at h
    split at h
    · exact Nat.lt_succ_of_lt (length_codePoint? h)
    · split at h
      · cases h; simp
      · obtain ⟨e, _, he⟩ := Option.map_eq_some_iff.mp h
        cases he; simp

def readText (cs : Text) : Option (Text × Text) :=
  match cs with
  | [] => none
  | c :: more =>
    if c = '\x22' then some ([], more)
    else if c = '\\' then
      match _ : unescape? more with
      | some (d, rest) => (readText rest).map fun p => (d :: p.1, p.2)
      | none => none
    else if c.toNat < 0x20 then none
    else (readText more).map fun p => (c :: p.1, p.2)
termination_by cs.length
decreasing_by
  · have hl := length_unescape? ‹_›
    simp only [List.length_cons]
    omega
  · simp

theorem length_readText {cs content rest : Text} (h : readText cs = some (content, rest)) :
    rest.length < cs.length := by
  fun_induction readText cs generalizing content with
  | case1 => cases h
  | case2 => cases h; simp
  | case3 more d next hu _ ih =>
    obtain ⟨p, hp, he⟩ := Option.map_eq_some_iff.mp h
    cases he
    have := ih hp
    have := length_unescape? hu
    simp only [List.length_cons]
    omega
  | case4 => cases h
  | case5 => cases h
  | case6 c more _ _ _ ih =>
    obtain ⟨p, hp, he⟩ := Option.map_eq_some_iff.mp h
    cases he
    exact Nat.lt_succ_of_lt (ih hp)

def isExponent : Text → Bool
  | [] => true
  | c :: cs =>
    let digits := if cs.head? = some '+' ∨ cs.head? = some '-' then cs.tail else cs
    (c = 'e' || c = 'E') && digits ≠ [] && digits.all Char.isDigit

/-- Whether a text is a number of the format: no leading zeros, and digits around the point. -/
def isNumeral (cs : Text) : Bool :=
  let unsigned := if cs.head? = some '-' then cs.tail else cs
  let whole := unsigned.takeWhile Char.isDigit
  let tail := match unsigned.dropWhile Char.isDigit with
    | '.' :: more => if (more.takeWhile Char.isDigit) = [] then ['.'] else
        more.dropWhile Char.isDigit
    | other => other
  whole ≠ [] && (whole.head? ≠ some '0' || whole = ['0']) && isExponent tail

def ofWord? (cs : Text) : Option Json :=
  if cs = "null".toList then some .null
  else if cs = "true".toList then some (.boolean true)
  else if cs = "false".toList then some (.boolean false)
  else if isNumeral cs then some (.number cs)
  else none

def isWordChar (c : Char) : Bool := c.isAlphanum || c = '-' || c = '+' || c = '.'

def tokens? (cs : Text) : Option (List Token) :=
  match cs with
  | [] => some []
  | c :: more =>
    if isSpace c then tokens? more
    else if c = '\x22' then
      match _ : readText more with
      | some (content, rest) => (tokens? rest).map (.text content :: ·)
      | none => none
    else
      match mark? c with
      | some mark => (tokens? more).map (mark :: ·)
      | none =>
        match ofWord? (c :: more.takeWhile isWordChar) with
        | some document =>
          (tokens? (more.dropWhile isWordChar)).map (.scalar document :: ·)
        | none => none
termination_by cs.length
decreasing_by
  · simp
  · have hl := length_readText ‹_›
    simp only [List.length_cons]
    omega
  · simp
  · have hl := Text.length_dropWhile_le isWordChar more
    simp only [List.length_cons]
    omega

/-- An array or object that is still open, with its members so far, the latest first. -/
inductive Frame
  | array (items : List Json)
  | object (members : List (Text × Json)) (name : Text)

mutual
def start (stack : List Frame) : List Token → Option Json
  | .scalar document :: rest => resume document stack rest
  | .text content :: rest => resume (.text content) stack rest
  | .openArray :: .closeArray :: rest => resume (.array []) stack rest
  | .openArray :: rest => start (.array [] :: stack) rest
  | .openObject :: .closeObject :: rest => resume (.object []) stack rest
  | .openObject :: .text name :: .colon :: rest => start (.object [] name :: stack) rest
  | _ => none

/-- A document is complete, and the next tokens say what becomes of it. -/
def resume (document : Json) : List Frame → List Token → Option Json
  | [], [] => some document
  | .array items :: stack, .comma :: rest => start (.array (document :: items) :: stack) rest
  | .array items :: stack, .closeArray :: rest =>
    resume (.array (document :: items).reverse) stack rest
  | .object members name :: stack, .comma :: .text next :: .colon :: rest =>
    start (.object ((name, document) :: members) next :: stack) rest
  | .object members name :: stack, .closeObject :: rest =>
    resume (.object ((name, document) :: members).reverse) stack rest
  | _, _ => none
end

def read? (cs : Text) : Option Json := (tokens? cs).bind (start [])

end Json
end QueryDomain

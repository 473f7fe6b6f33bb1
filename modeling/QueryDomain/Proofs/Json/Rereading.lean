import Mathlib.Data.List.Forall2
import QueryDomain.Json.Token

/-! The compact text of a document reads back. It is cut into the tokens that the document is made
of, whatever stands behind it, so long as this does not go on with a word; and these are put together
to the document, inside whatever is still open. -/
namespace QueryDomain
namespace Json

section Escapes

theorem unescape?_short {e : Char × Char} (h : e ∈ shortEscapes) (rest : Text) :
    unescape? (e.1 :: rest) = some (e.2, rest) := by
  simp only [shortEscapes, List.mem_cons, List.not_mem_nil, or_false] at h
  rcases h with rfl | rfl | rfl | rfl | rfl | rfl | rfl <;> rfl

theorem hexValue?_hexDigit (n : Nat) : hexValue? (hexDigit n) = some (n % 16) := by
  have h : ∀ m < 16, hexValue? (Nat.digitChar m) = some m := by decide
  exact h _ (Nat.mod_lt _ (by decide))

theorem unescape?_control {c : Char} (h : c.toNat < 0x20) (rest : Text) :
    unescape? ('u' :: '0' :: '0' :: hexDigit (c.toNat / 16) :: hexDigit c.toNat :: rest) =
      some (c, rest) := by
  have hzero : hexValue? '0' = some 0 := rfl
  have hcode : 0 * 4096 + 0 * 256 + c.toNat / 16 % 16 * 16 + c.toNat % 16 = c.toNat := by omega
  have hunit : codeUnit? ('0' :: '0' :: hexDigit (c.toNat / 16) :: hexDigit c.toNat :: rest) =
      some (c.toNat, rest) := by
    simp only [codeUnit?, hzero, hexValue?_hexDigit, Option.bind_eq_bind, Option.bind_some,
      Option.pure_def, hcode]
  have hlow : c.toNat < 0xD800 ∨ 0xE000 ≤ c.toNat := by omega
  rw [unescape?, if_pos rfl, codePoint?, hunit]
  simp only [if_pos hlow, Char.ofNat_toNat]

theorem readText_escaped {cs : Text} {c : Char} {rest : Text}
    (h : unescape? cs = some (c, rest)) :
    readText ('\\' :: cs) = (readText rest).map fun p => (c :: p.1, p.2) := by
  rw [readText, if_neg (by decide), if_pos rfl]
  split
  · rename_i d more hd
    rw [hd] at h
    cases h
    rfl
  · rename_i hnone
    rw [hnone] at h
    cases h

theorem readText_escape (c : Char) (rest : Text) :
    readText (escape c ++ rest) = (readText rest).map fun p => (c :: p.1, p.2) := by
  rw [escape]
  split
  · rename_i e he
    obtain rfl : e.2 = c := by simpa using List.find?_some he
    exact readText_escaped (unescape?_short (List.mem_of_find?_eq_some he) rest)
  · rename_i hnone
    have hother : ∀ e ∈ shortEscapes, e.2 ≠ c := by simpa using hnone
    have hquote : c ≠ '\x22' := (hother ('\x22', '\x22') (by decide)).symm
    have hslash : c ≠ '\\' := (hother ('\\', '\\') (by decide)).symm
    split
    · rename_i hcontrol
      exact readText_escaped (unescape?_control hcontrol rest)
    · rename_i hcontrol
      rw [List.singleton_append, readText, if_neg hquote, if_neg hslash, if_neg hcontrol]

theorem readText_write (content rest : Text) :
    readText (content.flatMap escape ++ '\x22' :: rest) = some (content, rest) := by
  induction content with
  | nil => rw [List.flatMap_nil, List.nil_append, readText, if_pos rfl]
  | cons c content ih =>
    rw [List.flatMap_cons, List.append_assoc, readText_escape, ih]
    rfl

end Escapes

section Scanning

def Delimited (rest : Text) : Prop := ∀ c ∈ rest.head?, isWordChar c = false

/-- A text that is cut into the given tokens wherever its last word is over behind it. -/
def Scans (cs : Text) (ts : List Token) : Prop :=
  ∀ rest, Delimited rest → tokens? (cs ++ rest) = (tokens? rest).map (ts ++ ·)

theorem delimited_nil : Delimited [] := by simp [Delimited]

theorem Delimited.cons {c : Char} (h : isWordChar c = false) (rest : Text) :
    Delimited (c :: rest) := by
  simpa [Delimited] using h

theorem mark?_cases {c : Char} {mark : Token} (h : mark? c = some mark) :
    c = '[' ∨ c = ']' ∨ c = '\x7b' ∨ c = '\x7d' ∨ c = ',' ∨ c = ':' := by
  by_contra hc
  simp only [not_or] at hc
  simp [mark?, hc] at h

theorem isWordChar_of_mark? {c : Char} {mark : Token} (h : mark? c = some mark) :
    isWordChar c = false := by
  rcases mark?_cases h with rfl | rfl | rfl | rfl | rfl | rfl <;> rfl

theorem tokens?_mark {c : Char} {mark : Token} (h : mark? c = some mark) (rest : Text) :
    tokens? (c :: rest) = (tokens? rest).map (mark :: ·) := by
  have hspace : ¬ isSpace c ∧ c ≠ '\x22' := by
    rcases mark?_cases h with rfl | rfl | rfl | rfl | rfl | rfl <;> decide
  rw [tokens?, if_neg hspace.1, if_neg hspace.2, h]

theorem tokens?_text (content rest : Text) :
    tokens? (writeText content ++ rest) = (tokens? rest).map (.text content :: ·) := by
  have hread := readText_write content rest
  have htext : writeText content ++ rest =
      '\x22' :: (content.flatMap escape ++ '\x22' :: rest) := by simp [writeText]
  rw [htext, tokens?, if_neg (by decide), if_pos rfl]
  split
  · rename_i other more h
    rw [hread] at h
    cases h
    rfl
  · rename_i hnone
    rw [hread] at hnone
    cases hnone

theorem isWordChar_cases {c : Char} (h : isWordChar c) :
    ¬ isSpace c ∧ c ≠ '\x22' ∧ mark? c = none := by
  refine ⟨?_, ?_, ?_⟩
  · intro hspace
    simp only [isSpace, Bool.or_eq_true, decide_eq_true_eq] at hspace
    rcases hspace with ((rfl | rfl) | rfl) | rfl <;> exact absurd h (by decide)
  · rintro rfl
    exact absurd h (by decide)
  · rw [Option.eq_none_iff_forall_ne_some]
    intro mark hm
    rw [isWordChar_of_mark? hm] at h
    cases h

theorem scans_word {cs : Text} {document : Json} (hne : cs ≠ []) (hword : ∀ c ∈ cs, isWordChar c)
    (h : ofWord? cs = some document) : Scans cs [.scalar document] := by
  intro rest hrest
  cases cs with
  | nil => contradiction
  | cons c cs =>
    obtain ⟨hspace, hquote, hmark⟩ := isWordChar_cases (hword c (by simp))
    have hcs : ∀ d ∈ cs, isWordChar d := fun d hd => hword d (by simp [hd])
    obtain ⟨htake, hdrop⟩ := Text.span_append hcs hrest
    rw [List.cons_append, tokens?, if_neg hspace, if_neg hquote, hmark]
    simp only [htake, hdrop, h]
    rfl

theorem scans_text (content : Text) : Scans (writeText content) [.text content] :=
  fun rest _ => tokens?_text content rest

namespace Scans

variable {cs ds : Text} {ts us : List Token}

theorem nil : Scans [] [] := by
  intro rest _
  cases h : tokens? rest <;> simp [h]

theorem append_mark {c : Char} {mark : Token} (h : Scans cs ts) (hmark : mark? c = some mark)
    (hd : Scans ds us) : Scans (cs ++ c :: ds) (ts ++ mark :: us) := by
  intro rest hrest
  have hdelimited : Delimited (c :: (ds ++ rest)) := .cons (isWordChar_of_mark? hmark) _
  rw [List.append_assoc, List.cons_append, h _ hdelimited, tokens?_mark hmark, hd rest hrest]
  cases tokens? rest <;> simp

theorem group {opener closer : Char} {before after : Token} (ho : mark? opener = some before)
    (hc : mark? closer = some after) (h : Scans cs ts) :
    Scans (opener :: cs ++ [closer]) (before :: ts ++ [after]) := by
  have hopen : Scans (opener :: cs) (before :: ts) := nil.append_mark ho h
  exact hopen.append_mark hc nil

theorem intercalate {css : List Text} {tss : List (List Token)} (h : List.Forall₂ Scans css tss) :
    Scans ([','].intercalate css) ([Token.comma].intercalate tss) := by
  induction h with
  | nil => exact nil
  | @cons cs ts css tss hfirst hmore ih =>
    cases hmore with
    | nil => simpa using hfirst
    | cons hnext hmore =>
      rw [List.intercalate_cons_cons, List.intercalate_cons_cons, List.append_assoc,
        List.append_assoc]
      exact hfirst.append_mark rfl ih

end Scans
end Scanning

section Documents

mutual
def tokens : Json → List Token
  | null => [.scalar null]
  | boolean truth => [.scalar (boolean truth)]
  | number numeral => [.scalar (number numeral)]
  | text content => [.text content]
  | array items => .openArray :: [Token.comma].intercalate (itemTokens items) ++ [.closeArray]
  | object members =>
    .openObject :: [Token.comma].intercalate (memberTokens members) ++ [.closeObject]

def itemTokens : List Json → List (List Token)
  | [] => []
  | item :: items => tokens item :: itemTokens items

def memberTokens : List (Text × Json) → List (List Token)
  | [] => []
  | (name, member) :: members => (.text name :: .colon :: tokens member) :: memberTokens members
end

theorem itemTokens_eq_map (items : List Json) : itemTokens items = items.map tokens := by
  induction items with
  | nil => rfl
  | cons item items ih => rw [itemTokens, ih, List.map_cons]

theorem memberTokens_eq_map (members : List (Text × Json)) :
    memberTokens members = members.map fun m => .text m.1 :: .colon :: m.2.tokens := by
  induction members with
  | nil => rfl
  | cons m members ih => rw [memberTokens, ih, List.map_cons]

theorem writeMembers_eq_map (members : List (Text × Json)) :
    writeMembers members = members.map fun m => writeText m.1 ++ ':' :: m.2.write := by
  induction members with
  | nil => rfl
  | cons m members ih => rw [writeMembers, ih, List.map_cons]

structure Numeral (cs : Text) : Prop where
  accepted : isNumeral cs
  word : ∀ c ∈ cs, isWordChar c

/-- A document in which every number is a numeral. -/
inductive Proper : Json → Prop
  | null : Proper null
  | boolean (truth : Bool) : Proper (boolean truth)
  | number {numeral : Text} : Numeral numeral → Proper (number numeral)
  | text (content : Text) : Proper (text content)
  | array {items : List Json} : (∀ item ∈ items, Proper item) → Proper (array items)
  | object {members : List (Text × Json)} : (∀ m ∈ members, Proper m.2) → Proper (object members)

theorem Numeral.ne_nil {cs : Text} (h : Numeral cs) : cs ≠ [] := by
  rintro rfl
  exact absurd h.accepted (by decide)

theorem Numeral.ofWord?_eq {cs : Text} (h : Numeral cs) : ofWord? cs = some (number cs) := by
  have hkeyword : ∀ word ∈ ["null".toList, "true".toList, "false".toList], ¬ isNumeral word := by
    decide
  have hne : ∀ word ∈ ["null".toList, "true".toList, "false".toList], cs ≠ word := by
    rintro word hw rfl
    exact hkeyword cs hw h.accepted
  rw [ofWord?, if_neg (hne _ (by simp)), if_neg (hne _ (by simp)), if_neg (hne _ (by simp)),
    if_pos h.accepted]

/-- The text of a document is cut into the document's tokens. -/
theorem Proper.scans {document : Json} (h : Proper document) :
    Scans document.write document.tokens := by
  induction h with
  | null => exact scans_word (by decide) (List.all_eq_true.mp rfl) rfl
  | boolean truth =>
    cases truth <;> exact scans_word (by decide) (List.all_eq_true.mp rfl) rfl
  | number hn => exact scans_word hn.ne_nil hn.word hn.ofWord?_eq
  | text content => exact scans_text content
  | @array items _ ih =>
    have hitems : List.Forall₂ Scans (writeItems items) (itemTokens items) := by
      rw [writeItems_eq_map, itemTokens_eq_map, List.forall₂_map_left_iff,
        List.forall₂_map_right_iff, List.forall₂_same]
      exact ih
    exact (Scans.intercalate hitems).group rfl rfl
  | @object members _ ih =>
    have hmembers : List.Forall₂ Scans (writeMembers members) (memberTokens members) := by
      rw [writeMembers_eq_map, memberTokens_eq_map, List.forall₂_map_left_iff,
        List.forall₂_map_right_iff, List.forall₂_same]
      exact fun m hm => (scans_text m.1).append_mark rfl (ih m hm)
    exact (Scans.intercalate hmembers).group rfl rfl

end Documents

section Machine

/-- The pass over the tokens gets a document from its own tokens, wherever these stand. -/
def Rebuilt (document : Json) : Prop :=
  ∀ stack rest, start stack (document.tokens ++ rest) = resume document stack rest

theorem intercalate_cons {α : Type} (separator : α) (first : List α) (more : List (List α)) :
    [separator].intercalate (first :: more) = first ++ more.flatMap (separator :: ·) := by
  induction more generalizing first with
  | nil => simp
  | cons next more ih => rw [List.intercalate_cons_cons, ih, List.flatMap_cons]; simp

theorem tokens_ne_closeArray (document : Json) (more rest : List Token) :
    document.tokens ++ more ≠ .closeArray :: rest := by
  cases document <;> simp [tokens]

theorem resume_items {item : Json} {items done : List Json} (h : ∀ i ∈ items, Rebuilt i)
    (stack : List Frame) (rest : List Token) :
    resume item (.array done :: stack)
        (items.flatMap (fun i => .comma :: i.tokens) ++ .closeArray :: rest) =
      resume (.array (done.reverse ++ item :: items)) stack rest := by
  induction items generalizing item done with
  | nil => rw [List.flatMap_nil, List.nil_append, resume, List.reverse_cons]
  | cons next items ih =>
    have hnext : Rebuilt next := h next (by simp)
    rw [List.flatMap_cons, List.append_assoc, List.cons_append, resume, hnext,
      ih fun i hi => h i (by simp [hi])]
    simp

theorem resume_members {name : Text} {member : Json} {members done : List (Text × Json)}
    (h : ∀ m ∈ members, Rebuilt m.2) (stack : List Frame) (rest : List Token) :
    resume member (.object done name :: stack)
        (members.flatMap (fun m => .comma :: .text m.1 :: .colon :: m.2.tokens) ++
          .closeObject :: rest) =
      resume (.object (done.reverse ++ (name, member) :: members)) stack rest := by
  induction members generalizing name member done with
  | nil => rw [List.flatMap_nil, List.nil_append, resume, List.reverse_cons]
  | cons next members ih =>
    have hnext : Rebuilt next.2 := h next (by simp)
    rw [List.flatMap_cons, List.append_assoc, List.cons_append, List.cons_append,
      List.cons_append, resume, hnext, ih fun m hm => h m (by simp [hm])]
    simp

theorem rebuilt_array {items : List Json} (h : ∀ i ∈ items, Rebuilt i) :
    Rebuilt (.array items) := by
  intro stack rest
  rw [tokens, itemTokens_eq_map, List.cons_append, List.cons_append, List.append_assoc,
    List.singleton_append]
  cases items with
  | nil => rw [List.map_nil, List.intercalate_nil, List.nil_append, start]
  | cons item items =>
    have hitem : Rebuilt item := h item (by simp)
    rw [List.map_cons, intercalate_cons, List.flatMap_map, List.append_assoc,
      start.eq_4 _ _ fun more => tokens_ne_closeArray item _ more, hitem,
      resume_items fun i hi => h i (by simp [hi])]
    rfl

theorem rebuilt_object {members : List (Text × Json)} (h : ∀ m ∈ members, Rebuilt m.2) :
    Rebuilt (.object members) := by
  intro stack rest
  rw [tokens, memberTokens_eq_map, List.cons_append, List.cons_append, List.append_assoc,
    List.singleton_append]
  cases members with
  | nil => rw [List.map_nil, List.intercalate_nil, List.nil_append, start]
  | cons m members =>
    have hm : Rebuilt m.2 := h m (by simp)
    rw [List.map_cons, intercalate_cons, List.flatMap_map, List.append_assoc, List.cons_append,
      List.cons_append, start, hm, resume_members fun m hm => h m (by simp [hm])]
    rfl

theorem Proper.rebuilt {document : Json} (h : Proper document) : Rebuilt document := by
  induction h with
  | null | boolean | number | text =>
    intro stack rest
    rw [tokens, List.singleton_append, start]
  | array _ ih => exact rebuilt_array ih
  | object _ ih => exact rebuilt_object ih

end Machine

/-- A document whose numbers are numerals is what its text is read as. -/
theorem Proper.read?_write {document : Json} (h : Proper document) :
    read? document.write = some document := by
  have htokens : tokens? document.write = some document.tokens := by
    simpa [tokens?] using h.scans [] delimited_nil
  have hbuilt := h.rebuilt [] []
  rw [List.append_nil] at hbuilt
  rw [read?, htokens, Option.bind_some, hbuilt, resume]

theorem Proper.write_inj {document other : Json} (h : Proper document) (ho : Proper other) :
    document.write = other.write ↔ document = other := by
  refine ⟨fun heq => ?_, congrArg write⟩
  have hread := h.read?_write
  rw [heq, ho.read?_write] at hread
  exact (Option.some.inj hread).symm

end Json
end QueryDomain

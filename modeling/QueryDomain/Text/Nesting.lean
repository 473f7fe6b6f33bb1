import QueryDomain.Text.Basic

/-! Nesting of quotes, parentheses and square brackets. A text is cut at the commas that stand
outside of all of them, and the parts of a cut, joined by commas, give the text back. A text that is
one group from its first to its last character has an interior; for this only brackets of the
group's own kind are counted. -/
namespace QueryDomain

inductive Bracket
  | round
  | square
  deriving DecidableEq, Repr

namespace Bracket

def opening : Bracket → Char
  | round => '('
  | square => '['

def closing : Bracket → Char
  | round => ')'
  | square => ']'

def ofOpening? (c : Char) : Option Bracket :=
  if c = '(' then some round else if c = '[' then some square else none

def ofClosing? (c : Char) : Option Bracket :=
  if c = ')' then some round else if c = ']' then some square else none

@[simp] theorem ofOpening?_opening (b : Bracket) : ofOpening? b.opening = some b := by
  cases b <;> rfl

@[simp] theorem ofClosing?_closing (b : Bracket) : ofClosing? b.closing = some b := by
  cases b <;> rfl

end Bracket

/-- The way in which a text is not balanced. The offset of a stray closer counts the bytes of
UTF-8 before it. -/
inductive Imbalance
  | strayCloser (closer : Char) (offset : Nat)
  | openQuote (quote : Char)
  | openGroup (bracket : Bracket)
  deriving DecidableEq, Repr

/-- What is open at some place of a text: a quote, and the groups around it, innermost first. -/
structure Nesting where
  quote : Option Char
  groups : List Bracket
  deriving DecidableEq, Repr

/-- The quote that is open behind a character: inside a quote only the same quote counts. -/
def nextQuote : Option Char → Char → Option Char
  | some q, c => if c = q then none else some q
  | none, c => if Text.isQuote c then some c else none

namespace Nesting

def outermost : Nesting := ⟨none, []⟩

/-- The nesting behind one more character, unless this is a closer that does not match. -/
def step (n : Nesting) (c : Char) : Option Nesting :=
  if n.quote.isSome ∨ Text.isQuote c then
    some ⟨nextQuote n.quote c, n.groups⟩
  else
    match Bracket.ofOpening? c, Bracket.ofClosing? c, n.groups with
    | some b, _, groups => some ⟨none, b :: groups⟩
    | none, none, groups => some ⟨none, groups⟩
    | none, some b, top :: groups => if top = b then some ⟨none, groups⟩ else none
    | none, some _, [] => none

def atEnd (n : Nesting) : Except Imbalance Unit :=
  match n.quote, n.groups with
  | some q, _ => .error (.openQuote q)
  | none, b :: _ => .error (.openGroup b)
  | none, [] => .ok ()

end Nesting

namespace Text

section Cutting

/-- The part up to the next comma at the outermost level, and the parts behind it. -/
def cutFrom (n : Nesting) (offset : Nat) : Text → Except Imbalance (Text × List Text)
  | [] => n.atEnd.map fun _ => ([], [])
  | c :: cs =>
    if c = ',' ∧ n = Nesting.outermost then
      (cutFrom n (offset + c.utf8Size) cs).map fun p => ([], p.1 :: p.2)
    else
      match n.step c with
      | none => .error (.strayCloser c offset)
      | some m => (cutFrom m (offset + c.utf8Size) cs).map fun p => (c :: p.1, p.2)

def cut (cs : Text) : Except Imbalance (List Text) :=
  (cutFrom Nesting.outermost 0 cs).map fun p => p.1 :: p.2

def join : List Text → Text
  | [] => []
  | [cs] => cs
  | cs :: more => cs ++ ',' :: join more

/-- The first parts, as many as there are cuts, and all that follows as one last part. -/
def regroup : Nat → List Text → List Text
  | _, [] => []
  | 0, parts => [join parts]
  | cuts + 1, cs :: more => cs :: regroup cuts more

/-- At most `most` parts; the last one holds the rest of the text. -/
def cutAtMost (most : Nat) (cs : Text) : Except Imbalance (List Text) :=
  (cut cs).map (regroup (most - 1))

@[simp] theorem join_cons_cons (cs ds : Text) (more : List Text) :
    join (cs :: ds :: more) = cs ++ ',' :: join (ds :: more) := rfl

theorem join_cons (cs : Text) {more : List Text} (h : more ≠ []) :
    join (cs :: more) = cs ++ ',' :: join more := by
  cases more with
  | nil => contradiction
  | cons ds more => rfl

theorem regroup_ne_nil {cuts : Nat} {parts : List Text} (h : parts ≠ []) :
    regroup cuts parts ≠ [] := by
  cases parts with
  | nil => contradiction
  | cons cs more => cases cuts <;> simp [regroup]

@[simp] theorem join_regroup (cuts : Nat) (parts : List Text) :
    join (regroup cuts parts) = join parts := by
  induction parts generalizing cuts with
  | nil => cases cuts <;> rfl
  | cons cs more ih =>
    cases cuts with
    | zero => rfl
    | succ cuts =>
      cases more with
      | nil => cases cuts <;> rfl
      | cons ds more =>
        rw [regroup, join_cons cs (regroup_ne_nil (by simp)), ih, join_cons_cons]

theorem join_cutFrom {n : Nesting} {offset : Nat} {cs : Text} {p : Text × List Text}
    (h : cutFrom n offset cs = .ok p) : join (p.1 :: p.2) = cs := by
  induction cs generalizing n offset p with
  | nil =>
    rw [cutFrom] at h
    cases hn : n.atEnd <;> rw [hn] at h <;> cases h
    rfl
  | cons c cs ih =>
    rw [cutFrom] at h
    split at h
    · rename_i hc
      cases hr : cutFrom n (offset + c.utf8Size) cs <;> rw [hr] at h <;> cases h
      simp [ih hr, hc.1]
    · split at h
      · cases h
      · rename_i m _
        cases hr : cutFrom m (offset + c.utf8Size) cs with
        | error e => rw [hr] at h; cases h
        | ok r =>
          rw [hr] at h
          cases h
          obtain ⟨first, more⟩ := r
          have hj := ih hr
          cases more <;> simp_all [join]

theorem join_cut {cs : Text} {parts : List Text} (h : cut cs = .ok parts) :
    join parts = cs := by
  rw [cut] at h
  cases hr : cutFrom Nesting.outermost 0 cs with
  | error e => rw [hr] at h; cases h
  | ok p => rw [hr] at h; cases h; exact join_cutFrom hr

theorem join_cutAtMost {most : Nat} {cs : Text} {parts : List Text}
    (h : cutAtMost most cs = .ok parts) : join parts = cs := by
  rw [cutAtMost] at h
  cases hr : cut cs with
  | error e => rw [hr] at h; cases h
  | ok all => rw [hr] at h; cases h; rw [join_regroup, join_cut hr]

def weight : List Text → Nat
  | [] => 0
  | cs :: more => cs.length + 1 + weight more

theorem weight_of_ne_nil {parts : List Text} (h : parts ≠ []) :
    weight parts = (join parts).length + 1 := by
  induction parts with
  | nil => contradiction
  | cons cs more ih =>
    cases more with
    | nil => simp [weight, join]
    | cons ds more =>
      rw [weight, ih (by simp), join_cons_cons]
      simp only [List.length_append, List.length_cons]
      omega

theorem weight_le (parts : List Text) : weight parts ≤ (join parts).length + 1 := by
  cases parts with
  | nil => exact Nat.zero_le _
  | cons cs more => exact Nat.le_of_eq (weight_of_ne_nil (by simp))

theorem weight_cut {cs : Text} {parts : List Text} (h : cut cs = .ok parts) :
    weight parts ≤ cs.length + 1 := join_cut h ▸ weight_le parts

theorem weight_cutAtMost {most : Nat} {cs : Text} {parts : List Text}
    (h : cutAtMost most cs = .ok parts) : weight parts ≤ cs.length + 1 :=
  join_cutAtMost h ▸ weight_le parts

end Cutting

section Balance

def isPlain (c : Char) : Prop :=
  ¬ isQuote c ∧ Bracket.ofOpening? c = none ∧ Bracket.ofClosing? c = none

instance (c : Char) : Decidable (isPlain c) := inferInstanceAs (Decidable (_ ∧ _))

inductive Balanced : Text → Prop
  | nil : Balanced []
  | plain {c : Char} {cs : Text} : isPlain c → Balanced cs → Balanced (c :: cs)
  | quotation {q : Char} {body cs : Text} :
    isQuote q → q ∉ body → Balanced cs → Balanced (q :: body ++ q :: cs)
  | group (b : Bracket) {inner cs : Text} :
    Balanced inner → Balanced cs → Balanced (b.opening :: inner ++ b.closing :: cs)

namespace Balanced

theorem append {cs ds : Text} (h : Balanced cs) (hd : Balanced ds) : Balanced (cs ++ ds) := by
  induction h with
  | nil => exact hd
  | plain hc _ ih => exact .plain hc ih
  | quotation hq hb _ ih =>
    rw [List.append_assoc, List.cons_append]
    exact .quotation hq hb ih
  | group b hi _ _ ih =>
    rw [List.append_assoc, List.cons_append]
    exact .group b hi ih

end Balanced

end Balance

section Groups

/-- The text up to the closer of a group that has been opened, if the text ends with it. The
number counts the groups of this kind that are still open inside. -/
def closeGroup (b : Bracket) (quote : Option Char) (inside : Nat) : Text → Option Text
  | [] => none
  | c :: cs =>
    if quote.isSome ∨ isQuote c then
      (closeGroup b (nextQuote quote c) inside cs).map (c :: ·)
    else if c = b.opening then
      (closeGroup b none (inside + 1) cs).map (c :: ·)
    else if c = b.closing then
      match inside with
      | 0 => if cs = [] then some [] else none
      | inside + 1 => (closeGroup b none inside cs).map (c :: ·)
    else
      (closeGroup b none inside cs).map (c :: ·)

/-- The interior of a text whose first character opens a group that its last one closes. -/
def interior? (b : Bracket) : Text → Option Text
  | [] => none
  | c :: cs => if c = b.opening then closeGroup b none 0 cs else none

theorem eq_of_closeGroup {b : Bracket} {quote : Option Char} {inside : Nat} {cs body : Text}
    (h : closeGroup b quote inside cs = some body) : cs = body ++ [b.closing] := by
  induction cs generalizing quote inside body with
  | nil => simp [closeGroup] at h
  | cons c cs ih =>
    unfold closeGroup at h
    split at h
    · obtain ⟨r, hr, rfl⟩ := Option.map_eq_some_iff.mp h
      rw [ih hr, List.cons_append]
    · split at h
      · obtain ⟨r, hr, rfl⟩ := Option.map_eq_some_iff.mp h
        rw [ih hr, List.cons_append]
      · split at h
        · rename_i hc
          split at h
          · split at h
            · rename_i hcs
              cases h
              rw [hcs, hc, List.nil_append]
            · cases h
          · obtain ⟨r, hr, rfl⟩ := Option.map_eq_some_iff.mp h
            rw [ih hr, List.cons_append]
        · obtain ⟨r, hr, rfl⟩ := Option.map_eq_some_iff.mp h
          rw [ih hr, List.cons_append]

theorem eq_of_interior? {b : Bracket} {cs body : Text} (h : interior? b cs = some body) :
    cs = b.opening :: body ++ [b.closing] := by
  cases cs with
  | nil => simp [interior?] at h
  | cons c cs =>
    simp only [interior?, Option.ite_none_right_eq_some] at h
    rw [h.1, List.cons_append, eq_of_closeGroup h.2]

theorem length_interior? {b : Bracket} {cs body : Text} (h : interior? b cs = some body) :
    body.length + 2 = cs.length := by
  simp [eq_of_interior? h]

end Groups

end Text
end QueryDomain

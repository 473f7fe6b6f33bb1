import QueryDomain.Fault
import QueryDomain.Proofs.Text.Trimming

/-! The scanner passes over a balanced text and is then where it was before. So parts that are
balanced and have no comma outside of their groups are cut apart where they were joined, and the
interior of a group around a balanced text is this text. -/
namespace QueryDomain

namespace Nesting

theorem step_isQuote {q : Char} (h : Text.isQuote q) (groups : List Bracket) :
    step ⟨none, groups⟩ q = some ⟨some q, groups⟩ := by
  simp [step, nextQuote, h]

theorem step_inside {q c : Char} (h : c ≠ q) (groups : List Bracket) :
    step ⟨some q, groups⟩ c = some ⟨some q, groups⟩ := by
  simp [step, nextQuote, h]

theorem step_unquote (q : Char) (groups : List Bracket) :
    step ⟨some q, groups⟩ q = some ⟨none, groups⟩ := by
  simp [step, nextQuote]

theorem step_isPlain {c : Char} (h : Text.isPlain c) (groups : List Bracket) :
    step ⟨none, groups⟩ c = some ⟨none, groups⟩ := by
  obtain ⟨hq, ho, hc⟩ := h
  simp [step, hq, ho, hc]

theorem step_opening (b : Bracket) (groups : List Bracket) :
    step ⟨none, groups⟩ b.opening = some ⟨none, b :: groups⟩ := by
  cases b <;> rfl

theorem step_closing (b : Bracket) (groups : List Bracket) :
    step ⟨none, b :: groups⟩ b.closing = some ⟨none, groups⟩ := by
  cases b <;> rfl

theorem step_outermost_closing (b : Bracket) : step outermost b.closing = none := by
  cases b <;> rfl

theorem eq_outermost_of_atEnd {n : Nesting} {u : Unit} (h : n.atEnd = .ok u) : n = outermost := by
  obtain ⟨quote, groups⟩ := n
  cases quote <;> cases groups <;> simp_all [atEnd, outermost]

end Nesting

namespace Text

open Nesting

/-- The number of bytes in UTF-8. -/
def size : Text → Nat
  | [] => 0
  | c :: cs => c.utf8Size + size cs

@[simp] theorem size_append (cs ds : Text) : size (cs ++ ds) = size cs + size ds := by
  induction cs with
  | nil => simp [size]
  | cons c cs ih =>
    rw [List.cons_append, size, size, ih, Nat.add_assoc]

def prepend (cs : Text) (p : Text × List Text) : Text × List Text := (cs ++ p.1, p.2)

/-- The scanner gets from one nesting to another over a text without a cut in it. -/
def Passes (n : Nesting) (cs : Text) (m : Nesting) : Prop :=
  ∀ offset ds, cutFrom n offset (cs ++ ds) = (cutFrom m (offset + size cs) ds).map (prepend cs)

namespace Passes

theorem nil (n : Nesting) : Passes n [] n := by
  intro offset ds
  have hid : prepend [] = id := rfl
  cases h : cutFrom n offset ds <;> simp [size, h, hid, Except.map]

theorem append {n m k : Nesting} {cs ds : Text} (h : Passes n cs m) (hd : Passes m ds k) :
    Passes n (cs ++ ds) k := by
  intro offset es
  have hs : offset + size (cs ++ ds) = offset + size cs + size ds := by
    rw [size_append, Nat.add_assoc]
  rw [List.append_assoc, h, hd, hs]
  cases cutFrom k (offset + size cs + size ds) es <;> simp [Except.map, prepend]

theorem single {n m : Nesting} {c : Char} (hc : c = ',' → n ≠ outermost)
    (hs : n.step c = some m) : Passes n [c] m := by
  intro offset ds
  rw [List.singleton_append, cutFrom, if_neg fun h => hc h.1 h.2, hs]
  rfl

theorem cons {n m k : Nesting} {c : Char} {cs : Text} (hc : c = ',' → n ≠ outermost)
    (hs : n.step c = some m) (h : Passes m cs k) : Passes n (c :: cs) k :=
  (single hc hs).append h

theorem quotation {q : Char} {body : Text} (hq : isQuote q) (hb : q ∉ body)
    (groups : List Bracket) : Passes ⟨none, groups⟩ (q :: body ++ [q]) ⟨none, groups⟩ := by
  have hopen : q = ',' → (⟨none, groups⟩ : Nesting) ≠ outermost := by
    rintro rfl
    exact absurd hq (by decide)
  have hinside : (⟨some q, groups⟩ : Nesting) ≠ outermost := by simp [outermost]
  refine cons hopen (step_isQuote hq groups) ?_
  induction body with
  | nil => exact single (fun _ => hinside) (step_unquote q groups)
  | cons c body ih =>
    have hc : c ≠ q := fun h => hb (by simp [h])
    exact cons (fun _ => hinside) (step_inside hc groups) (ih fun h => hb (by simp [h]))

/-- Inside of a group a balanced text is passed over, commas and all. -/
theorem of_balanced {cs : Text} (h : Balanced cs) {groups : List Bracket} (hg : groups ≠ []) :
    Passes ⟨none, groups⟩ cs ⟨none, groups⟩ := by
  have hin : ∀ groups : List Bracket, groups ≠ [] → (⟨none, groups⟩ : Nesting) ≠ outermost := by
    intro groups hg h
    exact hg (Nesting.mk.inj h).2
  induction h generalizing groups with
  | nil => exact nil _
  | plain hc _ ih => exact cons (fun _ => hin _ hg) (step_isPlain hc groups) (ih hg)
  | @quotation q body cs hq hb _ ih =>
    have h := (Passes.quotation hq hb groups).append (ih hg)
    rwa [List.append_assoc, List.singleton_append] at h
  | @group b inner cs _ _ ihi ih =>
    have hopen := single (fun _ => hin _ hg) (step_opening b groups)
    have hclose := single (fun _ => hin (b :: groups) (by simp)) (step_closing b groups)
    have h := (hopen.append (ihi (by simp))).append (hclose.append (ih hg))
    simpa using h

end Passes

/-- A balanced text without a comma outside of its quotations and groups. -/
inductive Uncut : Text → Prop
  | nil : Uncut []
  | plain {c : Char} {cs : Text} : isPlain c → c ≠ ',' → Uncut cs → Uncut (c :: cs)
  | quotation {q : Char} {body cs : Text} :
    isQuote q → q ∉ body → Uncut cs → Uncut (q :: body ++ q :: cs)
  | group (b : Bracket) {inner cs : Text} :
    Balanced inner → Uncut cs → Uncut (b.opening :: inner ++ b.closing :: cs)

namespace Uncut

theorem balanced {cs : Text} (h : Uncut cs) : Balanced cs := by
  induction h with
  | nil => exact .nil
  | plain hc _ _ ih => exact .plain hc ih
  | quotation hq hb _ ih => exact .quotation hq hb ih
  | group b hi _ ih => exact .group b hi ih

theorem append {cs ds : Text} (h : Uncut cs) (hd : Uncut ds) : Uncut (cs ++ ds) := by
  induction h with
  | nil => exact hd
  | plain hc hn _ ih => exact .plain hc hn ih
  | quotation hq hb _ ih =>
    rw [List.append_assoc, List.cons_append]
    exact .quotation hq hb ih
  | group b hi _ ih =>
    rw [List.append_assoc, List.cons_append]
    exact .group b hi ih

theorem passes {cs : Text} (h : Uncut cs) : Passes outermost cs outermost := by
  induction h with
  | nil => exact .nil _
  | plain hc hn _ ih => exact .cons (fun h => absurd h hn) (step_isPlain hc []) ih
  | @quotation q body cs hq hb _ ih =>
    have h := (Passes.quotation hq hb []).append ih
    rwa [List.append_assoc, List.singleton_append] at h
  | @group b inner cs hi _ ih =>
    have hcomma : b.opening = ',' → outermost ≠ outermost := by cases b <;> simp [Bracket.opening]
    have hopen := Passes.single hcomma (step_opening b [])
    have hclose := Passes.single (fun _ => by simp [outermost]) (step_closing b [])
    have h := (hopen.append (.of_balanced hi (by simp))).append (hclose.append ih)
    simpa using h

end Uncut

theorem cutFrom_join {part : Text} {more : List Text} (hp : Uncut part)
    (hm : ∀ part ∈ more, Uncut part) (offset : Nat) :
    cutFrom outermost offset (join (part :: more)) = .ok (part, more) := by
  induction more generalizing part offset with
  | nil =>
    have h := hp.passes offset []
    rw [List.append_nil] at h
    rw [join, h]
    simp [cutFrom, atEnd, outermost, Except.map, prepend]
  | cons next more ih =>
    have hn : Uncut next := hm next (by simp)
    rw [join_cons_cons, hp.passes, cutFrom, if_pos ⟨rfl, rfl⟩,
      ih hn fun part h => hm part (by simp [h])]
    simp [Except.map, prepend]

/-- What was joined is cut apart again. -/
theorem cut_join {parts : List Text} (h : ∀ part ∈ parts, Uncut part) (hne : parts ≠ []) :
    cut (join parts) = .ok parts := by
  cases parts with
  | nil => contradiction
  | cons part more =>
    have hm : ∀ part ∈ more, Uncut part := fun part hp => h part (by simp [hp])
    rw [cut, cutFrom_join (h part (by simp)) hm]
    rfl

theorem Balanced.join {parts : List Text} (h : ∀ part ∈ parts, Balanced part) :
    Balanced (join parts) := by
  induction parts with
  | nil => exact .nil
  | cons part more ih =>
    have hp : Balanced part := h part (by simp)
    have hm : Balanced (Text.join more) := ih fun part hp => h part (by simp [hp])
    cases more with
    | nil => exact hp
    | cons next more =>
      rw [join_cons_cons]
      exact hp.append (.plain (by decide) hm)

/-- Behind a text that can be cut nothing is open, so a closer there is stray. -/
theorem cutFrom_append_closing {n : Nesting} {offset : Nat} {cs : Text} {p : Text × List Text}
    (h : cutFrom n offset cs = .ok p) (b : Bracket) (ds : Text) :
    ∃ cause, cutFrom n offset (cs ++ b.closing :: ds) = .error cause := by
  induction cs generalizing n offset p with
  | nil =>
    rw [cutFrom] at h
    cases hn : n.atEnd with
    | error cause => rw [hn] at h; cases h
    | ok u =>
      have hcomma : b.closing ≠ ',' := by cases b <;> decide
      rw [List.nil_append, cutFrom, if_neg fun h => hcomma h.1, eq_outermost_of_atEnd hn,
        step_outermost_closing]
      exact ⟨_, rfl⟩
  | cons c cs ih =>
    rw [cutFrom] at h
    rw [List.cons_append, cutFrom]
    split
    · rename_i hc
      rw [if_pos hc] at h
      obtain ⟨q, hq, -⟩ := Outcome.map_eq_ok_iff.mp h
      obtain ⟨cause, he⟩ := ih hq
      exact ⟨cause, by rw [he]; rfl⟩
    · rename_i hc
      rw [if_neg hc] at h
      cases hs : n.step c with
      | none => exact ⟨_, rfl⟩
      | some m =>
        rw [hs] at h
        obtain ⟨q, hq, -⟩ := Outcome.map_eq_ok_iff.mp h
        obtain ⟨cause, he⟩ := ih hq
        exact ⟨cause, by simp [he, Except.map]⟩

section Interior

variable {b : Bracket} {offset : Nat} {cs ds inner : Text} {p : Text × List Text}

/-- If an interior starts like a text that begins with an uncut one, it has all of the latter. -/
theorem cutFrom_uncut (hcs : Uncut cs) (h : cutFrom outermost offset inner = .ok p)
    (hp : inner ++ [b.closing] <+: cs ++ ds) :
    ∃ rest q, inner = cs ++ rest ∧ cutFrom outermost (offset + size cs) rest = .ok q ∧
      p = prepend cs q ∧ rest ++ [b.closing] <+: ds := by
  have hstart : cs <+: inner := by
    rcases List.prefix_or_prefix_of_prefix hp (List.prefix_append cs ds) with hle | hle
    · -- the closer would stand inside of the uncut text, where nothing is open
      obtain ⟨rest, hrest⟩ := hle
      obtain ⟨cause, he⟩ := cutFrom_append_closing h b rest
      have hok := @cutFrom_join cs [] hcs (by simp) offset
      rw [join, ← hrest, List.append_assoc, List.singleton_append, he] at hok
      cases hok
    · rcases List.prefix_concat_iff.mp hle with heq | hle
      · obtain ⟨cause, he⟩ := cutFrom_append_closing h b []
        have hok := @cutFrom_join cs [] hcs (by simp) offset
        rw [join, heq, he] at hok
        cases hok
      · exact hle
  obtain ⟨rest, rfl⟩ := hstart
  rw [hcs.passes] at h
  obtain ⟨q, hq, hpq⟩ := Outcome.map_eq_ok_iff.mp h
  refine ⟨rest, q, rfl, hq, hpq.symm, ?_⟩
  rwa [List.append_assoc, List.prefix_append_right_inj] at hp

theorem cutFrom_next (hcs : Uncut cs) (h : cutFrom outermost offset inner = .ok p)
    (hp : inner ++ [b.closing] <+: cs ++ ',' :: ds) :
    ∃ rest offset' q, inner = cs ++ ',' :: rest ∧ cutFrom outermost offset' rest = .ok q ∧
      p = (cs, q.1 :: q.2) ∧ rest ++ [b.closing] <+: ds := by
  obtain ⟨rest, q, rfl, hq, rfl, hrest⟩ := cutFrom_uncut hcs h hp
  cases rest with
  | nil =>
    rw [List.nil_append, List.cons_prefix_cons] at hrest
    exact absurd hrest.1 (by cases b <;> decide)
  | cons c rest =>
    rw [List.cons_append, List.cons_prefix_cons] at hrest
    obtain ⟨rfl, hrest⟩ := hrest
    rw [cutFrom, if_pos ⟨rfl, rfl⟩] at hq
    obtain ⟨r, hr, rfl⟩ := Outcome.map_eq_ok_iff.mp hq
    exact ⟨rest, _, r, rfl, hr, by simp [prepend], hrest⟩

end Interior

end Text
end QueryDomain

import QueryDomain.Proofs.Chains
import QueryDomain.Proofs.Reading
import QueryDomain.Proofs.Text.Splitting

/-! Two domains in one pair of brackets. The members of both are cut apart, read and checked as they
are in two pairs, so nothing that is open in the first text reaches into the second, and no operator
of the first domain takes an operand of the second. -/
namespace QueryDomain

open Text

section Members

variable {limit depth : Nat} {cores parts others : List Text} {domain other : Domain}

theorem Trailing.eq_of_join (h : Trailing cores parts) (hparts : ∀ part ∈ parts, Balanced part)
    (hblank : ¬ Blank (join parts))
    (hlast : ∀ start last, join parts = start ++ ',' :: last → Balanced start → ¬ Blank last) :
    parts = cores := by
  rcases h with rfl | ⟨blank, hb, rfl⟩
  · rfl
  · by_cases hne : cores = []
    · subst hne
      exact absurd hb hblank
    · have hcores : Balanced (join cores) := .join fun part hp => hparts part (by simp [hp])
      have hjoin : join (cores ++ [blank]) = join cores ++ ',' :: blank :=
        join_append hne (by simp)
      exact absurd hb (hlast _ _ hjoin hcores)

theorem Trailing.append (h : Trailing cores parts) (before : List Text) :
    Trailing (before ++ cores) (before ++ parts) := by
  induction before with
  | nil => exact h
  | cons part before ih => exact ih.cons part

theorem ReadsNodes.append
    (h : List.Forall₂ (fun part n => trim part ≠ [] ∧ readNode limit depth (trim part) = .ok n)
      parts domain) (ho : ReadsNodes limit depth others other) :
    ReadsNodes limit depth (parts ++ others) (domain ++ other) := by
  obtain ⟨cores, htrailing, hcores⟩ := ho
  exact ⟨parts ++ cores, htrailing.append parts, List.rel_append h hcores⟩

end Members

namespace Domain

/-- What is read in brackets depends on the parts between them. -/
theorem read_bracketed_eq_ok_iff {limit : Nat} {text : String} {domain : Domain} :
    Domain.read limit ("[" ++ text ++ "]") = .ok domain ↔
      0 < limit ∧ ∃ parts, cut text.toList = .ok parts ∧ ReadsNodes limit 1 parts domain ∧
        domain.check = .ok () := by
  have hchars : ("[" ++ text ++ "]").toList = '[' :: text.toList ++ [']'] := by simp
  have htrim : trim ("[" ++ text ++ "]").toList = '[' :: text.toList ++ [']'] := by
    rw [hchars]
    exact trim_between (by decide) (by decide) _
  rw [read_eq_ok_iff, htrim]
  constructor
  · rintro (⟨hnil, -⟩ | ⟨-, hlimit, inner, parts, hinner, hcut, hnodes, hcheck⟩)
    · cases hnil
    · have hgroup : '[' :: text.toList ++ [']'] = '[' :: inner ++ [']'] := eq_of_interior? hinner
      have hsame : text.toList = inner := by simpa using hgroup
      exact ⟨hlimit, parts, by rw [hsame, hcut], hnodes, hcheck⟩
  · rintro ⟨hlimit, parts, hcut, hnodes, hcheck⟩
    have hbalanced : Balanced text.toList := exists_cut_iff.mp ⟨parts, hcut⟩
    have hinner := interior?_group .square hbalanced
    exact .inr ⟨by simp, hlimit, text.toList, parts, hinner, hcut, hnodes, hcheck⟩

/-- The members of two texts that are read in brackets are read in one pair of brackets with a comma
between the texts, if the first text has members and no comma of its own at its end. -/
theorem read_joined {limit : Nat} {first second : String} {domain other : Domain}
    (hfirst : Domain.read limit ("[" ++ first ++ "]") = .ok domain)
    (hsecond : Domain.read limit ("[" ++ second ++ "]") = .ok other)
    (hblank : ¬ Blank first.toList)
    (hlast : ∀ start last, first.toList = start ++ ',' :: last → Balanced start → ¬ Blank last) :
    Domain.read limit ("[" ++ first ++ "," ++ second ++ "]") = .ok (domain ++ other) := by
  obtain ⟨hlimit, parts, hcut, ⟨cores, htrailing, hcores⟩, hcheck⟩ :=
    read_bracketed_eq_ok_iff.mp hfirst
  obtain ⟨-, others, hcut', hothers, hcheck'⟩ := read_bracketed_eq_ok_iff.mp hsecond
  have hjoin : join parts = first.toList := join_cut hcut
  have hbalanced : ∀ part ∈ parts, Balanced part := fun part hp =>
    ((parts_of_cut hcut).2 part hp).1
  have hmembers : parts = cores := by
    apply htrailing.eq_of_join hbalanced
    · rwa [hjoin]
    · rwa [hjoin]
  have hcuts : cut (first ++ "," ++ second).toList = .ok (parts ++ others) := by
    have happend := cut_append hcut hcut'
    simpa using happend
  have hnodes : ReadsNodes limit 1 (parts ++ others) (domain ++ other) := by
    rw [hmembers]
    exact hothers.append hcores
  have htext : "[" ++ first ++ "," ++ second ++ "]" = "[" ++ (first ++ "," ++ second) ++ "]" := by
    simp only [String.append_assoc]
  rw [htext]
  exact read_bracketed_eq_ok_iff.mpr
    ⟨hlimit, parts ++ others, hcuts, hnodes, check_append hcheck hcheck'⟩

/-- The second text ends with a comma, and neither text is written as domains are written out. -/
theorem read_joined_trailing :
    Domain.read 2 ("[" ++ "'!',( a ,in,[1,x])" ++ "]") =
        .ok [.operator .not, .condition ⟨"a", .isIn, .list [.integer 1, .text "x"]⟩] ∧
      Domain.read 2 ("[" ++ " (b,=,2), " ++ "]") = .ok [.condition ⟨"b", .equal, .integer 2⟩] ∧
      Domain.read 2 ("[" ++ "'!',( a ,in,[1,x])" ++ "," ++ " (b,=,2), " ++ "]") =
        .ok [.operator .not, .condition ⟨"a", .isIn, .list [.integer 1, .text "x"]⟩,
          .condition ⟨"b", .equal, .integer 2⟩] := by
  have hfirst : Domain.read 2 ("[" ++ "'!',( a ,in,[1,x])" ++ "]") =
      .ok [.operator .not, .condition ⟨"a", .isIn, .list [.integer 1, .text "x"]⟩] := by
    with_unfolding_all rfl
  have hsecond : Domain.read 2 ("[" ++ " (b,=,2), " ++ "]") =
      .ok [.condition ⟨"b", .equal, .integer 2⟩] := by with_unfolding_all rfl
  refine ⟨hfirst, hsecond, read_joined hfirst hsecond (by decide) ?_⟩
  -- the text ends with a parenthesis, which is neither a comma nor a blank
  intro start last heq _ hb
  have hend : (start ++ ',' :: last).getLast? = some ')' := by
    rw [← heq]
    decide
  rw [List.getLast?_append_cons] at hend
  rcases List.mem_cons.mp (List.mem_of_getLast? hend) with hcomma | hmem
  · cases hcomma
  · exact absurd (hb ')' hmem) (by decide)

end Domain
end QueryDomain

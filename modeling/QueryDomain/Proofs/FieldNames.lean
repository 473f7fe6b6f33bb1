import QueryDomain.FieldList
import QueryDomain.Proofs.Text.Trimming

/-! Lists of field names, however they are laid out. A comma between two lists puts one behind the
other, and from this it follows that a list is found again from every layout: blanks around its
names do not matter, nor do entries of nothing but blanks. -/
namespace QueryDomain
namespace FieldList

open Text

structure IsName (name : String) : Prop where
  ne_empty : name ≠ ""
  trim_eq : trim name.toList = name.toList
  no_comma : ',' ∉ name.toList

/-- Entries that have the names in them, in order and with blanks around them, and between these any
entries of nothing but blanks. -/
inductive LaidOut : List String → List String → Prop
  | nil : LaidOut [] []
  | name {name entry : String} {names entries : List String} : IsName name →
    Padded name.toList entry.toList → LaidOut names entries →
    LaidOut (name :: names) (entry :: entries)
  | blank {entry : String} {names entries : List String} : Blank entry.toList →
    LaidOut names entries → LaidOut names (entry :: entries)

section Reading

theorem names_append (cs ds : Text) : names (cs ++ ',' :: ds) = names cs ++ names ds := by
  rw [names, List.splitOnP_append_cons cs ds (by simp), List.map_append, List.filter_append]
  rfl

theorem names_of_no_comma {cs : Text} (h : ',' ∉ cs) :
    names cs = if Blank cs then [] else [trim cs] := by
  have hsingle : cs.splitOnP (· = ',') = [cs] := by
    refine List.splitOnP_eq_singleton fun c hc => decide_eq_false ?_
    exact ne_of_mem_of_not_mem hc h
  rw [names, hsingle, List.map_singleton]
  split
  · rename_i hb
    simp [trim_eq_nil_iff.mpr hb]
  · rename_i hb
    simp [trim_eq_nil_iff, hb]

theorem read_append (first second : String) :
    read (first ++ "," ++ second) = read first ++ read second := by
  have hcomma : (first ++ "," ++ second).toList = first.toList ++ ',' :: second.toList := by simp
  rw [read, hcomma, names_append, List.map_append]
  rfl

theorem read_intercalate_cons (entry : String) (entries : List String) :
    read (",".intercalate (entry :: entries)) =
      read entry ++ read (",".intercalate entries) := by
  cases entries with
  | nil =>
    have hempty : read "" = [] := rfl
    rw [String.intercalate_singleton, String.intercalate_nil, hempty, List.append_nil]
  | cons next entries => rw [String.intercalate_cons_cons, read_append]

theorem comma_notMem_of_blank {cs : Text} (h : Blank cs) : ',' ∉ cs := by
  intro hm
  exact absurd (h ',' hm) (by decide)

theorem read_blank {entry : String} (h : Blank entry.toList) : read entry = [] := by
  rw [read, names_of_no_comma (comma_notMem_of_blank h), if_pos h]
  rfl

theorem IsName.read_padded {name entry : String} (h : IsName name)
    (hp : Padded name.toList entry.toList) : read entry = [name] := by
  have htrim : trim entry.toList = name.toList := hp.trim_eq.trans h.trim_eq
  have hfull : ¬ Blank entry.toList := by
    rw [← trim_eq_nil_iff, htrim, String.toList_eq_nil_iff]
    exact h.ne_empty
  have hcomma : ',' ∉ entry.toList := by
    obtain ⟨before, after, hb, ha, heq⟩ := hp
    simp [heq, comma_notMem_of_blank hb, comma_notMem_of_blank ha, h.no_comma]
  rw [read, names_of_no_comma hcomma, if_neg hfull, htrim, List.map_singleton, String.ofList_toList]

end Reading

namespace LaidOut

variable {names entries : List String}

theorem isName (h : LaidOut names entries) : ∀ name ∈ names, IsName name := by
  induction h with
  | nil => simp
  | name hn _ _ ih => simpa [hn] using ih
  | blank _ _ ih => exact ih

theorem read_eq (h : LaidOut names entries) : read (",".intercalate entries) = names := by
  induction h with
  | nil => rfl
  | name hn hp _ ih => rw [read_intercalate_cons, hn.read_padded hp, ih, List.singleton_append]
  | blank hb _ ih => rw [read_intercalate_cons, read_blank hb, ih, List.nil_append]

theorem append {more others : List String} (h : LaidOut names entries) (ho : LaidOut more others) :
    LaidOut (names ++ more) (entries ++ others) := by
  induction h with
  | nil => exact ho
  | name hn hp _ ih => exact .name hn hp ih
  | blank hb _ ih => exact .blank hb ih

theorem spaced (h : ∀ name ∈ names, IsName name) : LaidOut names (names.map (" " ++ ·)) := by
  induction names with
  | nil => exact .nil
  | cons name names ih =>
    obtain ⟨hn, hnames⟩ := List.forall_mem_cons.mp h
    have hp : Padded name.toList (" " ++ name).toList := ⟨[' '], [], blank_space, blank_nil, by simp⟩
    exact .name hn hp (ih hnames)

end LaidOut

theorem laidOut_singleton {cs : Text} (h : ',' ∉ cs) :
    LaidOut (read (String.ofList cs)) [String.ofList cs] := by
  rw [read, String.toList_ofList, names_of_no_comma h]
  split
  · rename_i hb
    exact .blank (by simpa using hb) .nil
  · rename_i hb
    have hn : IsName (String.ofList (trim cs)) := by
      refine ⟨?_, by simp, fun hm => h (mem_of_mem_trim (by simpa using hm))⟩
      simpa [trim_eq_nil_iff] using hb
    exact .name hn (by simpa using padded_trim cs) .nil

/-- Every text is a layout of the names that are read from it. -/
theorem exists_laidOut (cs : Text) : ∃ entry entries,
    LaidOut (read (String.ofList cs)) (entry :: entries) ∧
      String.ofList cs = ",".intercalate (entry :: entries) := by
  induction hlen : cs.length using Nat.strong_induction_on generalizing cs with
  | _ n ih =>
    by_cases hm : ',' ∈ cs
    · -- what stands before the first comma is one entry
      obtain ⟨before, after, rfl, hb⟩ := List.eq_append_cons_of_mem hm
      obtain ⟨entry, entries, hl, heq⟩ := ih after.length (by simp [← hlen]; omega) after rfl
      have htext : String.ofList (before ++ ',' :: after) =
          String.ofList before ++ "," ++ String.ofList after := by
        rw [← String.toList_inj]
        simp
      refine ⟨String.ofList before, entry :: entries, ?_, ?_⟩
      · rw [htext, read_append]
        exact (laidOut_singleton hb).append hl
      · rw [htext, String.intercalate_cons_cons, ← heq]
    · exact ⟨String.ofList cs, [], laidOut_singleton hm, String.intercalate_singleton.symm⟩

theorem intercalate_spaced (name : String) (names : List String) :
    ", ".intercalate (name :: names) = ",".intercalate (name :: names.map (" " ++ ·)) := by
  induction names generalizing name with
  | nil => rfl
  | cons next names ih =>
    have hspace : ",".intercalate ((" " ++ next) :: names.map (" " ++ ·)) =
        " " ++ ",".intercalate (next :: names.map (" " ++ ·)) := String.intercalate_cons_append
    have hcomma : ", " = "," ++ " " := rfl
    rw [List.map_cons, String.intercalate_cons_cons, String.intercalate_cons_cons, hspace, ih, hcomma]
    simp only [String.append_assoc]

/-- A comma between two lists puts one behind the other. The names of a list are just those that it
is a layout of, so they are found again if they are written one behind the other. -/
theorem read_layout :
    (∀ first second : String, read (first ++ "," ++ second) = read first ++ read second) ∧
      (∀ text, ∀ name ∈ read text, IsName name) ∧
      (∀ text names, read text = names ↔
        ∃ entries, LaidOut names entries ∧ text = ",".intercalate entries) ∧
      ∀ text, read (", ".intercalate (read text)) = read text := by
  have hlaid : ∀ text, ∃ entries, LaidOut (read text) entries ∧ text = ",".intercalate entries := by
    intro text
    obtain ⟨entry, entries, hl, heq⟩ := exists_laidOut text.toList
    rw [String.ofList_toList] at hl heq
    exact ⟨_, hl, heq⟩
  have hname : ∀ text, ∀ name ∈ read text, IsName name := by
    intro text
    obtain ⟨entries, hl, -⟩ := hlaid text
    exact hl.isName
  refine ⟨read_append, hname, ?_, ?_⟩
  · intro text names
    constructor
    · rintro rfl
      exact hlaid text
    · rintro ⟨entries, hl, rfl⟩
      exact hl.read_eq
  · intro text
    have hnames := hname text
    generalize read text = names at hnames
    cases names with
    | nil => rfl
    | cons name names =>
      obtain ⟨hn, hmore⟩ := List.forall_mem_cons.mp hnames
      rw [intercalate_spaced]
      exact (LaidOut.name hn (Padded.refl _) (.spaced hmore)).read_eq

/-- The blanks inside of a name are kept. -/
theorem read_layout_spaced :
    LaidOut ["name", "partner id"] ["", " name", " \t", "partner id\u2003"] ∧
      read ", name, \t,partner id\u2003" = ["name", "partner id"] := by
  have hfirst : IsName "name" := ⟨by decide, by decide, by decide⟩
  have hsecond : IsName "partner id" := ⟨by decide, by decide, by decide⟩
  have hlaid : LaidOut ["name", "partner id"] ["", " name", " \t", "partner id\u2003"] := by
    refine .blank (by decide) (.name hfirst ⟨[' '], [], by decide, by decide, rfl⟩ ?_)
    exact .blank (by decide) (.name hsecond ⟨[], ['\u2003'], by decide, by decide, rfl⟩ .nil)
  obtain ⟨-, -, hread, -⟩ := read_layout
  exact ⟨hlaid, (hread _ _).mpr ⟨_, hlaid, rfl⟩⟩

end FieldList
end QueryDomain

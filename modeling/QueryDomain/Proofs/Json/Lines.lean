import QueryDomain.Batch
import QueryDomain.Proofs.Json.Numerals

/-! Reports in JSON are lines: one for each domain, and each the text of a document that says what
reading the domain gave. Whatever characters the domains and their errors quote, a line break
stands only at the end of a line. -/
namespace QueryDomain

namespace Json

theorem newline_notMem_writeText (content : Text) : '\n' ∉ writeText content := by
  have hescaped : '\n' ∉ content.flatMap escape := by
    simpa using fun c _ => newline_notMem_escape c
  simp [writeText, hescaped]

theorem notMem_intercalate {α : Type} {separator a : α} {parts : List (List α)}
    (hs : a ≠ separator) (h : ∀ part ∈ parts, a ∉ part) : a ∉ [separator].intercalate parts := by
  cases parts with
  | nil => simp
  | cons first more =>
    obtain ⟨hfirst, hmore⟩ := List.forall_mem_cons.mp h
    rw [intercalate_cons]
    simpa [hfirst, hs] using hmore

/-- A compact text is one line. -/
theorem Proper.newline_notMem_write {document : Json} (h : Proper document) :
    '\n' ∉ document.write := by
  induction h with
  | null => decide
  | boolean truth => cases truth <;> decide
  | number hn =>
    intro hmem
    exact absurd (hn.word '\n' hmem) (by decide)
  | text content => exact newline_notMem_writeText content
  | @array items _ ih =>
    have hitems : '\n' ∉ [','].intercalate (items.map write) :=
      notMem_intercalate (by decide) (List.forall_mem_map.mpr ih)
    simp [write, hitems]
  | @object members _ ih =>
    have hmembers : '\n' ∉ [','].intercalate (writeMembers members) := by
      rw [writeMembers_eq_map]
      refine notMem_intercalate (by decide) (List.forall_mem_map.mpr fun m hm => ?_)
      simp [newline_notMem_writeText, ih m hm]
    simp [write, hmembers]

end Json

section Lines

variable {lines : List Text}

theorem splitOn_lines (h : ∀ line ∈ lines, '\n' ∉ line) :
    (lines.flatMap (· ++ ['\n'])).splitOn '\n' = lines ++ [[]] := by
  induction lines with
  | nil => rfl
  | cons line lines ih =>
    obtain ⟨hline, hlines⟩ := List.forall_mem_cons.mp h
    have hstop : ∀ c ∈ line, (c == '\n') = false := by
      intro c hc
      simpa using ne_of_mem_of_not_mem hc hline
    rw [List.flatMap_cons, List.append_assoc, List.singleton_append, List.splitOn,
      List.splitOnP_append_cons_of_forall_mem hstop _ (by simp)]
    exact congrArg (line :: ·) (ih hlines)

theorem count_lines (h : ∀ line ∈ lines, '\n' ∉ line) :
    (lines.flatMap (· ++ ['\n'])).count '\n' = lines.length := by
  induction lines with
  | nil => rfl
  | cons line lines ih =>
    obtain ⟨hline, hlines⟩ := List.forall_mem_cons.mp h
    rw [List.flatMap_cons, List.count_append, List.count_append, ih hlines,
      List.count_eq_zero_of_not_mem hline, List.count_singleton_self, List.length_cons]
    omega

end Lines

namespace Report

/-- A document tells what reading a domain gave: it has the domain as it was given, the filter if
the domain was read, and the message of the fault if it was not. -/
structure Describes (limit : Nat) (domain : String) (document : Json) : Prop where
  domain_eq : document.get? "domain".toList = some (.text domain.toList)
  filter_iff (filter : Json) : document.get? "filter".toList = some filter ↔
    ∃ result, Domain.read limit domain = .ok result ∧ filter = result.toJson
  error_iff (error : Json) : document.get? "error".toList = some error ↔
    ∃ fault, Domain.read limit domain = .error fault ∧ error = .text fault.message.toList

theorem describes (limit : Nat) (domain : String) :
    Describes limit domain (of limit domain).toJson := by
  rw [of, toJson]
  cases hread : Domain.read limit domain with
  | ok result =>
    refine ⟨by rfl, fun filter => ?_, fun error => ?_⟩
    · simp [hread, Json.get?, eq_comm]
    · simp [hread, Json.get?]
  | error fault =>
    refine ⟨by rfl, fun filter => ?_, fun error => ?_⟩
    · simp [hread, Json.get?]
    · simp [hread, Json.get?, eq_comm]

theorem isSome_error (r : Report) :
    (r.toJson.get? "error".toList).isSome = r.isFailure := by
  rw [toJson, isFailure]
  cases r.outcome <;> rfl

theorem proper_toJson (r : Report) : r.toJson.Proper := by
  rw [toJson]
  split
  · rename_i result _
    exact .object (by simpa using ⟨.text _, result.proper_toJson⟩)
  · exact .object (by simpa using ⟨.text _, .text _⟩)

/-- As many line breaks are written as there are domains, and between them stand the texts of
documents, one for each domain in their order. Each text reads back as its document, the document
describes the domain, and those with an error are counted as failures. -/
theorem write_json_lines (limit : Nat) (domains : List String) :
    (write .json (all limit domains)).count '\n' = domains.length ∧
      ∃ documents : List Json,
        (write .json (all limit domains)).splitOn '\n' = documents.map Json.write ++ [[]] ∧
        (∀ document ∈ documents, Json.read? document.write = some document) ∧
        List.Forall₂ (Describes limit) domains documents ∧
        failures (all limit domains) =
          documents.countP fun document => (document.get? "error".toList).isSome := by
  have hlines : ∀ line ∈ (all limit domains).map (entry .json), '\n' ∉ line :=
    List.forall_mem_map.mpr fun r _ => r.proper_toJson.newline_notMem_write
  have hwrite : write .json (all limit domains) =
      ((all limit domains).map (entry .json)).flatMap (· ++ ['\n']) := by
    rw [write, List.flatMap_map]
  refine ⟨?_, (all limit domains).map toJson, ?_, ?_, ?_, ?_⟩
  · rw [hwrite, count_lines hlines, List.length_map, all, List.length_map]
  · rw [hwrite, splitOn_lines hlines, List.map_map]
    rfl
  · exact List.forall_mem_map.mpr fun r _ => r.proper_toJson.read?_write
  · rw [all, List.map_map, List.forall₂_map_right_iff, List.forall₂_same]
    exact fun domain _ => describes limit domain
  · rw [failures, List.countP_map]
    exact congrArg (List.countP · _) (funext fun r => (isSome_error r).symm)

end Report
end QueryDomain

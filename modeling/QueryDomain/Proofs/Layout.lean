import QueryDomain.Proofs.Spelling

/-! Layout and spelling do not matter: whatever is spelled for a legible domain is read as this
domain. Its literal form is among these texts. -/
namespace QueryDomain

open Text

namespace Value

section Reads

variable {limit depth : Nat} {core part : Text}

theorem readsAs_of_scalar {v : Value} (h : v.Scalar core) (ht : ∀ content, v ≠ .text content)
    (hp : Padded core part) : ReadsAs limit depth part v := by
  refine .value (readValue_eq_ok_iff.mpr (.inl (scalar?_eq_some_iff.mpr ?_)))
  rw [hp.trim_eq, (h.plain ht).trim_eq]
  exact h

theorem SpelledAll.exists_cut {items : List Value} {cores parts : List Text}
    (hl : ∀ item ∈ items, ∀ w ∈ item.subvalues, w.Legible) (hs : SpelledAll items cores)
    (ht : Trailing cores parts) :
    ∃ found, cut (join parts) = .ok found ∧ Trailing cores found ∧ Balanced (join parts) ∧
      List.Forall₂ Placed cores items := by
  have hu := hs.uncut fun item hi cs hs => hs.token (hl item hi)
  obtain ⟨found, hcut, hfound⟩ := Value.exists_cut ht hu
  refine ⟨found, hcut, hfound, balanced_join ht hu, ?_⟩
  refine forall₂_imp_of_mem (spelledAll_iff.mp hs) fun part item hi hc => ?_
  obtain ⟨core, hs, hp⟩ := hc
  exact hs.placed (hl item hi) hp

theorem Spelled.readsAs {v : Value} (hl : ∀ w ∈ v.subvalues, w.Legible) (h : v.Spelled core)
    (hp : Padded core part) (hd : depth + v.depth ≤ limit) : ReadsAs limit depth part v := by
  have htrim := hp.trim_eq.trans (h.token hl).trim_eq
  have hself := hl v (mem_subvalues_self v)
  induction v generalizing core part depth with
  | text content =>
    refine .value (readValue_eq_ok_iff.mpr ?_)
    rw [htrim]
    rcases h with h | ⟨h, rfl⟩
    · exact .inl (scalar?_eq_some_iff.mpr (quotation?_eq_some_iff_quoted.mpr h))
    · refine .inr (.inl ⟨h.scalar?_eq, h.bare.interior?_eq_none .square, ?_⟩)
      rw [String.ofList_toList]
  | integer number =>
    exact readsAs_of_scalar (h.scalar hself (by simp) (by simp) rfl) (by simp) hp
  | float number =>
    exact readsAs_of_scalar (h.scalar hself (by simp) (by simp) rfl) (by simp) hp
  | boolean truth => exact readsAs_of_scalar h (by simp) hp
  | null => exact readsAs_of_scalar h (by simp) hp
  | list items ih =>
    obtain ⟨-, hl⟩ := forall_subvalues_list.mp hl
    obtain ⟨cores, parts, hs, ht, rfl⟩ := h
    obtain ⟨found, hcut, hfound, hb, hplaced⟩ := hs.exists_cut hl ht
    rw [Value.depth] at hd
    have hreads : List.Forall₂ (ReadsAs limit (depth + 1)) cores items := by
      refine forall₂_imp_of_mem (spelledAll_iff.mp hs) fun part item hi hc => ?_
      obtain ⟨core, hs, hp⟩ := hc
      have hle := depth_le_depths hi
      exact ih item hi (hl item hi) hs hp (by omega)
        (hp.trim_eq.trans (hs.token (hl item hi)).trim_eq) (hl item hi item (mem_subvalues_self _))
    refine .value (readValue_eq_ok_iff.mpr (.inr (.inr ?_)))
    rw [htrim]
    exact ⟨scalar?_group .square _, join parts, found, items,
      interior?_group .square hb, hcut, by omega,
      readsList_of_placed hself hfound hplaced hreads, rfl⟩
  | condition field comparator value ih =>
    obtain ⟨-, hl⟩ := forall_subvalues_condition.mp hl
    obtain ⟨name, relation, core, first, second, third, hn, h₁, ⟨words, hw, hr⟩, h₂, hv, h₃,
      rfl⟩ := h
    have hu := uncut_members hn h₁ hr h₂ (hv.token hl) h₃
    obtain ⟨hne, hfield, -, hblank, hnode⟩ := hself
    have hi : interior? .round (trim part) = some (join [first, second, third]) := by
      rw [htrim]
      exact interior?_group .round (Balanced.join fun part hp => (hu part hp).balanced)
    have hcut : cutAtMost 3 (join [first, second, third]) = .ok [first, second, third] := by
      rw [cutAtMost, cut_join hu (by simp)]
      rfl
    have hvalue : ReadsAs limit depth third value := by
      rw [Value.depth] at hd
      exact ih hl hv h₃ hd (h₃.trim_eq.trans (hv.token hl).trim_eq) (hl _ (mem_subvalues_self _))
    have hfirst : unquote first = field.toList := (hn.unquote_eq h₁).trans hfield
    have hsecond : unquote second = trim words := hr.unquote_eq h₂
    refine .condition (c := ⟨field, comparator, value⟩) hi (readCondition_eq_ok_iff.mpr ?_)
    refine ⟨first, second, third, hcut, ?_, ?_, ?_, hvalue.readValue_eq hnode, hblank, ?_⟩
    · rw [hfirst]
      simpa using hne
    · rw [hsecond]
      exact hw.ne_nil
    · rw [hsecond]
      exact Comparator.read_eq_ok_of_words ((words_trim words).trans hw.words_eq)
    · rw [hfirst, String.ofList_toList]
  | operator op =>
    obtain ⟨body, hb, hq⟩ := h
    have hquoted : quotation? (trim part) = some body := by
      rw [htrim]
      exact quotation?_eq_some_iff_quoted.mpr hq
    exact .operator hquoted (by rw [hb.trim_eq, op.trim_symbol, Operator.ofSymbol?_symbol])

end Reads

end Value

namespace Text

def spaced : List Text → List Text
  | [] => []
  | cs :: more => cs :: more.map (' ' :: ·)

theorem join_spaced (literals : List Text) :
    join (spaced literals) = [',', ' '].intercalate literals := by
  induction literals with
  | nil => rfl
  | cons cs more ih =>
    cases more with
    | nil => simp [spaced, join]
    | cons ds more =>
      have hspace : join ((' ' :: ds) :: more.map (' ' :: ·)) =
          ' ' :: join (spaced (ds :: more)) := by
        cases more <;> rfl
      rw [List.intercalate_cons_cons, ← ih, spaced, List.map_cons, join_cons_cons, hspace]
      simp

theorem quoted_quote {cs : Text} (h : '\x27' ∉ cs ∨ '\x22' ∉ cs) : Quoted cs (quote cs) := by
  rw [quote, quoteFor]
  split
  · rename_i hq
    exact ⟨'\x22', by decide, hq.2, rfl⟩
  · rename_i hq
    refine ⟨'\x27', by decide, ?_, rfl⟩
    intro hs
    rcases h with h | h
    · exact h hs
    · exact hq ⟨hs, h⟩

theorem padded_space (cs : Text) : Padded cs (' ' :: cs) :=
  ⟨[' '], [], blank_space, blank_nil, by simp⟩

end Text

theorem Comparator.quoted_spelling (c : Comparator) :
    Quoted c.spelling.toList (quote c.spelling.toList) := by
  apply quoted_quote
  cases c <;> decide

namespace Value

theorem spelledAll_spaced {items : List Value} (h : ∀ item ∈ items, item.Spelled item.literal) :
    SpelledAll items (spaced (items.map literal)) := by
  rw [spelledAll_iff]
  cases items with
  | nil => exact .nil
  | cons item items =>
    refine .cons ⟨item.literal, h item (by simp), .refl _⟩ ?_
    rw [List.forall₂_map_left_iff, List.forall₂_map_left_iff, List.forall₂_same]
    intro item hi
    exact ⟨item.literal, h item (by simp [hi]), padded_space _⟩

theorem spelled_literal {v : Value} (hl : ∀ w ∈ v.subvalues, w.Legible) : v.Spelled v.literal := by
  have hself := hl v (mem_subvalues_self v)
  induction v with
  | text content => exact .inl (quoted_quote hself)
  | integer number => exact ⟨0, rfl⟩
  | float number => rfl
  | boolean truth => cases truth <;> exact .inl rfl
  | null => exact .inl rfl
  | list items ih =>
    obtain ⟨-, hl⟩ := forall_subvalues_list.mp hl
    refine ⟨spaced (items.map literal), _, spelledAll_spaced ?_, .inl rfl, ?_⟩
    · intro item hi
      exact ih item hi (hl item hi) (hl item hi item (mem_subvalues_self item))
    · rw [join_spaced, literal, literals_eq_map]
  | condition field comparator value ih =>
    obtain ⟨-, hl⟩ := forall_subvalues_condition.mp hl
    have hv := ih hl (hl value (mem_subvalues_self value))
    refine ⟨quote field.toList, quote comparator.spelling.toList, value.literal, _, _, _,
      .inl ⟨field.toList, .refl _, quoted_quote hself.2.2.1⟩, .refl _,
      ⟨comparator.spelling.toList, comparator.widened_spelling,
        .inl ⟨comparator.spelling.toList, .refl _, comparator.quoted_spelling⟩⟩, padded_space _,
      hv, padded_space _, ?_⟩
    simp [literal, join]
  | operator op =>
    refine ⟨[op.symbol], .refl _, quoted_quote ?_⟩
    cases op <;> decide

end Value

namespace Domain

open Value

theorem Spelled.read_eq {limit : Nat} {domain : Domain} {text : String}
    (h : domain.Spelled text.toList) (hc : domain.check = .ok ())
    (hl : ∀ v ∈ domain.subvalues, v.Legible) (hd : domain.depth ≤ limit) :
    Domain.read limit text = .ok domain := by
  obtain ⟨core, ⟨cores, parts, hs, ht, rfl⟩, hp⟩ := h
  have hmembers : ∀ item ∈ domain.map Node.toValue, ∀ w ∈ item.subvalues, w.Legible := by
    intro item hi
    obtain ⟨n, hn, rfl⟩ := List.mem_map.mp hi
    exact forall_subvalues.mp hl n hn
  obtain ⟨found, hcut, hfound, hb, hplaced⟩ := hs.exists_cut hmembers ht
  have htoken := token_group .square hb
  have htrim : trim text.toList = '[' :: join parts ++ [']'] := hp.trim_eq.trans htoken.trim_eq
  have hreads : List.Forall₂ (ReadsAs limit 1) cores (domain.map Node.toValue) := by
    refine forall₂_imp_of_mem (spelledAll_iff.mp hs) fun part item hi hc => ?_
    obtain ⟨core, hs, hp⟩ := hc
    have hle := depth_le_depths hi
    rw [Domain.depth, toValue, Value.depth] at hd
    exact hs.readsAs (hmembers item hi) hp (by omega)
  have hpos := domain.depth_pos
  refine read_eq_ok_iff.mpr (.inr ?_)
  rw [htrim]
  refine ⟨by simp, by omega, join parts, found, interior?_group .square hb, hcut,
    ⟨cores, hfound, ?_⟩, hc⟩
  have hplaced := List.forall₂_map_right_iff.mp hplaced
  have hreads := List.forall₂_map_right_iff.mp hreads
  exact hplaced.mp (fun part n h hr => ⟨h.ne_nil, hr.readNode_eq⟩) hreads

theorem literal_eq_join (domain : Domain) : domain.literal =
    '[' :: join (spaced ((domain.map Node.toValue).map Value.literal)) ++ [']'] := by
  rw [Domain.literal, toValue, Value.literal, literals_eq_map, join_spaced]

theorem spelled_literal {domain : Domain} (hl : ∀ v ∈ domain.subvalues, v.Legible) :
    domain.Spelled domain.literal := by
  refine ⟨domain.literal, ⟨spaced ((domain.map Node.toValue).map Value.literal), _,
    spelledAll_spaced ?_, .inl rfl, ?_⟩, .refl _⟩
  · intro item hi
    obtain ⟨n, hn, rfl⟩ := List.mem_map.mp hi
    exact Value.spelled_literal (forall_subvalues.mp hl n hn)
  · exact domain.literal_eq_join

/-- Layout and spelling do not matter: a legible domain within the limit is read from its literal
form, and from every other text that spells it. -/
theorem read_eq_ok_of_spelled {limit : Nat} {domain : Domain} (hc : domain.check = .ok ())
    (hl : ∀ v ∈ domain.subvalues, v.Legible) (hd : domain.depth ≤ limit) :
    domain.Spelled domain.render.toList ∧
      ∀ text : String, domain.Spelled text.toList → Domain.read limit text = .ok domain := by
  constructor
  · rw [render, String.toList_ofList]
    exact spelled_literal hl
  · intro text hs
    exact hs.read_eq hc hl hd

/-- Without quotes, with wide blanks, a leading zero and two commas behind the last items. -/
theorem read_eq_ok_of_spelled_loose :
    Domain.read 2 "[\"! \",( a ,not  in,[ 07, x,]),] " =
      .ok [.operator .not, .condition ⟨"a", .isNotIn, .list [.integer 7, .text "x"]⟩] := by
  have hl : ∀ v ∈ Domain.subvalues
      [.operator .not, .condition ⟨"a", .isNotIn, .list [.integer 7, .text "x"]⟩],
      v.Legible := by
    simp [Domain.subvalues, subvaluesAll, Value.subvalues, Node.toValue, Value.Legible,
      looksLikeDomain, isCondition, isNode, Quotable]
    decide
  refine (read_eq_ok_of_spelled rfl hl (by decide)).2 _ ?_
  have hseven : (Value.integer 7).Spelled "07".toList := ⟨1, by decide⟩
  have hx : (Value.text "x").Spelled "x".toList :=
    .inr ⟨⟨⟨by decide, by decide, by decide⟩, by decide⟩, rfl⟩
  have hlist : (Value.list [.integer 7, .text "x"]).Spelled "[ 07, x,]".toList :=
    ⟨[" 07".toList, " x".toList], [" 07".toList, " x".toList, []],
      ⟨_, _, _, hseven, padded_space _, ⟨_, _, _, hx, padded_space _, rfl, rfl⟩, rfl⟩,
      .inr ⟨[], blank_nil, rfl⟩, rfl⟩
  have hfield : Named "a".toList "a".toList := .inr ⟨by decide, rfl⟩
  have hcomparator : ∃ words, Comparator.Widened .isNotIn words ∧ Named words "not  in".toList :=
    ⟨_, ⟨[' ', ' '], by decide, by decide, rfl⟩, .inr ⟨by decide, by decide⟩⟩
  have hcondition : (Value.condition "a" .isNotIn (.list [.integer 7, .text "x"])).Spelled
      "( a ,not  in,[ 07, x,])".toList :=
    ⟨_, _, _, _, _, _, hfield, ⟨[' '], [' '], blank_space, blank_space, rfl⟩, hcomparator,
      .refl _, hlist, .refl _, by decide⟩
  have hoperator : (Value.operator .not).Spelled "\"! \"".toList :=
    ⟨"! ".toList, ⟨[], [' '], blank_nil, blank_space, rfl⟩,
      ⟨'\x22', by decide, by decide, by decide⟩⟩
  refine ⟨"[\"! \",( a ,not  in,[ 07, x,]),]".toList, ?_,
    ⟨[], [' '], blank_nil, blank_space, by decide⟩⟩
  exact ⟨_, _, ⟨_, _, _, hoperator, .refl _, ⟨_, _, _, hcondition, .refl _, rfl, rfl⟩, rfl⟩,
    .inr ⟨[], blank_nil, rfl⟩, by decide⟩

end Domain
end QueryDomain

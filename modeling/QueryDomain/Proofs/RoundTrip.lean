import QueryDomain.Proofs.Layout

/-! The domains that are read again from their literal form are the legible ones. Reading follows
the literal form from its start: as long as each item comes out the same, each was legible, and so
it ends where its literal ends. A text with both quotes would have to be found in its own literal
form earlier, where it cannot be. -/
namespace QueryDomain

open Text

namespace Text

theorem eq_of_isPrefix_cons {c : Char} {cs ds : Text} (h : cs <+: c :: cs ++ ds) :
    ∀ d ∈ cs, d = c := by
  induction cs with
  | nil => simp
  | cons e cs ih =>
    obtain ⟨rfl, hcs⟩ := List.cons_prefix_cons.mp h
    intro d hd
    rcases List.mem_cons.mp hd with rfl | hd
    · rfl
    · exact ih hcs d hd

/-- A text that is read from the start of its own quotation lacks one of the quotes. -/
theorem quotable_of_isPrefix {content cs ds : Text} (hp : cs <+: quote content ++ ds)
    (h : (∃ body, quotation? cs = some body ∧ ∀ c ∈ content, c ∈ body) ∨ cs = content) :
    '\x27' ∉ content ∨ '\x22' ∉ content := by
  by_contra hboth
  simp only [not_or, not_not] at hboth
  have hq : quoteFor content = '\x27' := by simp [quoteFor, hboth.2]
  rw [quote, hq] at hp
  rcases h with ⟨body, hb, hsub⟩ | rfl
  · obtain ⟨q, -, hnot, rfl⟩ := quotation?_eq_some_iff.mp hb
    obtain ⟨rfl, -⟩ := List.cons_prefix_cons.mp hp
    exact hnot (hsub _ hboth.1)
  · rw [List.append_assoc] at hp
    exact absurd (eq_of_isPrefix_cons hp _ hboth.2) (by decide)

theorem isPrefix_join (cs : Text) (more : List Text) : cs <+: join (cs :: more) := by
  cases more with
  | nil => exact List.prefix_rfl
  | cons ds more => exact List.prefix_append _ _

end Text

theorem Trailing.of_cons {core part : Text} {cores parts : List Text}
    (h : Trailing (core :: cores) (part :: parts)) : core = part ∧ Trailing cores parts := by
  rcases h with h | ⟨blank, hb, h⟩
  · obtain ⟨rfl, rfl⟩ := List.cons.inj h
    exact ⟨rfl, .inl rfl⟩
  · rw [List.cons_append] at h
    obtain ⟨rfl, rfl⟩ := List.cons.inj h
    exact ⟨rfl, .inr ⟨blank, hb, rfl⟩⟩

namespace Value

theorem exists_literal_cons (v : Value) : ∃ c cs, v.literal = c :: cs ∧ ¬ Text.isBlank c := by
  cases v with
  | text content =>
    refine ⟨quoteFor content.toList, _, rfl, ?_⟩
    simp only [quoteFor]
    split <;> decide
  | integer number =>
    rw [literal, Text.ofInteger]
    split
    · exact ⟨'-', _, rfl, by decide⟩
    · obtain ⟨hne, hall⟩ := digits_ofNatural number.toInt.natAbs
      obtain ⟨c, cs, hc⟩ := List.exists_cons_of_ne_nil hne
      have hd : c.isDigit := hall c (by simp [hc])
      exact ⟨c, cs, hc, Numeral.not_isBlank (c := c) (by simp [hd])⟩
  | float number =>
    cases number with
    | nan => exact ⟨'N', _, rfl, by decide⟩
    | infinite negative => cases negative <;> exact ⟨_, _, rfl, by decide⟩
    | finite negative x =>
      cases negative with
      | true => exact ⟨'-', _, rfl, by decide⟩
      | false =>
        obtain ⟨whole, fraction, d, hw, -, hlit, -, -⟩ := Binary64.exists_literal x
        obtain ⟨c, cs, hc⟩ := List.exists_cons_of_ne_nil hw.ne_nil
        have hd : c.isDigit := hw.all c (by simp [hc])
        refine ⟨c, cs ++ '.' :: fraction, ?_, Numeral.not_isBlank (c := c) (by simp [hd])⟩
        rw [literal, hlit, hc, List.cons_append]
  | boolean truth => cases truth <;> exact ⟨_, _, rfl, by decide⟩
  | null => exact ⟨_, _, rfl, by decide⟩
  | list items => exact ⟨'[', _, rfl, by decide⟩
  | condition field comparator value => exact ⟨'(', _, rfl, by decide⟩
  | operator op => cases op <;> exact ⟨_, _, rfl, by decide⟩

theorem not_isBlank_head_literal (v : Value) (rest : Text) :
    ∀ c ∈ (v.literal ++ rest).head?, ¬ Text.isBlank c := by
  obtain ⟨c, cs, hc, hb⟩ := v.exists_literal_cons
  intro d hd
  rw [hc, List.cons_append, List.head?_cons] at hd
  cases hd
  exact hb

theorem Legible.uncut_literal {v : Value} (hl : ∀ w ∈ v.subvalues, w.Legible) :
    Uncut v.literal := ((spelled_literal hl).token hl).uncut

theorem trim_isPrefix_literal {inner before part rest : Text} {b : Bracket} {v : Value}
    (hb : Blank before) (hpart : part <+: inner)
    (hp : inner ++ [b.closing] <+: before ++ (v.literal ++ rest)) :
    trim part <+: v.literal ++ rest :=
  trim_isPrefix hb (v.not_isBlank_head_literal rest)
    ((hpart.trans (List.prefix_append _ _)).trans hp)

/-- That everything in a value is legible if the value is what is read where its literal starts. -/
def Regained (limit depth : Nat) (v : Value) : Prop :=
  ∀ (part rest : Text) (other : Value), ReadsAs limit depth part other → other.same v →
    trim part <+: v.literal ++ rest → ∀ w ∈ v.subvalues, w.Legible

theorem regained_items {limit depth : Nat} {b b' : Bracket} {cores : List Text}
    {items others : List Value} {inner before rest : Text} {offset : Nat} {p : Text × List Text}
    (hreads : List.Forall₂ (ReadsAs limit depth) cores others)
    (hsame : List.Forall₂ (fun v w => v.same w) others items)
    (ih : ∀ item ∈ items, Regained limit depth item) (hb : Blank before)
    (hcut : cutFrom Nesting.outermost offset inner = .ok p) (ht : Trailing cores (p.1 :: p.2))
    (hp : inner ++ [b.closing] <+:
      before ++ (join (spaced (items.map literal)) ++ b'.closing :: rest)) :
    List.Forall₂ (fun core item => ∃ rest, trim core <+: item.literal ++ rest) cores items ∧
      ∀ item ∈ items, ∀ w ∈ item.subvalues, w.Legible := by
  -- an item that has been regained ends where its literal does, so the next one starts behind the
  -- comma
  induction items generalizing cores others inner before offset p with
  | nil =>
    cases hsame
    cases hreads
    exact ⟨.nil, by simp⟩
  | cons item items ihs =>
    obtain ⟨other, others', hs, hsames, rfl⟩ := List.forall₂_cons_right_iff.mp hsame
    obtain ⟨core, cores', hr, hrs, rfl⟩ := List.forall₂_cons_right_iff.mp hreads
    obtain ⟨rfl, hmore⟩ := ht.of_cons
    have hfirst : p.1 <+: inner := join_cutFrom hcut ▸ isPrefix_join p.1 p.2
    cases items with
    | nil =>
      cases hsames
      cases hrs
      have htrim := trim_isPrefix_literal hb hfirst hp
      refine ⟨.cons ⟨_, htrim⟩ .nil, ?_⟩
      simpa using ih item (by simp) _ _ _ hr hs htrim
    | cons next items =>
      have hshape : join (spaced ((item :: next :: items).map literal)) =
          item.literal ++ ',' :: ' ' :: join (spaced ((next :: items).map literal)) := by
        simp only [join_spaced, List.map_cons, List.intercalate_cons_cons]
        simp
      rw [hshape, List.append_assoc] at hp
      have htrim := trim_isPrefix_literal hb hfirst hp
      have hitem := ih item (by simp) _ _ _ hr hs htrim
      have huncut : Uncut (before ++ item.literal) :=
        hb.bare.uncut.append (Legible.uncut_literal hitem)
      rw [← List.append_assoc] at hp
      obtain ⟨inner', offset', q, -, hq, hpq, hnext⟩ := cutFrom_next huncut hcut hp
      rw [hpq] at hmore
      obtain ⟨hstarts, hitems⟩ := ihs hrs hsames (fun item hi => ih item (by simp [hi]))
        blank_space hq hmore hnext
      exact ⟨.cons ⟨_, htrim⟩ hstarts, List.forall_mem_cons.mpr ⟨hitem, hitems⟩⟩

theorem eq_of_regroup {parts : List Text} {first second third : Text}
    (h : regroup 2 parts = [first, second, third]) :
    ∃ cs more, parts = first :: second :: cs :: more ∧ third = join (cs :: more) := by
  match parts, h with
  | [], h => cases h
  | [_], h => cases h
  | [_, _], h => cases h
  | _ :: _ :: cs :: more, h =>
    cases h
    exact ⟨cs, more, rfl, rfl⟩

theorem quotable_of_readsAs {limit depth : Nat} {part rest : Text} {content : String}
    (h : ReadsAs limit depth part (text content))
    (hp : trim part <+: (text content).literal ++ rest) : Quotable content := by
  apply quotable_of_isPrefix hp
  rcases h.text with hq | ⟨-, heq⟩
  · exact .inl ⟨_, hq, fun c hc => hc⟩
  · exact .inr heq.symm

theorem quotable_of_unquote {part rest : Text} {field : String}
    (h : field = String.ofList (unquote part)) (hp : trim part <+: quote field.toList ++ rest) :
    Quotable field := by
  apply quotable_of_isPrefix hp
  rw [h, String.toList_ofList, unquote]
  cases hq : quotation? (trim part) with
  | some body => exact .inl ⟨body, rfl, fun c hc => mem_of_mem_trim hc⟩
  | none => exact .inr rfl

theorem legible_of_readsAs_float {limit depth : Nat} {part rest : Text}
    {number other : Binary64} (h : ReadsAs limit depth part (float other))
    (hp : trim part <+: (float number).literal ++ rest) : (float number).Legible := by
  obtain ⟨d, hd, -⟩ := h.scalar (by simp) (by simp) rfl
  obtain ⟨whole, fraction, hw, -, htrim⟩ := exists_of_decimal? hd
  obtain ⟨c, cs, hc⟩ := List.exists_cons_of_ne_nil hw.ne_nil
  have hdigit : c.isDigit := hw.all c (by simp [hc])
  have hhead : ∀ e es, (float number).literal = e :: es → e.isDigit := by
    intro e es he
    rw [htrim, hc, he, List.cons_append, List.cons_append] at hp
    obtain ⟨rfl, -⟩ := List.cons_prefix_cons.mp hp
    exact hdigit
  cases number with
  | nan => exact absurd (hhead 'N' _ rfl) (by decide)
  | infinite negative =>
    cases negative with
    | true => exact absurd (hhead '-' _ rfl) (by decide)
    | false => exact absurd (hhead 'i' _ rfl) (by decide)
  | finite negative x =>
    cases negative with
    | true => exact absurd (hhead '-' _ rfl) (by decide)
    | false => exact ⟨x, rfl⟩

theorem isOperator_of_isSymbol {limit depth : Nat} {part rest : Text} {content : String}
    (h : ReadsAs limit depth part (text content)) (hs : (text content).isSymbol)
    (hp : trim part <+: (text content).literal ++ rest) : Text.isOperator part := by
  rcases h.text with hq | ⟨-, heq⟩
  · rw [Text.isOperator, hq]
    exact hs
  · exfalso
    rw [isSymbol, heq, trim_trim] at hs
    obtain ⟨op, ho⟩ := Option.isSome_iff_exists.mp hs
    rw [Operator.eq_of_ofSymbol? ho, literal, quote, List.cons_append, List.cons_append] at hp
    obtain ⟨hsymbol, -⟩ := List.cons_prefix_cons.mp hp
    have hquote : isQuote op.symbol := by
      rw [hsymbol, quoteFor]
      split <;> rfl
    cases op <;> exact absurd hquote (by decide)

/-- What an item that was read by itself tells about its part. -/
structure Single (part : Text) (item : Value) : Prop where
  isTuple_eq : isTuple part = item.isCondition
  isOperator_eq : item.isOperator = false
  isOperator : item.isSymbol → Text.isOperator part

theorem single_of_readItem {limit depth : Nat} {part rest : Text} {item other : Value}
    (h : readItem limit depth part = .ok other) (hs : other.same item)
    (hp : trim part <+: item.literal ++ rest) : Single part item := by
  refine ⟨?_, ?_, ?_⟩
  · rw [isTuple_eq_of_readItem h, isCondition_eq_of_same hs]
  · rw [← isOperator_eq_of_same hs, isOperator_of_readItem h]
  · intro hsymbol
    cases item with
    | text content =>
      rw [eq_text_of_same hs] at h
      exact isOperator_of_isSymbol (.of_readItem h) hsymbol hp
    | _ => cases hsymbol

theorem single_of_readItems {limit depth : Nat} {cores : List Text} {items others : List Value}
    (hf : List.Forall₂ (fun part item => trim part ≠ [] ∧ readItem limit depth part = .ok item)
      cores others)
    (hsame : List.Forall₂ (fun v w => v.same w) others items)
    (hstarts : List.Forall₂ (fun core item => ∃ rest, trim core <+: item.literal ++ rest)
      cores items) : List.Forall₂ Single cores items := by
  induction hf generalizing items with
  | nil =>
    cases hsame
    exact .nil
  | cons hr _ ih =>
    cases hsame with
    | cons hs hsame =>
      cases hstarts with
      | cons hp hstarts =>
        obtain ⟨rest, hp⟩ := hp
        exact .cons (single_of_readItem hr.2 hs hp) (ih hsame hstarts)

/-- Items that were read by themselves do not look like a domain, or they were read as one. -/
theorem legible_list_of_single {cores parts : List Text} {items : List Value}
    (hforms : ¬ formsDomain parts) (ht : Trailing cores parts)
    (hf : List.Forall₂ Single cores items) : (list items).Legible := by
  refine legible_list_iff.mpr (.inr ⟨?_, ?_⟩)
  · rw [Bool.eq_false_iff, Ne, looksLikeDomain_iff]
    rintro ⟨⟨item, hi, hcondition⟩, hall⟩
    apply hforms
    rw [ht.formsDomain_eq]
    obtain ⟨part, hpart, hp⟩ := exists_of_mem_right hf hi
    refine formsDomain_iff.mpr ⟨⟨part, hpart, hp.isTuple_eq.trans hcondition⟩, ?_⟩
    intro part hpart
    obtain ⟨item, hi, hp⟩ := exists_of_mem_left hf hpart
    rcases hall item hi with hn | hs
    · rw [isNode, hp.isOperator_eq, Bool.or_false] at hn
      exact .inr (.inl (hp.isTuple_eq.trans hn))
    · exact .inr (.inr (hp.isOperator hs))
  · intro item hi
    obtain ⟨part, -, hp⟩ := exists_of_mem_right hf hi
    exact hp.isOperator_eq

theorem exists_domain_of_same {domain : Domain} {items : List Value}
    (h : List.Forall₂ (fun v w => v.same w) (domain.map Node.toValue) items) :
    ∃ other : Domain, items = other.map Node.toValue ∧ domain.same other := by
  have hn : ∀ item ∈ items, item.isNode := by
    intro item hi
    obtain ⟨v, hv, hs⟩ := exists_of_mem_right h hi
    obtain ⟨n, -, rfl⟩ := List.mem_map.mp hv
    rw [← isNode_eq_of_same hs]
    exact isNode_toValue n
  obtain ⟨other, rfl⟩ := exists_domain_of_isNode hn
  refine ⟨other, rfl, ?_⟩
  rw [Domain.same, Domain.toValue, Domain.toValue, same, sameAll_iff]
  exact h

theorem regained_list {limit depth : Nat} {items : List Value}
    (ih : ∀ item ∈ items, Regained limit (depth + 1) item) :
    Regained limit depth (list items) := by
  intro part rest other h hs hp
  obtain ⟨others, rfl, hsame⟩ := exists_list_of_same hs
  obtain ⟨inner, parts, hi, hcut, -, hreads⟩ := h.list
  obtain ⟨p, hfrom, rfl⟩ := Outcome.map_eq_ok_iff.mp hcut
  have hinner : inner ++ [Bracket.square.closing] <+:
      [] ++ (join (spaced (items.map literal)) ++ Bracket.square.closing :: rest) := by
    rw [eq_of_interior? hi, literal, literals_eq_map, ← join_spaced] at hp
    simpa [Bracket.opening, Bracket.closing] using hp
  rw [forall_subvalues_list]
  rcases hreads with ⟨-, domain, hn, hcheck, rfl⟩ | ⟨hforms, cores, ht, hf⟩
  · obtain ⟨cores, ht, hf⟩ := hn.readsAs
    obtain ⟨-, hitems⟩ := regained_items hf hsame ih blank_nil hfrom ht hinner
    obtain ⟨other, rfl, hother⟩ := exists_domain_of_same hsame
    rw [Domain.check_eq_of_same hother] at hcheck
    exact ⟨legible_list_of_check hcheck, hitems⟩
  · have hall := hf.imp fun part item h => ReadsAs.of_readItem h.2
    obtain ⟨hstarts, hitems⟩ := regained_items hall hsame ih blank_nil hfrom ht hinner
    exact ⟨legible_list_of_single hforms ht (single_of_readItems hf hsame hstarts), hitems⟩

theorem regained_condition {limit depth : Nat} {field : String} {comparator : Comparator}
    {value : Value} (ih : Regained limit depth value) :
    Regained limit depth (condition field comparator value) := by
  intro part rest other h hs hp
  obtain ⟨target, rfl, hsame⟩ := exists_condition_of_same hs
  obtain ⟨inner, hi, hc⟩ := h.condition_inv
  obtain ⟨hne, htrim, hblank, hnode⟩ := wellFormed_of_readCondition hc
  rw [isBlank_eq_of_same hsame] at hblank
  rw [isNode_eq_of_same hsame] at hnode
  obtain ⟨first, second, third, hcut, -, -, -, hread, -, hfield⟩ := readCondition_eq_ok_iff.mp hc
  obtain ⟨parts, hparts, hregroup⟩ := Outcome.map_eq_ok_iff.mp hcut
  obtain ⟨p, hfrom, rfl⟩ := Outcome.map_eq_ok_iff.mp hparts
  obtain ⟨cs, more, hp₁, hthird⟩ := eq_of_regroup hregroup
  have hinner : inner ++ [Bracket.round.closing] <+: quote field.toList ++ ',' ::
      (' ' :: quote comparator.spelling.toList ++ ',' ::
        ([' '] ++ (value.literal ++ ')' :: rest))) := by
    rw [eq_of_interior? hi, literal] at hp
    simpa [Bracket.opening, Bracket.closing] using hp
  have hquotable : Quotable field := by
    apply quotable_of_unquote hfield
    have hstart : first <+: inner := by
      rw [← join_cutFrom hfrom, hp₁]
      exact isPrefix_join _ _
    exact trim_isPrefix_literal (v := text field) blank_nil hstart hinner
  have hcomparator : Uncut (' ' :: quote comparator.spelling.toList) :=
    (padded_space _).uncut comparator.quoted_spelling.uncut
  -- the first two commas are those behind the field and the comparator
  obtain ⟨inner₂, offset₂, q, -, hfrom₂, hpq, hinner₂⟩ :=
    cutFrom_next (quoted_quote hquotable).uncut hfrom hinner
  obtain ⟨inner₃, offset₃, r, -, hfrom₃, hqr, hinner₃⟩ :=
    cutFrom_next hcomparator hfrom₂ hinner₂
  have hwhole : third = inner₃ := by
    rw [hpq, hqr] at hp₁
    injection hp₁ with _ hp₁
    injection hp₁ with _ hp₁
    rw [hthird, ← join_cutFrom hfrom₃]
    exact congrArg join hp₁.symm
  rw [forall_subvalues_condition]
  refine ⟨⟨hne, htrim, hquotable, hblank, hnode⟩, ?_⟩
  apply ih third (')' :: rest) target (.value hread) hsame
  exact trim_isPrefix_literal blank_space (hwhole ▸ List.prefix_rfl) hinner₃

theorem regained {limit depth : Nat} (v : Value) : Regained limit depth v := by
  induction v generalizing depth with
  | text content =>
    intro part rest other h hs hp
    rw [eq_text_of_same hs] at h
    have hq := quotable_of_readsAs h hp
    simpa [subvalues, Legible] using hq
  | integer number =>
    intro part rest other h hs hp
    rw [eq_integer_of_same hs] at h
    have hn := h.toInt_nonneg
    simpa [subvalues, Legible] using hn
  | float number =>
    intro part rest other h hs hp
    obtain ⟨other, rfl, -⟩ := exists_float_of_same hs
    have hx := legible_of_readsAs_float h hp
    simpa only [subvalues, List.forall_mem_singleton] using hx
  | list items ih => exact regained_list fun item hi => ih item hi
  | condition field comparator value ih => exact regained_condition ih
  | _ =>
    intro part rest other h hs hp
    simp [subvalues, Legible]

end Value

namespace Domain

open Value

theorem legible_of_read_render {limit : Nat} {domain other : Domain}
    (h : Domain.read limit domain.render = .ok other) (hs : other.same domain) :
    domain.check = .ok () ∧ (∀ v ∈ domain.subvalues, v.Legible) ∧ domain.depth ≤ limit := by
  have htrim : trim domain.render.toList = domain.literal := by
    rw [render, String.toList_ofList, literal_eq_join]
    exact trim_between (by decide) (by decide) _
  have hne : trim domain.render.toList ≠ [] := by
    rw [htrim, literal_eq_join]
    simp
  rw [← check_eq_of_same hs, ← depth_eq_of_same hs]
  refine ⟨check_of_read h, ?_, (sound_of_read h).2 hne⟩
  rcases read_eq_ok_iff.mp h with ⟨hb, -⟩ | ⟨-, -, inner, parts, hi, hcut, hn, -⟩
  · exact absurd hb hne
  · obtain ⟨p, hfrom, rfl⟩ := Outcome.map_eq_ok_iff.mp hcut
    obtain ⟨cores, ht, hf⟩ := hn.readsAs
    have hsame : List.Forall₂ (fun v w => v.same w) (other.map Node.toValue)
        (domain.map Node.toValue) := by
      rw [List.forall₂_map_left_iff, List.forall₂_map_right_iff]
      exact forall₂_same hs
    have hinner : inner ++ [Bracket.square.closing] <+: [] ++
        (join (spaced ((domain.map Node.toValue).map Value.literal)) ++
          Bracket.square.closing :: []) := by
      have heq := eq_of_interior? hi
      rw [htrim, literal_eq_join, List.cons_append, List.cons_append] at heq
      have hwhole := (List.cons.inj heq).2.symm
      exact ⟨[], by rw [List.append_nil]; exact hwhole⟩
    obtain ⟨-, hitems⟩ := regained_items hf hsame (fun item _ => regained item) blank_nil hfrom ht
      hinner
    rw [forall_subvalues]
    intro n hn
    exact hitems n.toValue (List.mem_map_of_mem hn)

theorem read_render_of_legible {limit : Nat} {domain : Domain} (hc : domain.check = .ok ())
    (hl : ∀ v ∈ domain.subvalues, v.Legible) (hd : domain.depth ≤ limit) :
    Domain.read limit domain.render = .ok domain := by
  refine Spelled.read_eq ?_ hc hl hd
  rw [render, String.toList_ofList]
  exact spelled_literal hl

/-- Exactly the legible domains within the limit are read again from their literal form. -/
theorem read_render_iff {limit : Nat} {domain : Domain} :
    (∃ other, Domain.read limit domain.render = .ok other ∧ other.same domain) ↔
      domain.check = .ok () ∧ (∀ v ∈ domain.subvalues, v.Legible) ∧ domain.depth ≤ limit := by
  constructor
  · rintro ⟨other, h, hs⟩
    exact legible_of_read_render h hs
  · rintro ⟨hc, hl, hd⟩
    exact ⟨domain, read_render_of_legible hc hl hd, same_self hl⟩

end Domain
end QueryDomain

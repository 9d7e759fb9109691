import Highlighting.Proofs.Page.Names

/-!
# Markup tells elements apart

The markup of an element can be read in one way only: the tags and the names in it end where a
character comes that no name has, a value ends at the next quote, and the children of an element end
at an end tag.  So two elements with the same markup have the same tags, the same names of
attributes and the same children, down to the last one, and the same values as far as these can be
read (`Document.ComesAbout.outerHtml_eq_iff`).  A quote in a value is written as an entity, but an
ampersand is written as it is; so a quote and the text of the entity are not told apart
(`Document.outerHtml_confuses`).
-/

namespace Highlighting

namespace Page

/-! ### Values -/

/-- What is written for a quote. -/
def quoteEntity : List Char := ['&', 'q', 'u', 'o', 't', ';']

/-- A value as it is read from markup: an entity for a quote is a quote. -/
def readQuotes : List Char → List Char
  | '&' :: 'q' :: 'u' :: 'o' :: 't' :: ';' :: cs => '"' :: readQuotes cs
  | c :: cs => c :: readQuotes cs
  | [] => []

/-- A value as it is written in markup: a quote is written as an entity. -/
def writeQuotes (cs : List Char) : List Char :=
  cs.flatMap fun c => if c = '"' then quoteEntity else [c]

theorem attributeText_eq (value : String) :
    Document.attributeText value = writeQuotes value.toList := rfl

theorem writeQuotes_quote (cs : List Char) :
    writeQuotes ('"' :: cs) = quoteEntity ++ writeQuotes cs := rfl

theorem writeQuotes_cons {c : Char} (h : c ≠ '"') (cs : List Char) :
    writeQuotes (c :: cs) = c :: writeQuotes cs := by
  simp [writeQuotes, h]

theorem writeQuotes_entity (cs : List Char) :
    writeQuotes (quoteEntity ++ cs) = quoteEntity ++ writeQuotes cs := rfl

theorem quote_not_mem_writeQuotes (cs : List Char) : '"' ∉ writeQuotes cs := by
  rw [writeQuotes, List.mem_flatMap]
  rintro ⟨c, -, hc⟩
  split at hc
  · exact absurd hc (by decide)
  · next hne => exact hne (List.mem_singleton.1 hc).symm

/-- What is written stands for itself in the value, up to the entity of a quote. -/
theorem exists_of_writeQuotes_eq_append {xs : List Char} (hxs : '&' ∉ xs) {cs rest : List Char}
    (h : writeQuotes cs = xs ++ rest) : ∃ cs', cs = xs ++ cs' := by
  induction xs generalizing cs with
  | nil => exact ⟨cs, rfl⟩
  | cons x xs ih =>
    rw [List.mem_cons, not_or] at hxs
    cases cs with
    | nil => cases h
    | cons c cs =>
      by_cases hc : c = '"'
      · rw [hc, writeQuotes_quote] at h
        exact absurd (List.cons.inj h).1 hxs.1
      · rw [writeQuotes_cons hc] at h
        obtain ⟨rfl, hrest⟩ := List.cons.inj h
        obtain ⟨cs', rfl⟩ := ih hxs.2 hrest
        exact ⟨cs', rfl⟩

theorem readQuotes_writeQuotes (cs : List Char) : readQuotes (writeQuotes cs) = readQuotes cs := by
  fun_induction readQuotes cs with
  | case1 cs ih =>
    change readQuotes (quoteEntity ++ writeQuotes cs) = _
    rw [← ih]
    rfl
  | case2 c cs hentity ih =>
    by_cases hc : c = '"'
    · subst hc
      rw [writeQuotes_quote, ← ih]
      rfl
    · -- an entity in what is written here would be one in the value
      have hnone : ∀ rest, c = '&' → writeQuotes cs = 'q' :: 'u' :: 'o' :: 't' :: ';' :: rest →
          False := by
        intro rest hamp h
        have hplain : '&' ∉ ['q', 'u', 'o', 't', ';'] := by decide
        obtain ⟨cs', rfl⟩ := exists_of_writeQuotes_eq_append hplain h
        exact hentity cs' hamp rfl
      rw [writeQuotes_cons hc, readQuotes, ih]
      exact hnone
  | case3 => rfl

theorem writeQuotes_readQuotes (cs : List Char) : writeQuotes (readQuotes cs) = writeQuotes cs := by
  fun_induction readQuotes cs with
  | case1 cs ih =>
    rw [writeQuotes_quote, ih]
    rfl
  | case2 c cs _ ih =>
    by_cases hc : c = '"'
    · rw [hc, writeQuotes_quote, writeQuotes_quote, ih]
    · rw [writeQuotes_cons hc, writeQuotes_cons hc, ih]
  | case3 => rfl

/-- Values are written alike when they are read alike, and only then. -/
theorem attributeText_eq_iff {value value' : String} :
    Document.attributeText value = Document.attributeText value' ↔
      readQuotes value.toList = readQuotes value'.toList := by
  rw [attributeText_eq, attributeText_eq]
  constructor
  · intro h
    rw [← readQuotes_writeQuotes, h, readQuotes_writeQuotes]
  · intro h
    rw [← writeQuotes_readQuotes, h, writeQuotes_readQuotes]

/-- A value with no entity in it is read as it is. -/
theorem readQuotes_eq_self {cs : List Char} (h : ¬ quoteEntity <:+: cs) : readQuotes cs = cs := by
  fun_induction readQuotes cs with
  | case1 cs => exact absurd (List.prefix_append quoteEntity cs).isInfix h
  | case2 c cs _ ih => rw [ih fun hcs => h (hcs.trans (List.suffix_cons c cs).isInfix)]
  | case3 => rfl

/-! ### Start tags -/

/-- Texts of some characters end where a character comes that is none of them. -/
theorem append_inj_of_stops {p : Char → Bool} {xs ys r r' : List Char}
    (hxs : ∀ c ∈ xs, p c = true) (hys : ∀ c ∈ ys, p c = true)
    (hr : ∀ c ∈ r.head?, p c = false) (hr' : ∀ c ∈ r'.head?, p c = false)
    (h : xs ++ r = ys ++ r') : xs = ys ∧ r = r' := by
  induction xs generalizing ys with
  | nil =>
    cases ys with
    | nil => exact ⟨rfl, h⟩
    | cons y ys =>
      rw [List.nil_append] at h
      have hy : p y = false := hr y (by rw [h]; rfl)
      exact absurd (hys y List.mem_cons_self) (by simp [hy])
  | cons x xs ih =>
    obtain ⟨hx, hxs⟩ := List.forall_mem_cons.1 hxs
    cases ys with
    | nil =>
      rw [List.nil_append] at h
      have hx' : p x = false := hr' x (by rw [← h]; rfl)
      exact absurd hx (by simp [hx'])
    | cons y ys =>
      rw [List.cons_append, List.cons_append] at h
      obtain ⟨rfl, htails⟩ := List.cons.inj h
      obtain ⟨rfl, hrest⟩ := ih hxs (List.forall_mem_cons.1 hys).2 htails
      exact ⟨rfl, hrest⟩

/-- The value of an attribute with what is around it; an empty value is not written. -/
def valueMarkup (value : String) : List Char :=
  if value = "" then [] else '=' :: '"' :: (Document.attributeText value ++ ['"'])

theorem attributesMarkup_cons (a : String × String) (as : List (String × String)) :
    Document.attributesMarkup (a :: as) =
      ' ' :: (a.1.toList ++ (valueMarkup a.2 ++ Document.attributesMarkup as)) := by
  rw [Document.attributesMarkup, List.flatMap_cons, valueMarkup]
  by_cases hempty : a.2 = ""
  · simp [hempty, Document.attributesMarkup]
  · simp [hempty, Document.attributesMarkup]

/-- A text that goes on with a further attribute or the end of a start tag. -/
def EndsValue (t : List Char) : Prop := ∃ cs, t = ' ' :: cs ∨ t = '>' :: cs

theorem endsValue_attributes (as : List (String × String)) (r : List Char) :
    EndsValue (Document.attributesMarkup as ++ '>' :: r) := by
  cases as with
  | nil => exact ⟨r, .inr rfl⟩
  | cons a as =>
    rw [attributesMarkup_cons]
    exact ⟨_, .inl rfl⟩

theorem valueMarkup_append_inj {value value' : String} {t t' : List Char} (ht : EndsValue t)
    (ht' : EndsValue t') (h : valueMarkup value ++ t = valueMarkup value' ++ t') :
    Document.attributeText value = Document.attributeText value' ∧ t = t' := by
  have hno : ∀ {t cs}, EndsValue t → t ≠ '=' :: cs := by
    rintro t cs ⟨_, rfl | rfl⟩ heq
    · exact absurd (List.cons.inj heq).1 (by decide)
    · exact absurd (List.cons.inj heq).1 (by decide)
  rw [valueMarkup, valueMarkup] at h
  split at h
  · next hempty =>
    split at h
    · next hempty' => exact ⟨by rw [hempty, hempty'], h⟩
    · exact absurd h (hno ht)
  · split at h
    · exact absurd h.symm (hno ht')
    · simp only [List.cons_append, List.append_assoc, List.cons.injEq, true_and,
        List.nil_append] at h
      have hnone : ∀ v : String, ∀ c ∈ Document.attributeText v, (c != '"') = true := by
        intro v c hc
        rw [bne_iff_ne]
        rintro rfl
        exact quote_not_mem_writeQuotes v.toList hc
      obtain ⟨hvalues, hrest⟩ := append_inj_of_stops (p := (· != '"')) (hnone value) (hnone value')
        (by simp) (by simp) h
      exact ⟨hvalues, (List.cons.inj hrest).2⟩

/-- What comes behind a name in a start tag is no part of it. -/
theorem stops_valueMarkup {t : List Char} (ht : EndsValue t) (value : String) :
    ∀ c ∈ (valueMarkup value ++ t).head?, isNameChar c = false := by
  obtain ⟨cs, ht⟩ := ht
  rw [valueMarkup]
  split
  · rcases ht with rfl | rfl
    · simp [isNameChar]
    · simp [isNameChar]
  · simp [isNameChar]

theorem forall_isNameChar {s : String} (h : isName s = true) :
    ∀ c ∈ s.toList, isNameChar c = true := by
  obtain ⟨c, cs, hs, -, hall⟩ := isName_iff.1 h
  rwa [hs]

/-- Attributes with the same names, and with values that are written alike. -/
def SameAttributes (same : String → String → Prop) :
    List (String × String) → List (String × String) → Prop :=
  List.Forall₂ fun a a' => a.1 = a'.1 ∧ same a.2 a'.2

theorem attributes_append_inj {as as' : List (String × String)} {r r' : List Char}
    (has : ∀ a ∈ as, isName a.1 = true) (has' : ∀ a ∈ as', isName a.1 = true)
    (h : Document.attributesMarkup as ++ '>' :: r = Document.attributesMarkup as' ++ '>' :: r') :
    SameAttributes (fun v v' => Document.attributeText v = Document.attributeText v') as as' ∧
      r = r' := by
  induction as generalizing as' with
  | nil =>
    cases as' with
    | nil => exact ⟨.nil, (List.cons.inj h).2⟩
    | cons a' as' =>
      rw [attributesMarkup_cons] at h
      exact absurd (List.cons.inj h).1 (by decide)
  | cons a as ih =>
    obtain ⟨ha, has⟩ := List.forall_mem_cons.1 has
    cases as' with
    | nil =>
      rw [attributesMarkup_cons] at h
      exact absurd (List.cons.inj h).1 (by decide)
    | cons a' as' =>
      obtain ⟨ha', has'⟩ := List.forall_mem_cons.1 has'
      simp only [attributesMarkup_cons, List.cons_append, List.append_assoc, List.cons.injEq,
        true_and] at h
      have hends := endsValue_attributes as r
      have hends' := endsValue_attributes as' r'
      obtain ⟨hname, hvalues⟩ := append_inj_of_stops (forall_isNameChar ha) (forall_isNameChar ha')
        (stops_valueMarkup hends a.2) (stops_valueMarkup hends' a'.2) h
      obtain ⟨hvalue, hrest⟩ := valueMarkup_append_inj hends hends' hvalues
      obtain ⟨hattributes, hr⟩ := ih has has' hrest
      exact ⟨.cons ⟨String.toList_inj.1 hname, hvalue⟩ hattributes, hr⟩

theorem attributeText_eq_nil_iff {value : String} :
    Document.attributeText value = [] ↔ value = "" := by
  rw [attributeText_eq, writeQuotes, List.flatMap_eq_nil_iff, ← String.toList_eq_nil_iff,
    List.eq_nil_iff_forall_not_mem]
  refine forall_congr' fun c => ?_
  by_cases hc : c = '"'
  · simp [hc, quoteEntity]
  · simp [hc]

theorem valueMarkup_congr {value value' : String}
    (h : Document.attributeText value = Document.attributeText value') :
    valueMarkup value = valueMarkup value' := by
  have hempty : value = "" ↔ value' = "" := by
    rw [← attributeText_eq_nil_iff, h, attributeText_eq_nil_iff]
  rw [valueMarkup, valueMarkup, h]
  exact if_congr hempty rfl rfl

/-- Attributes that are written alike have the same markup. -/
theorem attributesMarkup_congr {as as' : List (String × String)}
    (h : SameAttributes (fun v v' => Document.attributeText v = Document.attributeText v') as as') :
    Document.attributesMarkup as = Document.attributesMarkup as' := by
  induction h with
  | nil => rfl
  | cons ha _ ih =>
    obtain ⟨hname, hvalue⟩ := ha
    rw [attributesMarkup_cons, attributesMarkup_cons, ih, hname, valueMarkup_congr hvalue]

namespace Document

variable {d d' : Document} {id id' : NodeId} {ids ids' visits visits' : List NodeId}
  {e e' : Element} {out out' r r' : List Char} {same : String → String → Prop}

theorem startTag_append (e : Element) (r : List Char) :
    startTag e ++ r = '<' :: ((asciiLowercase e.tagName).toList ++
      (attributesMarkup e.attributes ++ '>' :: r)) := by
  simp [startTag]

/-- A start tag has a letter where an end tag has a slash. -/
theorem exists_startTag (he : e.IsNamed) : ∃ c cs, startTag e = '<' :: c :: cs ∧ c ≠ '/' := by
  obtain ⟨c, cs, htag, hc, -⟩ := isName_iff.1 (isName_asciiLowercase he.isName_tagName)
  refine ⟨c, cs ++ attributesMarkup e.attributes ++ ['>'], ?_, ?_⟩
  · rw [startTag, htag]
    rfl
  · rintro rfl
    exact absurd hc (by decide)

theorem startTag_append_inj (he : e.IsNamed) (he' : e'.IsNamed)
    (h : startTag e ++ r = startTag e' ++ r') :
    e.tagName = e'.tagName ∧
      SameAttributes (fun v v' => attributeText v = attributeText v') e.attributes e'.attributes ∧
      r = r' := by
  rw [startTag_append, startTag_append] at h
  have hstops : ∀ (as : List (String × String)) (r : List Char),
      ∀ c ∈ (attributesMarkup as ++ '>' :: r).head?, isNameChar c = false := fun as r =>
    stops_valueMarkup (endsValue_attributes as r) ""
  obtain ⟨htag, hrest⟩ := append_inj_of_stops
    (forall_isNameChar (isName_asciiLowercase he.isName_tagName))
    (forall_isNameChar (isName_asciiLowercase he'.isName_tagName)) (hstops _ r) (hstops _ r')
    (List.cons.inj h).2
  have htags : e.tagName = e'.tagName := by
    rw [← he.uppercase_tagName, ← he'.uppercase_tagName, ← asciiUppercase_asciiLowercase,
      String.toList_inj.1 htag, asciiUppercase_asciiLowercase]
  obtain ⟨hattributes, hr⟩ := attributes_append_inj he.isName_attribute he'.isName_attribute hrest
  exact ⟨htags, hattributes, hr⟩

/-! ### Elements with all that is below them -/

/-- The elements in a list match those in a list of another document, with all that is below them:
they have the same tags, attributes with the same names, and children that match in the same order.
The values of the attributes are related one by one. -/
inductive Matches (d d' : Document) (same : String → String → Prop) :
    List NodeId → List NodeId → Prop
  | nil : Matches d d' same [] []
  | element {id id' : NodeId} {ids ids' : List NodeId} {e e' : Element}
      (he : d.nodes[id]? = some e) (he' : d'.nodes[id']? = some e')
      (htag : e.tagName = e'.tagName)
      (hattributes : SameAttributes same e.attributes e'.attributes)
      (hbelow : Matches d d' same e.children e'.children) (hrest : Matches d d' same ids ids') :
      Matches d d' same (id :: ids) (id' :: ids')

/-- Elements that match, with values that are written alike, have the same markup. -/
theorem Matches.out_eq
    (h : Matches d d' (fun v v' => attributeText v = attributeText v') ids ids')
    (hw : d.Writes ids visits out) (hw' : d'.Writes ids' visits' out') : out = out' := by
  induction h generalizing visits visits' out out' with
  | nil =>
    cases hw
    cases hw'
    rfl
  | element he he' htag hattributes _ _ ihbelow ihrest =>
    cases hw with
    | missing hnone => simp [he] at hnone
    | element heq hbelow hrest =>
      cases hw' with
      | missing hnone => simp [he'] at hnone
      | element heq' hbelow' hrest' =>
        obtain rfl := Option.some.inj (he.symm.trans heq)
        obtain rfl := Option.some.inj (he'.symm.trans heq')
        rw [ihbelow hbelow hbelow', ihrest hrest hrest', startTag, startTag, endTag, endTag, htag,
          attributesMarkup_congr hattributes]

/-- A text that goes on with an end tag, or ends. -/
def EndsChildren (r : List Char) : Prop := r = [] ∨ ∃ cs, r = '<' :: '/' :: cs

theorem endsChildren_endTag (e : Element) (r : List Char) : EndsChildren (endTag e ++ r) :=
  .inr ⟨_, rfl⟩

theorem EndsChildren.ne_startTag (h : EndsChildren r) (he : e.IsNamed) (cs : List Char) :
    r ≠ startTag e ++ cs := by
  obtain ⟨c, cs', hstart, hc⟩ := exists_startTag he
  rw [hstart]
  rintro rfl
  obtain heq | ⟨_, heq⟩ := h
  · cases heq
  · exact hc (List.cons.inj (List.cons.inj heq).2).1

/-- The markup of elements, and of what is below them, can be read in one way only. -/
theorem Writes.matches (h : d.IsForest) (h' : d'.IsForest) (hn : d.IsNamed) (hn' : d'.IsNamed)
    (hw : d.Writes ids visits out) (hw' : d'.Writes ids' visits' out')
    (hids : ∀ id ∈ ids, id < d.size) (hids' : ∀ id ∈ ids', id < d'.size)
    (hr : EndsChildren r) (hr' : EndsChildren r') (heq : out ++ r = out' ++ r') :
    Matches d d' (fun v v' => attributeText v = attributeText v') ids ids' ∧ r = r' := by
  induction hw generalizing ids' visits' out' r r' with
  | nil =>
    cases hw' with
    | nil => exact ⟨.nil, heq⟩
    | @missing id' _ _ _ hnone' =>
      obtain ⟨e', he'⟩ := exists_element (hids' id' List.mem_cons_self)
      simp [he'] at hnone'
    | element he' =>
      rw [List.append_assoc, List.append_assoc, List.append_assoc] at heq
      exact absurd heq (hr.ne_startTag (hn' _ _ he') _)
  | @missing id _ _ _ hnone =>
    obtain ⟨e, he⟩ := exists_element (hids id List.mem_cons_self)
    simp [he] at hnone
  | @element id _ _ _ e _ _ he hbelow hrest ihbelow ihrest =>
    cases hw' with
    | nil =>
      rw [List.append_assoc, List.append_assoc, List.append_assoc] at heq
      exact absurd heq.symm (hr'.ne_startTag (hn _ _ he) _)
    | @missing id' _ _ _ hnone' =>
      obtain ⟨e', he'⟩ := exists_element (hids' id' List.mem_cons_self)
      simp [he'] at hnone'
    | @element id' _ _ _ e' _ _ he' hbelow' hrest' =>
      simp only [List.append_assoc] at heq
      obtain ⟨htag, hattributes, hinner⟩ := startTag_append_inj (hn _ _ he) (hn' _ _ he') heq
      have hends : endTag e = endTag e' := by rw [endTag, endTag, htag]
      obtain ⟨hchildren, hclosed⟩ := ihbelow hbelow'
        (fun c hc => h.child_lt c id (children_eq he ▸ hc))
        (fun c hc => h'.child_lt c id' (children_eq he' ▸ hc))
        (endsChildren_endTag e _) (endsChildren_endTag e' _) hinner
      rw [hends] at hclosed
      obtain ⟨hothers, hr⟩ := ihrest hrest' (fun c hc => hids c (List.mem_cons_of_mem _ hc))
        (fun c hc => hids' c (List.mem_cons_of_mem _ hc)) hr hr' (List.append_cancel_left hclosed)
      exact ⟨.element he he' htag hattributes hchildren hothers, hr⟩

/-- In a forest the markup of two elements is the same exactly when they match with values that are
written alike. -/
theorem IsForest.outerHtml_eq_iff_written (h : d.IsForest) (h' : d'.IsForest) (hn : d.IsNamed)
    (hn' : d'.IsNamed) (hid : id < d.size) (hid' : id' < d'.size) :
    d.outerHtml id = d'.outerHtml id' ↔
      Matches d d' (fun v v' => attributeText v = attributeText v') [id] [id'] := by
  obtain ⟨visits, hw⟩ := h.writes hid
  obtain ⟨visits', hw'⟩ := h'.writes hid'
  rw [← String.toList_inj]
  constructor
  · intro heq
    have hends : EndsChildren [] := .inl rfl
    exact (hw.matches h h' hn hn' hw' (by simpa using hid) (by simpa using hid') hends hends
      (by rw [heq])).1
  · exact fun hmatches => hmatches.out_eq hw hw'

/-! ### Values that are told apart -/

/-- No value of an element, or of one below it, has the entity of a quote in it. -/
def HasPlainValues (d : Document) (id : NodeId) : Prop :=
  ∀ x, d.IsWithin x id → ∀ e, d.nodes[x]? = some e → ∀ a ∈ e.attributes,
    ¬ quoteEntity <:+: a.2.toList

theorem HasPlainValues.child (h : d.HasPlainValues id) (hforest : d.IsForest) {c : NodeId}
    (hc : c ∈ d.children id) : d.HasPlainValues c := by
  intro x hx
  exact h x ((hforest.isWithin_iff x id).2 (.inr ⟨c, hc, hx⟩))

theorem Matches.mono {same' : String → String → Prop} (h : Matches d d' same ids ids')
    (hsame : ∀ v v', same v v' → same' v v') : Matches d d' same' ids ids' := by
  induction h with
  | nil => exact .nil
  | element he he' htag hattributes _ _ ihbelow ihrest =>
    refine .element he he' htag (hattributes.imp fun a a' ha => ?_) ihbelow ihrest
    exact ⟨ha.1, hsame _ _ ha.2⟩

/-- Values with no entity in them that are read alike are the same. -/
theorem Matches.eq_of_plain (h : d.IsForest) (h' : d'.IsForest)
    (hm : Matches d d' (fun v v' => readQuotes v.toList = readQuotes v'.toList) ids ids')
    (hplain : ∀ id ∈ ids, d.HasPlainValues id) (hplain' : ∀ id ∈ ids', d'.HasPlainValues id) :
    Matches d d' Eq ids ids' := by
  induction hm with
  | nil => exact .nil
  | @element id id' _ _ e e' he he' htag hattributes _ _ ihbelow ihrest =>
    obtain ⟨hid, hplain⟩ := List.forall_mem_cons.1 hplain
    obtain ⟨hid', hplain'⟩ := List.forall_mem_cons.1 hplain'
    refine .element he he' htag ?_ (ihbelow ?_ ?_) (ihrest hplain hplain')
    · obtain ⟨hlength, hzip⟩ := List.forall₂_iff_zip.1 hattributes
      refine List.forall₂_iff_zip.2 ⟨hlength, fun {a a'} haa' => ?_⟩
      obtain ⟨ha, ha'⟩ := List.of_mem_zip haa'
      obtain ⟨hname, hvalue⟩ := hzip haa'
      rw [readQuotes_eq_self (hid id .refl e he a ha),
        readQuotes_eq_self (hid' id' .refl e' he' a' ha')] at hvalue
      exact ⟨hname, String.toList_inj.1 hvalue⟩
    · exact fun c hc => hid.child h (children_eq he ▸ hc)
    · exact fun c hc => hid'.child h' (children_eq he' ▸ hc)

/-- Two elements have the same markup exactly when they match, with all that is below them, and with
values that are read alike when the entity of a quote is read as a quote.  When no value has this
entity in it, they have the same markup exactly when they match with the same values. -/
theorem ComesAbout.outerHtml_eq_iff (h : d.ComesAbout) (h' : d'.ComesAbout) (hid : id < d.size)
    (hid' : id' < d'.size) :
    (d.outerHtml id = d'.outerHtml id' ↔
      Matches d d' (fun v v' => readQuotes v.toList = readQuotes v'.toList) [id] [id']) ∧
    (d.HasPlainValues id → d'.HasPlainValues id' →
      (d.outerHtml id = d'.outerHtml id' ↔ Matches d d' Eq [id] [id'])) := by
  have hread : d.outerHtml id = d'.outerHtml id' ↔
      Matches d d' (fun v v' => readQuotes v.toList = readQuotes v'.toList) [id] [id'] := by
    rw [h.isForest.outerHtml_eq_iff_written h'.isForest h.isNamed h'.isNamed hid hid']
    simp only [attributeText_eq_iff]
  refine ⟨hread, fun hplain hplain' => hread.trans ⟨fun hm => ?_, fun hm => ?_⟩⟩
  · exact hm.eq_of_plain h.isForest h'.isForest (by simpa using hplain) (by simpa using hplain')
  · exact hm.mono fun v v' hv => by rw [hv]

/-- Two documents that come about in different ways: what is below their roots has other numbers,
and the same markup. -/
theorem outerHtml_eq_iff_titled : ∃ d d' : Document, d.ComesAbout ∧ d'.ComesAbout ∧
    d.outerHtml 0 = "<html><p hidden title=\"a&b&quot;c\"></p></html>" ∧
    d.children 0 = [1] ∧ d'.children 0 = [2] ∧ Matches d d' Eq [0] [0] := by
  have hcomes := ((ComesAbout.empty.change (.appendElement 0 "p")).change
    (.setAttribute 1 "title" "a&b\"c")).change (.setAttribute 1 "hidden" "")
  have hcomes' := (((ComesAbout.empty.change (.createElement "i")).change
    (.appendElement 0 "P")).change (.setAttribute 2 "hidden" "")).change
      (.setAttribute 2 "TITLE" "a&b\"c")
  have hplain : ∀ d : Document, (∀ e ∈ d.nodes, ∀ a ∈ e.attributes,
      ¬ quoteEntity <:+: a.2.toList) → d.HasPlainValues 0 := fun d hd x _ e he =>
    hd e (List.mem_of_getElem? he)
  refine ⟨_, _, hcomes, hcomes', by decide +kernel, by decide +kernel, by decide +kernel, ?_⟩
  refine ((hcomes.outerHtml_eq_iff hcomes' (by decide +kernel) (by decide +kernel)).2
    (hplain _ (by decide +kernel)) (hplain _ (by decide +kernel))).1 ?_
  decide +kernel

/-- A quote and the text of its entity, as values of an attribute, have the same markup. -/
theorem outerHtml_confuses : ∃ d d' : Document, d.ComesAbout ∧ d'.ComesAbout ∧
    d.attribute? 0 "title" = some "\"" ∧ d'.attribute? 0 "title" = some "&quot;" ∧
    d.outerHtml 0 = d'.outerHtml 0 ∧ ¬ Matches d d' Eq [0] [0] := by
  refine ⟨_, _, ComesAbout.empty.change (.setAttribute 0 "title" "\""),
    ComesAbout.empty.change (.setAttribute 0 "title" "&quot;"), by decide +kernel,
    by decide +kernel, by decide +kernel, fun hm => ?_⟩
  cases hm with
  | element he he' _ hattributes =>
    have hroot : ∀ {d : Document} {e : Element} {v : String}, d.nodes[0]? = some e →
        d.nodes[0]?.map Element.attributes = some [("title", v)] →
        e.attributes = [("title", v)] := by
      intro d e v he hv
      rw [he] at hv
      exact Option.some.inj hv
    rw [hroot he (v := "\"") (by decide +kernel), hroot he' (v := "&quot;") (by decide +kernel)]
      at hattributes
    cases hattributes with
    | cons ha _ => exact absurd ha.2 (by decide)

end Document

end Page

end Highlighting

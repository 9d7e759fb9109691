import Mathlib.Data.List.Basic
import Highlighting.Render.Html

/-!
# Reading HTML back

`Html.read` reads markup character by character into tags and characters of text, undoing entities;
a bare angle bracket or quote in text is an error.  What it reads of rendered tokens are the tags of
the wrapper and of one element for each token that has one, and beside these the characters of the
texts (`read_render`): no text and no class name adds to the markup.  From these marks
`Html.decode` finds the categories and texts of the tokens again (`decode_render`), up to where bare
text is cut into tokens, which leaves no trace in the output.
-/

namespace Highlighting

namespace Html

/-- What a reader of markup meets. -/
inductive Mark where
  /-- a tag, with what is between its angle brackets -/
  | tag (content : List Char)
  /-- a character of text -/
  | char (c : Char)
deriving DecidableEq, Inhabited

/-- Where in the markup a reader is. -/
inductive Place where
  | text
  /-- in an entity, with what is read of its name -/
  | entity (taken : List Char)
  /-- in a tag, with what is read of it -/
  | tag (taken : List Char)

/-- The character that an entity stands for. -/
def entity? : List Char → Option Char
  | ['a', 'm', 'p'] => some '&'
  | ['l', 't'] => some '<'
  | ['g', 't'] => some '>'
  | ['q', 'u', 'o', 't'] => some '"'
  | ['#', '3', '9'] => some '\''
  | _ => none

/-- Whether a character belongs to the markup when it stands for itself. -/
def isMarkup (c : Char) : Bool := c == '<' || c == '>' || c == '"' || c == '\''

/-- Reads markup on from a place. -/
def readFrom : Place → List Char → Option (List Mark)
  | .text, [] => some []
  | .entity _, [] => none
  | .tag _, [] => none
  | .text, c :: cs =>
    if c = '<' then readFrom (.tag []) cs
    else if c = '&' then readFrom (.entity []) cs
    else if isMarkup c then none
    else (readFrom .text cs).map (.char c :: ·)
  | .entity taken, c :: cs =>
    if c = ';' then (entity? taken).bind fun d => (readFrom .text cs).map (.char d :: ·)
    else readFrom (.entity (taken ++ [c])) cs
  | .tag taken, c :: cs =>
    if c = '>' then (readFrom .text cs).map (.tag taken :: ·)
    else readFrom (.tag (taken ++ [c])) cs

/-- Reads markup. -/
def read (html : String) : Option (List Mark) := readFrom .text html.toList

/-! ### What is rendered -/

/-- The start tag of the element for a token. -/
def spanTag (category : Category) : List Char :=
  ("span class=\"" ++ category.cssClass ++ "\"").toList

/-- The end tag of the element for a token. -/
def spanEnd : List Char := "/span".toList

/-- The start tag of an element of the wrapper. -/
def classTag (name cssClass : String) : List Char :=
  (name ++ " class=\"" ++ escapeHtml cssClass ++ "\"").toList

/-- The marks of a piece of text of a category. -/
def pieceMarks (category : Category) (text : String) : List Mark :=
  if category.isPlain then text.toList.map .char
  else .tag (spanTag category) :: text.toList.map .char ++ [.tag spanEnd]

/-- The marks of tokens. -/
def tokenMarks (ts : TokenStream) : List Mark :=
  ts.flatMap fun t => pieceMarks t.category t.text

/-- Marks with those of the wrapper around them. -/
def wrappedMarks (wrap : Bool) (cssClass : String) (ms : List Mark) : List Mark :=
  if wrap then
    [.tag (classTag "div" cssClass), .tag (classTag "pre" cssClass), .tag "code".toList] ++ ms ++
      [.tag "/code".toList, .tag "/pre".toList, .tag "/div".toList]
  else ms

/-- A character is escaped by an entity that stands for it, or else is no markup. -/
theorem escapeHtmlChar_cases (c : Char) :
    escapeHtmlChar c = [c] ∧ c ≠ '&' ∧ isMarkup c = false ∨
      ∃ name, escapeHtmlChar c = '&' :: (name ++ [';']) ∧ entity? name = some c ∧
        ∀ d ∈ name, d ≠ ';' ∧ isMarkup d = false := by
  unfold escapeHtmlChar
  split
  · exact .inr ⟨['a', 'm', 'p'], rfl, rfl, by simp [isMarkup]⟩
  · exact .inr ⟨['l', 't'], rfl, rfl, by simp [isMarkup]⟩
  · exact .inr ⟨['g', 't'], rfl, rfl, by simp [isMarkup]⟩
  · exact .inr ⟨['q', 'u', 'o', 't'], rfl, rfl, by simp [isMarkup]⟩
  · exact .inr ⟨['#', '3', '9'], rfl, rfl, by simp [isMarkup]⟩
  · next hamp hlt hgt hquot happos =>
    refine .inl ⟨rfl, hamp, ?_⟩
    simpa [isMarkup] using ⟨⟨⟨hlt, hgt⟩, hquot⟩, happos⟩

theorem readFrom_entity (taken name rest : List Char) (h : ∀ d ∈ name, d ≠ ';') :
    readFrom (.entity taken) (name ++ ';' :: rest) =
      (entity? (taken ++ name)).bind fun d => (readFrom .text rest).map (.char d :: ·) := by
  induction name generalizing taken with
  | nil => simp [readFrom]
  | cons c cs ih =>
    have hc : c ≠ ';' := h c List.mem_cons_self
    rw [List.cons_append, readFrom, if_neg hc, ih _ fun d hd => h d (List.mem_cons_of_mem c hd)]
    simp

/-- What is read of an escaped character is the character. -/
theorem readFrom_escapeHtmlChar (c : Char) (rest : List Char) :
    readFrom .text (escapeHtmlChar c ++ rest) = (readFrom .text rest).map (.char c :: ·) := by
  rcases escapeHtmlChar_cases c with ⟨heq, hamp, hplain⟩ | ⟨name, heq, hname, hchars⟩
  · have hlt : c ≠ '<' := by
      rintro rfl
      cases hplain
    rw [heq, List.singleton_append, readFrom, if_neg hlt, if_neg hamp, hplain]
    rfl
  · rw [heq, List.cons_append, List.append_assoc, List.singleton_append, readFrom,
      if_neg (by decide), if_pos rfl, readFrom_entity [] name rest fun d hd => (hchars d hd).1,
      List.nil_append, hname, Option.bind_some]

theorem readFrom_escapeHtml (s : String) (rest : List Char) :
    readFrom .text ((escapeHtml s).toList ++ rest) =
      (readFrom .text rest).map (s.toList.map .char ++ ·) := by
  rw [escapeHtml, String.toList_ofList]
  induction s.toList with
  | nil => simp
  | cons c cs ih =>
    rw [List.flatMap_cons, List.append_assoc, readFrom_escapeHtmlChar, ih, Option.map_map]
    rfl

theorem readFrom_inTag (taken content rest : List Char) (h : '>' ∉ content) :
    readFrom (.tag taken) (content ++ '>' :: rest) =
      (readFrom .text rest).map (.tag (taken ++ content) :: ·) := by
  induction content generalizing taken with
  | nil => simp [readFrom]
  | cons c cs ih =>
    rw [List.mem_cons, not_or] at h
    rw [List.cons_append, readFrom, if_neg (Ne.symm h.1), ih _ h.2]
    simp

/-- A tag is read up to the first bracket that closes it. -/
theorem readFrom_tag {content : List Char} (h : '>' ∉ content) (rest : List Char) :
    readFrom .text ('<' :: (content ++ '>' :: rest)) =
      (readFrom .text rest).map (.tag content :: ·) := by
  rw [readFrom, if_pos rfl, readFrom_inTag [] content rest h, List.nil_append]

/-! ### Markup -/

/-- The characters of a text that belong to the markup. -/
def markup (html : String) : List Char := html.toList.filter isMarkup

@[simp] theorem markup_append (s t : String) : markup (s ++ t) = markup s ++ markup t := by
  simp [markup]

theorem filter_escapeHtmlChar (c : Char) : (escapeHtmlChar c).filter isMarkup = [] := by
  rcases escapeHtmlChar_cases c with ⟨heq, -, hplain⟩ | ⟨name, heq, -, hchars⟩
  · simp [heq, hplain]
  · have hname : name.filter isMarkup = [] :=
      List.filter_eq_nil_iff.2 fun d hd => by simp [(hchars d hd).2]
    rw [heq, List.filter_cons_of_neg (by decide), List.filter_append, hname]
    rfl

/-- Of an escaped text nothing belongs to the markup. -/
@[simp] theorem markup_escapeHtml (s : String) : markup (escapeHtml s) = [] := by
  rw [markup, escapeHtml, String.toList_ofList, List.filter_flatMap, List.flatMap_eq_nil_iff]
  exact fun c _ => filter_escapeHtmlChar c

theorem not_mem_escapeHtml (s : String) : '>' ∉ (escapeHtml s).toList := by
  intro h
  have hmarkup := List.mem_filter.2 ⟨h, show isMarkup '>' = true from rfl⟩
  rw [← markup, markup_escapeHtml] at hmarkup
  cases hmarkup

theorem not_mem_spanTag (category : Category) : '>' ∉ spanTag category := by
  have hall : ∀ c ∈ Category.all, '>' ∉ spanTag c := by decide +kernel
  exact hall category (Category.mem_all category)

theorem not_mem_classTag {name : String} (h : '>' ∉ name.toList) (cssClass : String) :
    '>' ∉ classTag name cssClass := by
  simp [classTag, h, not_mem_escapeHtml]

/-! ### What is read of rendered tokens -/

theorem toList_piece {category : Category} (h : category.isPlain = false) (text : String) :
    (piece category text).toList = '<' :: (spanTag category ++ '>' ::
      ((escapeHtml text).toList ++ '<' :: (spanEnd ++ ['>']))) := by
  simp [piece, h, spanTag, spanEnd]

theorem readFrom_piece (category : Category) (text : String) (rest : List Char) :
    readFrom .text ((piece category text).toList ++ rest) =
      (readFrom .text rest).map (pieceMarks category text ++ ·) := by
  cases h : category.isPlain with
  | true => simp [piece, pieceMarks, h, readFrom_escapeHtml]
  | false =>
    have hend : '>' ∉ spanEnd := by decide
    rw [toList_piece h, List.cons_append, List.append_assoc, List.cons_append, List.append_assoc,
      List.cons_append, List.append_assoc, List.singleton_append,
      readFrom_tag (not_mem_spanTag category), readFrom_escapeHtml, readFrom_tag hend]
    simp [pieceMarks, h, Function.comp_def]

theorem spans_cons (t : Token) (ts : TokenStream) :
    spans (t :: ts) = piece t.category t.text ++ spans ts := by
  simp [spans]

theorem tokenMarks_cons (t : Token) (ts : TokenStream) :
    tokenMarks (t :: ts) = pieceMarks t.category t.text ++ tokenMarks ts := List.flatMap_cons

theorem readFrom_spans (ts : TokenStream) (rest : List Char) :
    readFrom .text ((spans ts).toList ++ rest) =
      (readFrom .text rest).map (tokenMarks ts ++ ·) := by
  induction ts with
  | nil => simp [spans, tokenMarks]
  | cons t ts ih =>
    rw [spans_cons, String.toList_append, List.append_assoc, readFrom_piece, ih, Option.map_map,
      tokenMarks_cons]
    simp [Function.comp_def]

theorem toList_render (cssClass : String) (ts : TokenStream) :
    (render ⟨true, false, cssClass⟩ ts).toList =
      '<' :: (classTag "div" cssClass ++ '>' :: '<' :: (classTag "pre" cssClass ++ '>' ::
        '<' :: ("code".toList ++ '>' :: ((spans ts).toList ++ '<' :: ("/code".toList ++ '>' ::
          '<' :: ("/pre".toList ++ '>' :: '<' :: ("/div".toList ++ '>' :: []))))))) := by
  simp [render, classTag]

/-- Of rendered tokens a reader meets the tags of the wrapper and of an element for each token that
has one, and the characters of the texts. -/
theorem read_render (wrap : Bool) (cssClass : String) (ts : TokenStream) :
    read (render ⟨wrap, false, cssClass⟩ ts) =
      some (wrappedMarks wrap cssClass (tokenMarks ts)) := by
  cases wrap with
  | false =>
    have h := readFrom_spans ts []
    simpa [read, render, wrappedMarks, readFrom] using h
  | true =>
    have hdiv : '>' ∉ classTag "div" cssClass := not_mem_classTag (by decide) cssClass
    have hpre : '>' ∉ classTag "pre" cssClass := not_mem_classTag (by decide) cssClass
    have hcode : '>' ∉ "code".toList := by decide
    have hcodeEnd : '>' ∉ "/code".toList := by decide
    have hpreEnd : '>' ∉ "/pre".toList := by decide
    have hdivEnd : '>' ∉ "/div".toList := by decide
    rw [read, toList_render, readFrom_tag hdiv, readFrom_tag hpre, readFrom_tag hcode,
      readFrom_spans, readFrom_tag hcodeEnd, readFrom_tag hpreEnd, readFrom_tag hdivEnd, readFrom]
    rfl

/-- Texts and class names add nothing to the markup. -/
theorem markup_render (wrap : Bool) (cssClass : String) (ts : TokenStream) :
    markup (render ⟨wrap, false, cssClass⟩ ts) =
      markup (render ⟨wrap, false, ""⟩ (ts.map fun t => { t with text := "" })) := by
  have hspans : markup (spans ts) = markup (spans (ts.map fun t => { t with text := "" })) := by
    induction ts with
    | nil => rfl
    | cons t ts ih =>
      rw [List.map_cons, spans_cons, spans_cons, markup_append, markup_append, ih]
      by_cases h : t.category.isPlain <;> simp [piece, h]
  cases wrap <;> simp [render, hspans]

/-! ### Back to categories and texts -/

/-- The category whose elements have a start tag. -/
def spanCategory? (content : List Char) : Option Category :=
  Category.all.find? fun c => !c.isPlain && content == spanTag c

/-- Puts bare text in front of pieces: it joins bare text that is there, and is left out when it is
empty. -/
def joinText (s : String) : List (Category × String) → List (Category × String)
  | (.text, t) :: rest => (.text, s ++ t) :: rest
  | rest => if s = "" then rest else (.text, s) :: rest

/-- The pieces that marks stand for, behind the start of an element that is not yet complete or
else outside of elements. -/
def piecesFrom : Option (Category × List Char) → List Mark → Option (List (Category × String))
  | none, [] => some []
  | some _, [] => none
  | none, .char c :: ms => (piecesFrom none ms).map (joinText (String.ofList [c]))
  | none, .tag content :: ms =>
    (spanCategory? content).bind fun category => piecesFrom (some (category, [])) ms
  | some (category, taken), .char c :: ms => piecesFrom (some (category, taken ++ [c])) ms
  | some (category, taken), .tag content :: ms =>
    if content = spanEnd then
      (piecesFrom none ms).map ((category, String.ofList taken) :: ·)
    else none

/-- The marks between the three tags that open the wrapper and the three that close it. -/
def unwrapped (ms : List Mark) : List Mark := (ms.drop 3).take (ms.length - 6)

/-- The categories and texts that HTML stands for, which is in the wrapper or not. -/
def decode (wrap : Bool) (html : String) : Option (List (Category × String)) :=
  (read html).bind fun ms => piecesFrom none (if wrap then unwrapped ms else ms)

/-- Pieces with neighbours of bare text joined and empty bare text left out. -/
def settled : List (Category × String) → List (Category × String)
  | [] => []
  | (category, s) :: rest =>
    if category.isPlain then joinText s (settled rest) else (category, s) :: settled rest

theorem spanTag_injective : Function.Injective spanTag := by
  intro a b h
  refine Category.cssClass_injective (String.toList_injective ?_)
  simpa [spanTag] using h

theorem spanCategory?_spanTag {category : Category} (h : category.isPlain = false) :
    spanCategory? (spanTag category) = some category := by
  have hsome : (spanCategory? (spanTag category)).isSome := by
    rw [spanCategory?, List.find?_isSome]
    exact ⟨category, Category.mem_all category, by simp [h]⟩
  obtain ⟨c, hc⟩ := Option.isSome_iff_exists.1 hsome
  have htag := List.find?_some hc
  rw [Bool.and_eq_true, beq_iff_eq] at htag
  rw [hc, spanTag_injective htag.2]

theorem joinText_empty (ps : List (Category × String)) : joinText "" ps = ps := by
  unfold joinText
  split <;> simp

theorem joinText_joinText (s t : String) (ps : List (Category × String)) :
    joinText s (joinText t ps) = joinText (s ++ t) ps := by
  by_cases hps : ∃ u rest, ps = (.text, u) :: rest
  · obtain ⟨u, rest, rfl⟩ := hps
    simp [joinText, String.append_assoc]
  · have hjoin : ∀ s, joinText s ps = if s = "" then ps else (.text, s) :: ps := by
      intro s
      rw [joinText]
      exact fun u rest heq => hps ⟨u, rest, heq⟩
    rw [hjoin, hjoin]
    by_cases ht : t = ""
    · simp [ht, hjoin]
    · simp [ht, joinText]

theorem piecesFrom_chars (cs : List Char) (ms : List Mark) :
    piecesFrom none (cs.map .char ++ ms) =
      (piecesFrom none ms).map (joinText (String.ofList cs)) := by
  induction cs with
  | nil => simp [funext joinText_empty]
  | cons c cs ih =>
    have hjoin : joinText (String.ofList [c]) ∘ joinText (String.ofList cs) =
        joinText (String.ofList (c :: cs)) := by
      funext ps
      rw [Function.comp_apply, joinText_joinText, ← String.ofList_append, List.singleton_append]
    rw [List.map_cons, List.cons_append, piecesFrom, ih, Option.map_map, hjoin]

theorem piecesFrom_element (category : Category) (taken cs : List Char) (ms : List Mark) :
    piecesFrom (some (category, taken)) (cs.map .char ++ .tag spanEnd :: ms) =
      (piecesFrom none ms).map ((category, String.ofList (taken ++ cs)) :: ·) := by
  induction cs generalizing taken with
  | nil => simp [piecesFrom]
  | cons c cs ih =>
    rw [List.map_cons, List.cons_append, piecesFrom, ih, List.append_assoc]
    rfl

theorem piecesFrom_tokenMarks (ts : TokenStream) :
    piecesFrom none (tokenMarks ts) = some (settled (ts.map fun t => (t.category, t.text))) := by
  induction ts with
  | nil => rfl
  | cons t ts ih =>
    rw [tokenMarks_cons, List.map_cons, settled, pieceMarks]
    cases h : t.category.isPlain with
    | true => simp [piecesFrom_chars, ih]
    | false =>
      simp [piecesFrom, spanCategory?_spanTag h, piecesFrom_element, ih]

theorem unwrapped_wrappedMarks (cssClass : String) (ms : List Mark) :
    unwrapped (wrappedMarks true cssClass ms) = ms := by
  simp [unwrapped, wrappedMarks]

/-- Rendered tokens can be decoded, up to where bare text is cut: from the tags that a reader meets,
which are those of the wrapper and of the elements whatever the texts and the class name are. -/
theorem decode_render (wrap : Bool) (cssClass : String) (ts : TokenStream) :
    decode wrap (render ⟨wrap, false, cssClass⟩ ts) =
        some (settled (ts.map fun t => (t.category, t.text))) ∧
      read (render ⟨wrap, false, cssClass⟩ ts) =
        some (wrappedMarks wrap cssClass (tokenMarks ts)) ∧
      markup (render ⟨wrap, false, cssClass⟩ ts) =
        markup (render ⟨wrap, false, ""⟩ (ts.map fun t => { t with text := "" })) := by
  refine ⟨?_, read_render wrap cssClass ts, markup_render wrap cssClass ts⟩
  rw [decode, read_render, Option.bind_some]
  cases wrap with
  | false => exact piecesFrom_tokenMarks ts
  | true => rw [if_pos rfl, unwrapped_wrappedMarks, piecesFrom_tokenMarks]

end Html

end Highlighting

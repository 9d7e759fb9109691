import Highlighting.Token.Structured
import Highlighting.Proofs.Render.JsonReading

/-!
# Token streams in JSON

A stream whose places fit into machine numbers (`Fits`) is read back from what is written of it, and
every stream that is read fits: what a text may have beyond what the writer writes, such as short
category names (`Category.ofName?_eq_some_iff`), blanks and further fields, is gone after one
reading.  `read?_toJson_render` says this for any reader of JSON that reads plain values four levels
deep: a stream, its tokens, their spans and the ends of these.
-/

namespace Highlighting

namespace Category

theorem ofName?_eq_some_iff_qualify {s : String} {c : Category} :
    ofName? s = some c ↔ qualify s = c.qualifiedName := by
  constructor
  · intro h
    have hname : c.qualifiedName = qualify s := by simpa using List.find?_some h
    exact hname.symm
  · intro h
    rw [ofName?, h]
    cases c <;> rfl

theorem not_startsWith_qualifiedName (c : Category) :
    ¬ (c.qualifiedName.startsWith "String" || c.qualifiedName.startsWith "Number") := by
  cases c <;> decide +kernel

/-- What stands behind `Literal.` in a full name is a string or a number. -/
theorem startsWith_of_literal {t : String} {c : Category}
    (h : "Literal." ++ t = c.qualifiedName) :
    t.startsWith "String" || t.startsWith "Number" := by
  have hfront : c.qualifiedName.toList.take 8 = "Literal.".toList := by
    rw [← h, String.toList_append]
    rfl
  have hback : t = String.ofList (c.qualifiedName.toList.drop 8) := by
    rw [← h, String.toList_append]
    exact String.ofList_toList.symm
  rw [hback]
  clear h hback
  revert hfront
  cases c <;> decide +kernel

/-- The names of a category: its full name, and this without the `Literal.` in front, each with any
blanks around it. -/
theorem ofName?_eq_some_iff {s : String} {c : Category} :
    ofName? s = some c ↔ trim s = c.qualifiedName ∨ "Literal." ++ trim s = c.qualifiedName := by
  rw [ofName?_eq_some_iff_qualify, qualify]
  split
  case isTrue hshort =>
    refine ⟨.inr, fun h => h.resolve_left fun hfull => ?_⟩
    exact not_startsWith_qualifiedName c (hfull ▸ hshort)
  case isFalse hlong =>
    exact ⟨.inl, fun h => h.resolve_right fun hshort => hlong (startsWith_of_literal hshort)⟩

/-- The full name of a category is one of its names. -/
theorem ofName?_qualifiedName (c : Category) : ofName? c.qualifiedName = some c :=
  ofName?_eq_some_iff.2 (.inl (by cases c <;> rfl))

end Category

namespace Json

theorem natBelow?_nat {n bound : Nat} (h : n < bound) : (nat n).natBelow? bound = some n :=
  if_pos h

theorem lt_of_natBelow? {v : Json} {n bound : Nat} (h : v.natBelow? bound = some n) :
    n < bound := by
  unfold natBelow? at h
  split at h
  · split at h
    case isTrue hlt => exact Option.some.inj h ▸ hlt
    case isFalse => cases h
  · cases h

end Json

namespace Position

/-- The numbers of a position fit into the machine's: 64 bits for the offset, 32 bits for the line
and the column. -/
structure Fits (p : Position) : Prop where
  offset : p.offset < .pow 2 64
  line : p.line < .pow 2 32
  column : p.column < .pow 2 32

theorem Fits.ofJson?_toJson {p : Position} (hp : p.Fits) : ofJson? p.toJson = some p := by
  have hoffset : (Json.nat p.offset).natBelow? (.pow 2 64) = some p.offset :=
    Json.natBelow?_nat hp.offset
  have hline : (Json.nat p.line).natBelow? (.pow 2 32) = some p.line :=
    Json.natBelow?_nat hp.line
  have hcolumn : (Json.nat p.column).natBelow? (.pow 2 32) = some p.column :=
    Json.natBelow?_nat hp.column
  have hrecord : p.toJson.record? ["offset", "line", "column"] =
      some [.nat p.offset, .nat p.line, .nat p.column] := rfl
  rw [ofJson?, hrecord]
  dsimp only
  rw [hoffset, hline, hcolumn]
  rfl

theorem fits_of_ofJson? {v : Json} {p : Position} (h : ofJson? v = some p) : p.Fits := by
  unfold ofJson? at h
  split at h
  case h_1 offset line column _ =>
    simp only [Option.bind_eq_bind, Option.bind_eq_some_iff, Option.some.injEq] at h
    obtain ⟨o, ho, l, hl, c, hc, rfl⟩ := h
    exact ⟨Json.lt_of_natBelow? ho, Json.lt_of_natBelow? hl, Json.lt_of_natBelow? hc⟩
  case h_2 => cases h

theorem Fits.isPlain_toJson {p : Position} (hp : p.Fits) : p.toJson.IsPlain 1 := by
  refine .object (by simp) fun f hf => ?_
  simp only [List.mem_cons, List.not_mem_nil, or_false] at hf
  rcases hf with rfl | rfl | rfl
  · exact .nat hp.offset
  · exact .nat (Nat.lt_trans hp.line (by decide))
  · exact .nat (Nat.lt_trans hp.column (by decide))

end Position

namespace Span

/-- The two ends of a span fit. -/
structure Fits (s : Span) : Prop where
  start : s.start.Fits
  stop : s.stop.Fits

theorem Fits.ofJson?_toJson {s : Span} (hs : s.Fits) : ofJson? s.toJson = some s := by
  have hrecord : s.toJson.record? ["start", "end"] = some [s.start.toJson, s.stop.toJson] := rfl
  rw [ofJson?, hrecord]
  dsimp only
  rw [hs.start.ofJson?_toJson, hs.stop.ofJson?_toJson]
  rfl

theorem fits_of_ofJson? {v : Json} {s : Span} (h : ofJson? v = some s) : s.Fits := by
  unfold ofJson? at h
  split at h
  case h_1 start stop _ =>
    simp only [Option.bind_eq_bind, Option.bind_eq_some_iff, Option.some.injEq] at h
    obtain ⟨p, hp, q, hq, rfl⟩ := h
    exact ⟨Position.fits_of_ofJson? hp, Position.fits_of_ofJson? hq⟩
  case h_2 => cases h

theorem Fits.isPlain_toJson {s : Span} (hs : s.Fits) : s.toJson.IsPlain 2 := by
  refine .object (by simp) fun f hf => ?_
  simp only [List.mem_cons, List.not_mem_nil, or_false] at hf
  rcases hf with rfl | rfl
  · exact hs.start.isPlain_toJson
  · exact hs.stop.isPlain_toJson

end Span

namespace Token

/-- The structured form, with a name of the category as it may be written. -/
def toJsonAs (t : Token) (name : String) : Json :=
  .object [("category", .string name), ("text", .string t.text), ("span", t.span.toJson)]

theorem ofJson?_toJsonAs {t : Token} {name : String} (ht : t.span.Fits)
    (hname : Category.ofName? name = some t.category) : ofJson? (t.toJsonAs name) = some t := by
  have hrecord : (t.toJsonAs name).record? ["category", "text", "span"] =
      some [.string name, .string t.text, t.span.toJson] := rfl
  have hcategory : (Json.string name).text?.bind Category.ofName? = some t.category := by
    rw [Json.text?, Option.bind_some, hname]
  rw [ofJson?, hrecord]
  dsimp only
  rw [hcategory, ht.ofJson?_toJson]
  rfl

theorem fits_of_ofJson? {v : Json} {t : Token} (h : ofJson? v = some t) : t.span.Fits := by
  unfold ofJson? at h
  split at h
  case h_1 category text span _ =>
    simp only [Option.bind_eq_bind, Option.bind_eq_some_iff, Option.some.injEq] at h
    obtain ⟨c, _, s, _, sp, hsp, rfl⟩ := h
    exact Span.fits_of_ofJson? hsp
  case h_2 => cases h

theorem isPlain_toJsonAs {t : Token} (ht : t.span.Fits) (name : String) :
    (t.toJsonAs name).IsPlain 3 := by
  refine .object (by simp) fun f hf => ?_
  simp only [List.mem_cons, List.not_mem_nil, or_false] at hf
  rcases hf with rfl | rfl | rfl
  · exact .string _
  · exact .string _
  · exact ht.isPlain_toJson

end Token

namespace TokenStream

/-- The places of all tokens fit. -/
def Fits (ts : TokenStream) : Prop := ∀ t ∈ ts, t.span.Fits

/-- The structured form of tokens, each with a name of its category as it may be written. -/
def namedJson (named : List (String × Token)) : Json := .array (named.map fun n => n.2.toJsonAs n.1)

/-- The names are names of the categories, and the places fit. -/
def IsNamed (named : List (String × Token)) : Prop :=
  ∀ n ∈ named, Category.ofName? n.1 = some n.2.category ∧ n.2.span.Fits

theorem toJson_eq_namedJson (ts : TokenStream) :
    ts.toJson = namedJson (ts.map fun t => (t.category.qualifiedName, t)) := by
  rw [toJson, namedJson, List.map_map]
  rfl

theorem Fits.isNamed {ts : TokenStream} (hts : ts.Fits) :
    IsNamed (ts.map fun t => (t.category.qualifiedName, t)) := by
  intro n hn
  obtain ⟨t, ht, rfl⟩ := List.mem_map.mp hn
  exact ⟨Category.ofName?_qualifiedName _, hts t ht⟩

theorem IsNamed.ofJson?_namedJson {named : List (String × Token)} (h : IsNamed named) :
    ofJson? (namedJson named) = some (named.map Prod.snd) := by
  induction named with
  | nil => rfl
  | cons n named ih =>
    obtain ⟨hname, hfits⟩ := h n (by simp)
    have hn := Token.ofJson?_toJsonAs hfits hname
    have hrest := ih fun m hm => h m (List.mem_cons_of_mem _ hm)
    simp only [ofJson?, namedJson, List.map_cons, List.mapM_cons] at hrest ⊢
    rw [hn, hrest]
    rfl

theorem IsNamed.isPlain_namedJson {named : List (String × Token)} (h : IsNamed named) :
    (namedJson named).IsPlain 4 := by
  refine .array fun v hv => ?_
  obtain ⟨n, hn, rfl⟩ := List.mem_map.mp hv
  exact Token.isPlain_toJsonAs (h n hn).2 n.1

theorem fits_of_mapM {vs : List Json} {ts : TokenStream}
    (h : vs.mapM Token.ofJson? = some ts) : ts.Fits := by
  induction vs generalizing ts with
  | nil =>
    cases h
    exact fun t ht => absurd ht List.not_mem_nil
  | cons v vs ih =>
    simp only [List.mapM_cons, Option.bind_eq_bind, Option.bind_eq_some_iff] at h
    obtain ⟨u, hu, us, hus, hts⟩ := h
    cases hts
    intro t ht
    rcases List.mem_cons.mp ht with rfl | ht
    · exact Token.fits_of_ofJson? hu
    · exact ih hus t ht

theorem fits_of_ofJson? {v : Json} {ts : TokenStream} (h : ofJson? v = some ts) : ts.Fits := by
  unfold ofJson? at h
  split at h
  case h_1 => exact fits_of_mapM h
  case h_2 => cases h

/-- Reads a text as a stream, with a reader of JSON. -/
def read? (reader : String → Option Json) (text : String) : Option TokenStream :=
  (reader text).bind ofJson?

section Reading

variable {reader : String → Option Json}

theorem IsNamed.read?_render {named : List (String × Token)} (h : IsNamed named)
    (hread : Json.IsReader reader 4) :
    read? reader (namedJson named).render = some (named.map Prod.snd) := by
  rw [read?, hread _ h.isPlain_namedJson]
  exact h.ofJson?_namedJson

theorem Fits.read?_render {ts : TokenStream} (hts : ts.Fits) (hread : Json.IsReader reader 4) :
    read? reader ts.toJson.render = some ts := by
  rw [toJson_eq_namedJson, hts.isNamed.read?_render hread, List.map_map]
  exact congrArg some (List.map_id ts)

theorem fits_of_read? {text : String} {ts : TokenStream} (h : read? reader text = some ts) :
    ts.Fits := by
  obtain ⟨v, _, hv⟩ := Option.bind_eq_some_iff.mp h
  exact fits_of_ofJson? hv

/-- A stream that fits is read back from what is written of it, and so is every stream that is read
from any text at all.  Among these texts are those in which the category of a token is written by
its name with blanks around it, or without the `Literal.` in front of it. -/
theorem read?_toJson_render (hread : Json.IsReader reader 4) :
    (∀ ts : TokenStream, ts.Fits → read? reader ts.toJson.render = some ts) ∧
    (∀ (text : String) (ts : TokenStream), read? reader text = some ts →
      read? reader ts.toJson.render = some ts) ∧
    ∀ named : List (String × Token), (∀ n ∈ named, n.2.span.Fits ∧
        (trim n.1 = n.2.category.qualifiedName ∨
          "Literal." ++ trim n.1 = n.2.category.qualifiedName)) →
      read? reader (namedJson named).render = some (named.map Prod.snd) := by
  refine ⟨fun _ hts => hts.read?_render hread, fun _ _ h => (fits_of_read? h).read?_render hread,
    fun named hnamed => ?_⟩
  have hnames : IsNamed named := fun n hn =>
    ⟨Category.ofName?_eq_some_iff.2 (hnamed n hn).2, (hnamed n hn).1⟩
  exact hnames.read?_render hread

/-- A token with a short name between blanks, whose span is a list, and the two ends of the span a
list and an object with a field too many. -/
theorem read?_toJson_render_short :
    let text := " [\x7b\"category\": \" String.Char \", \"text\":\"\\u0027\", \"span\":" ++
      "[[0,1,1],\x7b\"line\":1,\"offset\":1,\"column\":2,\"more\":null\x7d]\x7d ]"
    let t : Token := ⟨.stringChar, "'", ⟨⟨0, 1, 1⟩, ⟨1, 1, 2⟩⟩⟩
    Json.IsReader (Json.read? 4) 4 ∧ t.span.Fits ∧ read? (Json.read? 4) text = some [t] ∧
      read? (Json.read? 4) (toJson [t]).render = some [t] ∧
      read? (Json.read? 4) (namedJson [(" String.Char ", t)]).render = some [t] := by
  intro text t
  have hread : Json.IsReader (Json.read? 4) 4 := Json.isReader_read? 4
  have htext : read? (Json.read? 4) text = some [t] := by decide +kernel
  have hfits : t.span.Fits := fits_of_read? htext t (by simp)
  have hname : "Literal." ++ trim " String.Char " = t.category.qualifiedName := by decide +kernel
  obtain ⟨_, haccepted, hnamed⟩ := read?_toJson_render hread
  refine ⟨hread, hfits, htext, haccepted text [t] htext, hnamed [(" String.Char ", t)] ?_⟩
  simpa using ⟨hfits, .inr hname⟩

end Reading

end TokenStream

end Highlighting

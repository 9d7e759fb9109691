import Mathlib.Data.List.Basic
import Highlighting.Json

/-!
# Reading JSON

A reader takes a text to the value that it stands for.  All that is asked of one here is
`Json.IsReader`: it reads what `Json.render` writes of values made of texts, numbers of 64 bits,
lists, and objects whose names differ, as long as they are not nested too deep.

`Json.read?` is such a reader (`isReader_read?`).  Blanks may stand between the parts of a text, and
characters may be escaped; it reads no numbers but natural ones, and no escapes of surrogates.
-/

namespace Highlighting

namespace Json

/-- A value of texts, numbers of 64 bits, lists and objects whose names differ, in which at most
`depth` lists and objects stand within one another. -/
inductive IsPlain : Nat → Json → Prop where
  | string {depth : Nat} (s : String) : IsPlain depth (.string s)
  | nat {depth n : Nat} (bound : n < .pow 2 64) : IsPlain depth (.int n)
  | array {depth : Nat} {items : List Json} (items_plain : ∀ v ∈ items, IsPlain depth v) :
      IsPlain (depth + 1) (.array items)
  | object {depth : Nat} {fields : List (String × Json)} (distinct : (fields.map (·.1)).Nodup)
      (fields_plain : ∀ f ∈ fields, IsPlain depth f.2) : IsPlain (depth + 1) (.object fields)

/-- Reads again what is written of plain values. -/
def IsReader (read : String → Option Json) (depth : Nat) : Prop :=
  ∀ v : Json, v.IsPlain depth → read v.render = some v

/-! ### A reader -/

/-- The blanks of JSON. -/
def isSpace (c : Char) : Bool := c == ' ' || c == '\n' || c == '\r' || c == '\t'

/-- The text after the blanks in front of it. -/
def skipSpace (cs : List Char) : List Char := cs.dropWhile isSpace

/-- The text after a character that comes first in it, but for blanks. -/
def expect? (c : Char) (cs : List Char) : Option (List Char) :=
  match skipSpace cs with
  | [] => none
  | d :: rest => if d = c then some rest else none

/-- The character that a letter after a backslash stands for. -/
def unescape? : Char → Option Char
  | '"' => some '"'
  | '\\' => some '\\'
  | '/' => some '/'
  | 'n' => some '\n'
  | 'r' => some '\r'
  | 't' => some '\t'
  | 'b' => some '\x08'
  | 'f' => some '\x0c'
  | _ => none

/-- The value of a hexadecimal digit. -/
def hexDigit? (c : Char) : Option Nat :=
  if '0' ≤ c ∧ c ≤ '9' then some (c.toNat - 48)
  else if 'a' ≤ c ∧ c ≤ 'f' then some (c.toNat - 87)
  else if 'A' ≤ c ∧ c ≤ 'F' then some (c.toNat - 55)
  else none

/-- Reads the character with a code of four hexadecimal digits. -/
def readCode : List Char → Option (Char × List Char)
  | c₃ :: c₂ :: c₁ :: c₀ :: rest => do
    let code := 4096 * (← hexDigit? c₃) + 256 * (← hexDigit? c₂) + 16 * (← hexDigit? c₁) +
      (← hexDigit? c₀)
    if code.isValidChar then some (Char.ofNat code, rest) else none
  | _ => none

/-- Reads one character between quotes. -/
def readChar : List Char → Option (Char × List Char)
  | [] => none
  | c :: rest =>
    if c = '\\' then
      match rest with
      | [] => none
      | e :: rest => if e = 'u' then readCode rest else (unescape? e).map (·, rest)
    else if c.toNat < 0x20 then none
    else some (c, rest)

/-- Reads at most `fuel` characters up to a quote. -/
def readQuotedWithin : Nat → List Char → Option (List Char × List Char)
  | 0, _ => none
  | fuel + 1, cs =>
    if cs.head? = some '"' then some ([], cs.tail)
    else do
      let (c, rest) ← readChar cs
      let (s, rest) ← readQuotedWithin fuel rest
      some (c :: s, rest)

/-- Reads the text after an opening quote. -/
def readQuoted (cs : List Char) : Option (String × List Char) :=
  (readQuotedWithin cs.length cs).map fun (s, rest) => (String.ofList s, rest)

/-- Reads a natural number, which has no zeros in front. -/
def readNat (cs : List Char) : Option (Nat × List Char) :=
  let digits := cs.takeWhile Char.isDigit
  let n := Nat.ofDigitChars 10 digits 0
  if Nat.toDigits 10 n = digits then some (n, cs.dropWhile Char.isDigit) else none

/-- Reads a word that stands for a value. -/
def readWord (cs : List Char) : Option (Json × List Char) :=
  [("null", null), ("true", bool true), ("false", bool false)].findSome? fun (w, v) =>
    if w.toList.isPrefixOf cs then some (v, cs.drop w.length) else none

/-- Reads a value that is no list and no object. -/
def readScalar (cs : List Char) : Option (Json × List Char) :=
  match cs with
  | [] => none
  | c :: rest =>
    if c = '"' then (readQuoted rest).map fun (s, rest) => (string s, rest)
    else if c.isDigit then (readNat cs).map fun (n, rest) => (int n, rest)
    else readWord cs

/-- Reads at most `fuel` items, at least one, up to a closing bracket. -/
def readItems {α : Type} (item : List Char → Option (α × List Char)) (stop : Char) :
    Nat → List Char → Option (List α × List Char)
  | 0, _ => none
  | fuel + 1, cs => do
    let (x, cs) ← item cs
    match expect? ',' cs with
    | some cs => (readItems item stop fuel cs).map fun (xs, rest) => (x :: xs, rest)
    | none => (expect? stop cs).map ([x], ·)

/-- Reads items up to a closing bracket. -/
def readList {α : Type} (item : List Char → Option (α × List Char)) (stop : Char)
    (cs : List Char) : Option (List α × List Char) :=
  readItems item stop cs.length cs <|> (expect? stop cs).map ([], ·)

/-- Reads a name and a value. -/
def readField (value : List Char → Option (Json × List Char)) (cs : List Char) :
    Option ((String × Json) × List Char) := do
  let (name, cs) ← readQuoted (← expect? '"' cs)
  let (v, rest) ← value (← expect? ':' cs)
  some ((name, v), rest)

/-- Reads a value in which at most `depth` lists and objects stand within one another. -/
def readValue : Nat → List Char → Option (Json × List Char)
  | 0, cs => readScalar (skipSpace cs)
  | depth + 1, cs =>
    match skipSpace cs with
    | '[' :: rest => (readList (readValue depth) ']' rest).map fun (vs, rest) => (array vs, rest)
    | '\x7b' :: rest =>
      (readList (readField (readValue depth)) '\x7d' rest).map fun (fs, rest) => (object fs, rest)
    | cs => readScalar cs

/-- Reads a text that is one value. -/
def read? (depth : Nat) (text : String) : Option Json :=
  (readValue depth text.toList).bind fun (v, rest) =>
    if (skipSpace rest).isEmpty then some v else none

/-! ### What the reader makes of what is written -/

theorem skipSpace_cons {c : Char} (hc : isSpace c = false) (cs : List Char) :
    skipSpace (c :: cs) = c :: cs := by
  simp [skipSpace, hc]

theorem expect?_cons {c : Char} (hc : isSpace c = false) (d : Char) (cs : List Char) :
    expect? d (c :: cs) = if c = d then some cs else none := by
  simp [expect?, skipSpace_cons hc]

theorem ne_of_isDigit {c d : Char} (hc : c.isDigit) (hd : ¬ d.isDigit) : c ≠ d := by
  rintro rfl
  exact hd hc

theorem isSpace_of_isDigit {c : Char} (hc : c.isDigit) : isSpace c = false := by
  have hspace : c ≠ ' ' := ne_of_isDigit hc (by decide)
  have hnewline : c ≠ '\n' := ne_of_isDigit hc (by decide)
  have hreturn : c ≠ '\r' := ne_of_isDigit hc (by decide)
  have htab : c ≠ '\t' := ne_of_isDigit hc (by decide)
  simp [isSpace, hspace, hnewline, hreturn, htab]

theorem hexDigit?_digitChar : ∀ n < 16, hexDigit? n.digitChar = some n := by decide

theorem readCode_hex4 (c : Char) (hc : c.toNat < 0x20) (rest : List Char) :
    readCode (hex4 c.toNat ++ rest) = some (c, rest) := by
  have hcode : 4096 * (c.toNat / 4096 % 16) + 256 * (c.toNat / 256 % 16) +
      16 * (c.toNat / 16 % 16) + c.toNat % 16 = c.toNat := by omega
  have hvalid : c.toNat.isValidChar := .inl (by omega)
  simp [readCode, hex4, hexDigit?_digitChar, Nat.mod_lt, hcode, hvalid]

theorem readChar_escapeChar (c : Char) (rest : List Char) :
    readChar (escapeChar c ++ rest) = some (c, rest) := by
  unfold escapeChar
  split
  case h_8 _ hquote hslash _ _ _ _ _ =>
    split
    case isTrue hc => simp [readChar, readCode_hex4 c hc]
    case isFalse hc =>
      have : c ≠ '\\' := hslash
      simp [readChar, this, hc]
  all_goals simp [readChar, unescape?]

theorem head?_escapeChar (c : Char) (rest : List Char) :
    (escapeChar c ++ rest).head? ≠ some '"' := by
  unfold escapeChar
  split
  case h_8 _ hquote _ _ _ _ _ _ =>
    split
    case isTrue => simp
    case isFalse => simpa using hquote
  all_goals simp

theorem length_le_flatMap_escapeChar (s : List Char) :
    s.length ≤ (s.flatMap escapeChar).length := by
  induction s with
  | nil => simp
  | cons c s ih =>
    have hc : escapeChar c ≠ [] := by
      intro h
      have := readChar_escapeChar c []
      simp [h, readChar] at this
    have := List.length_pos_iff.mpr hc
    simp only [List.length_cons, List.flatMap_cons, List.length_append]
    omega

theorem readQuotedWithin_flatMap (s rest : List Char) {fuel : Nat} (hfuel : s.length < fuel) :
    readQuotedWithin fuel (s.flatMap escapeChar ++ '"' :: rest) = some (s, rest) := by
  induction s generalizing fuel with
  | nil =>
    obtain ⟨fuel, rfl⟩ := Nat.exists_eq_add_one_of_ne_zero (Nat.ne_zero_of_lt hfuel)
    simp [readQuotedWithin]
  | cons c s ih =>
    obtain ⟨fuel, rfl⟩ := Nat.exists_eq_add_one_of_ne_zero (Nat.ne_zero_of_lt hfuel)
    have hs : s.length < fuel := by simpa using hfuel
    rw [List.flatMap_cons, List.append_assoc, readQuotedWithin, if_neg (head?_escapeChar c _),
      readChar_escapeChar]
    simp [ih hs]

theorem toList_quote (s : String) :
    (quote s).toList = '"' :: (s.toList.flatMap escapeChar ++ ['"']) := by
  simp [quote]

theorem readQuoted_quote (s : String) (rest : List Char) :
    readQuoted (s.toList.flatMap escapeChar ++ '"' :: rest) = some (s, rest) := by
  have hlen := length_le_flatMap_escapeChar s.toList
  rw [readQuoted, readQuotedWithin_flatMap]
  · simp
  · rw [List.length_append, List.length_cons]
    omega

/-- Numbers end where no digit follows. -/
theorem readNat_toDigits (n : Nat) {rest : List Char} (hrest : ∀ c ∈ rest.head?, ¬ c.isDigit) :
    readNat (Nat.toDigits 10 n ++ rest) = some (n, rest) := by
  have hdigits : ∀ c ∈ Nat.toDigits 10 n, c.isDigit := fun c hc =>
    Nat.isDigit_of_mem_toDigits (by decide) (by decide) hc
  have hhead : rest.takeWhile Char.isDigit = [] ∧ rest.dropWhile Char.isDigit = rest := by
    cases rest with
    | nil => simp
    | cons c cs => simp [hrest c rfl]
  have htake : (Nat.toDigits 10 n ++ rest).takeWhile Char.isDigit = Nat.toDigits 10 n := by
    rw [List.takeWhile_append_of_pos hdigits, hhead.1, List.append_nil]
  have hdrop : (Nat.toDigits 10 n ++ rest).dropWhile Char.isDigit = rest := by
    rw [List.dropWhile_append_of_pos hdigits, hhead.2]
  simp [readNat, htake, hdrop, Nat.ofDigitChars_toDigits]

theorem renderItems_eq_map (items : List Json) : renderItems items = items.map render := by
  induction items with
  | nil => simp [renderItems]
  | cons v vs ih => simp [renderItems, ih]

/-- A field in one line. -/
def renderField (f : String × Json) : String := quote f.1 ++ ":" ++ f.2.render

theorem renderFields_eq_map (fields : List (String × Json)) :
    renderFields fields = fields.map renderField := by
  induction fields with
  | nil => simp [renderFields]
  | cons f fs ih => simp [renderFields, renderField, ih]

section Lists

variable {α : Type} {item : List Char → Option (α × List Char)} {stop : Char} {text : α → String}

/-- Items with commas between them are read if each is read in front of a comma and in front of
the closing bracket. -/
theorem readItems_intercalate (hspace : isSpace stop = false) (hcomma : stop ≠ ',') {xs : List α}
    (hitem : ∀ x ∈ xs, ∀ c rest, c = ',' ∨ c = stop →
      item ((text x).toList ++ c :: rest) = some (x, c :: rest))
    (hne : xs ≠ []) {fuel : Nat} (hfuel : xs.length ≤ fuel) (rest : List Char) :
    readItems item stop fuel ((",".intercalate (xs.map text)).toList ++ stop :: rest) =
      some (xs, rest) := by
  induction xs generalizing fuel with
  | nil => exact absurd rfl hne
  | cons x xs ih =>
    obtain ⟨fuel, rfl⟩ := Nat.exists_eq_add_one_of_ne_zero (Nat.ne_zero_of_lt hfuel)
    cases xs with
    | nil =>
      have hx := hitem x (by simp) stop rest (.inr rfl)
      simp [readItems, hx, expect?_cons hspace, hcomma]
    | cons y ys =>
      have hys := ih (fun z hz => hitem z (List.mem_cons_of_mem _ hz)) (by simp)
        (Nat.le_of_succ_le_succ hfuel)
      have hcons : (",".intercalate ((x :: y :: ys).map text)).toList ++ stop :: rest =
          (text x).toList ++ ',' :: ((",".intercalate ((y :: ys).map text)).toList ++
            stop :: rest) := by
        rw [List.map_cons, List.map_cons, String.intercalate_cons_cons, ← List.map_cons]
        simp only [String.toList_append, List.append_assoc]
        rfl
      rw [hcons, readItems, hitem x (by simp) ',' _ (.inl rfl)]
      simp only [Option.bind_eq_bind, Option.bind_some, expect?_cons (c := ',') rfl, if_true, hys]
      rfl

theorem length_le_intercalate (xs : List α) :
    xs.length ≤ (",".intercalate (xs.map text)).toList.length + 1 := by
  induction xs with
  | nil => simp
  | cons x xs ih =>
    cases xs with
    | nil => simp
    | cons y ys =>
      rw [List.map_cons, List.map_cons, String.intercalate_cons_cons, ← List.map_cons]
      rw [String.toList_append, String.toList_append, List.length_append, List.length_append]
      simp only [List.length_cons, String.reduceToList, List.length_nil] at ih ⊢
      omega

theorem readList_intercalate (hspace : isSpace stop = false) (hcomma : stop ≠ ',') {xs : List α}
    (hitem : ∀ x ∈ xs, ∀ c rest, c = ',' ∨ c = stop →
      item ((text x).toList ++ c :: rest) = some (x, c :: rest))
    (hstop : ∀ rest, item (stop :: rest) = none) (rest : List Char) :
    readList item stop ((",".intercalate (xs.map text)).toList ++ stop :: rest) =
      some (xs, rest) := by
  cases xs with
  | nil =>
    simp [readList, readItems, hstop, expect?_cons hspace]
  | cons x xs =>
    have hlen : (x :: xs).length ≤ (",".intercalate ((x :: xs).map text)).toList.length + 1 :=
      length_le_intercalate _
    rw [readList, readItems_intercalate hspace hcomma hitem (by simp) (by simp at hlen ⊢; omega)]
    rfl

end Lists

theorem readField_renderField {value : List Char → Option (Json × List Char)} {name : String}
    {v : Json} {rest : List Char}
    (hvalue : value (v.render.toList ++ rest) = some (v, rest)) :
    readField value ((renderField (name, v)).toList ++ rest) = some ((name, v), rest) := by
  have hcons : (renderField (name, v)).toList ++ rest =
      '"' :: (name.toList.flatMap escapeChar ++ '"' :: (':' :: (v.render.toList ++ rest))) := by
    simp [renderField, toList_quote]
  rw [hcons, readField, expect?_cons rfl]
  simp only [Option.bind_eq_bind, if_true, Option.bind_some, readQuoted_quote,
    expect?_cons (c := ':') rfl, hvalue]

theorem readValue_eq_readScalar (depth : Nat) {c : Char} (hspace : isSpace c = false)
    (harray : c ≠ '[') (hobject : c ≠ '\x7b') (cs : List Char) :
    readValue depth (c :: cs) = readScalar (c :: cs) := by
  cases depth with
  | zero => rw [readValue, skipSpace_cons hspace]
  | succ depth =>
    rw [readValue, skipSpace_cons hspace]
    split
    · rename_i h
      exact absurd (List.cons.inj h).1 harray
    · rename_i h
      exact absurd (List.cons.inj h).1 hobject
    · rfl

theorem readValue_quote (depth : Nat) (s : String) (rest : List Char) :
    readValue depth ((quote s).toList ++ rest) = some (string s, rest) := by
  rw [toList_quote, List.cons_append, List.append_assoc,
    readValue_eq_readScalar depth (by decide) (by decide) (by decide), readScalar, if_pos rfl,
    List.cons_append, List.nil_append, readQuoted_quote]
  rfl

theorem readValue_nat (depth n : Nat) {rest : List Char} (hrest : ∀ c ∈ rest.head?, ¬ c.isDigit) :
    readValue depth ((int n).render.toList ++ rest) = some (int n, rest) := by
  have hrender : (int n).render.toList = Nat.toDigits 10 n := Nat.toList_repr
  have hread := readNat_toDigits n hrest
  rw [hrender]
  cases hdigits : Nat.toDigits 10 n with
  | nil => exact absurd hdigits (List.length_pos_iff.mp Nat.length_toDigits_pos)
  | cons c cs =>
    have hc : c.isDigit :=
      Nat.isDigit_of_mem_toDigits (b := 10) (n := n) (by decide) (by decide) (by simp [hdigits])
    have hquote : c ≠ '"' := ne_of_isDigit hc (by decide)
    have harray : c ≠ '[' := ne_of_isDigit hc (by decide)
    have hobject : c ≠ '\x7b' := ne_of_isDigit hc (by decide)
    rw [List.cons_append, readValue_eq_readScalar depth (isSpace_of_isDigit hc) harray hobject,
      readScalar, if_neg hquote, if_pos hc, ← List.cons_append, ← hdigits, hread]
    rfl

/-- A plain value is read in front of any text that does not go on with a digit: by induction on
how the value is nested, where what follows an item is a comma or a closing bracket. -/
theorem readValue_render {depth : Nat} {v : Json} (hv : v.IsPlain depth) {rest : List Char}
    (hrest : ∀ c ∈ rest.head?, ¬ c.isDigit) :
    readValue depth (v.render.toList ++ rest) = some (v, rest) := by
  induction hv generalizing rest with
  | string s => exact readValue_quote _ s rest
  | nat => exact readValue_nat _ _ hrest
  | @array depth items _ ih =>
    have hcons : (array items).render.toList ++ rest =
        '[' :: ((",".intercalate (items.map render)).toList ++ ']' :: rest) := by
      simp [render, renderItems_eq_map]
    have hitem : ∀ v ∈ items, ∀ c rest, c = ',' ∨ c = ']' →
        readValue depth (v.render.toList ++ c :: rest) = some (v, c :: rest) := by
      intro v hv c rest hc
      refine ih v hv ?_
      rcases hc with rfl | rfl <;> simp
    have hstop : ∀ rest, readValue depth (']' :: rest) = none := fun rest =>
      readValue_eq_readScalar depth (by decide) (by decide) (by decide) rest
    have hlist := readList_intercalate (by decide) (by decide) hitem hstop rest
    rw [hcons, readValue, skipSpace_cons rfl]
    simp only [hlist]
    rfl
  | @object depth fields _ _ ih =>
    have hcons : (object fields).render.toList ++ rest =
        '\x7b' :: ((",".intercalate (fields.map renderField)).toList ++ '\x7d' :: rest) := by
      simp [render, renderFields_eq_map]
    have hitem : ∀ f ∈ fields, ∀ c rest, c = ',' ∨ c = '\x7d' →
        readField (readValue depth) ((renderField f).toList ++ c :: rest) =
          some (f, c :: rest) := by
      intro f hf c rest hc
      refine readField_renderField (ih f hf ?_)
      rcases hc with rfl | rfl <;> simp
    have hstop : ∀ rest, readField (readValue depth) ('\x7d' :: rest) = none := by
      intro rest
      rw [readField, expect?_cons (by decide)]
      rfl
    have hlist := readList_intercalate (by decide) (by decide) hitem hstop rest
    rw [hcons, readValue, skipSpace_cons rfl]
    simp only [hlist]
    rfl

/-- A text is read as the value it was written from, if this is plain and not nested too deep. -/
theorem isReader_read? (depth : Nat) : IsReader (read? depth) depth := by
  intro v hv
  have hread : readValue depth (v.render.toList ++ []) = some (v, []) :=
    readValue_render hv (by simp)
  rw [List.append_nil] at hread
  rw [read?, hread]
  rfl

end Json

end Highlighting

import Mathlib.Data.List.Infix
import Mathlib.Data.List.TakeWhile
import Highlighting.Proofs.Language.DeclaredNames
import Highlighting.Proofs.Pattern.Contents

/-!
# Conditionals of the preprocessor

A line is a directive if a mark and one of the words `if`, `else`, `elif` and `endif` stand at its
beginning, blanks apart (`CFamily.directive?`); what follows the word is not looked at, so `#ifdef`
and `#ifndef` open a conditional, too.  Conditionals nest, and a line of a block ends it if it is a
turn or a close and no conditional is open in the block (`CFamily.nesting`).

A route that reads a directive leads somewhere exactly at the start of a line that is the directive
(`Route.Leads.exists_isHead`, `Route.leads_of_isHead`).
-/

namespace Highlighting

namespace CFamily

/-- What a line may do to the conditionals around it. -/
inductive Directive where
  /-- `#if`, `#ifdef` and `#ifndef` -/
  | opens
  /-- `#else` and `#elif` -/
  | turns
  /-- `#endif` -/
  | closes
deriving DecidableEq

/-- The words that a directive begins with. -/
def Directive.words : Directive → List (List Char)
  | .opens => [['i', 'f']]
  | .turns => [['e', 'l', 's', 'e'], ['e', 'l', 'i', 'f']]
  | .closes => [['e', 'n', 'd', 'i', 'f']]

/-- Whether a text begins with a word of a directive. -/
def Directive.begins (d : Directive) (text : List Char) : Bool := d.words.any (·.isPrefixOf text)

/-- What stands behind a mark at the beginning of a line, blanks apart. -/
def behindMark? (line : List Char) : Option (List Char) :=
  match line.dropWhile lineBlankIntervals.has with
  | '#' :: rest => some (rest.dropWhile lineBlankIntervals.has)
  | _ => none

/-- The directive that a line is. -/
def directive? (line : List Char) : Option Directive :=
  (behindMark? line).bind fun rest => [.opens, .turns, .closes].find? (·.begins rest)

example : directive? "  # ifdef X\n".toList = some .opens := by decide

/-- A directive up to its word: the mark, with blanks on both sides, and the word. -/
def Directive.IsHead (d : Directive) (head : List Char) : Prop :=
  ∃ before between w, head = before ++ '#' :: (between ++ w) ∧ w ∈ d.words ∧
    (∀ ch ∈ before, lineBlankIntervals.has ch = true) ∧
    ∀ ch ∈ between, lineBlankIntervals.has ch = true

variable {d d' : Directive} {v line head rest after : List Char}

theorem Directive.begins_iff {text : List Char} :
    d.begins text = true ↔ ∃ w ∈ d.words, w <+: text := by
  simp [begins]

/-- No two directives can begin one text. -/
theorem Directive.eq_of_begins {text : List Char} (h : d.begins text = true)
    (h' : d'.begins text = true) : d = d' := by
  have hwords : ∀ d d' : Directive, ∀ w ∈ d.words, ∀ w' ∈ d'.words, w <+: w' → d = d' := by
    intro d d'
    cases d <;> cases d' <;> decide
  obtain ⟨w, hw, hprefix⟩ := begins_iff.1 h
  obtain ⟨w', hw', hprefix'⟩ := begins_iff.1 h'
  rcases List.prefix_or_prefix_of_prefix hprefix hprefix' with hle | hle
  · exact hwords d d' w hw w' hw' hle
  · exact (hwords d' d w' hw' w hw hle).symm

theorem Directive.mem_all (d : Directive) :
    d ∈ [Directive.opens, Directive.turns, Directive.closes] := by
  cases d <;> decide

theorem behindMark?_eq_some_iff : behindMark? line = some rest ↔
    ∃ before between, line = before ++ '#' :: (between ++ rest) ∧
      (∀ ch ∈ before, lineBlankIntervals.has ch = true) ∧
      (∀ ch ∈ between, lineBlankIntervals.has ch = true) ∧
      rest.head?.any lineBlankIntervals.has = false := by
  constructor
  · intro h
    rw [behindMark?] at h
    split at h
    · next text htext =>
      obtain rfl := Option.some.inj h
      refine ⟨line.takeWhile lineBlankIntervals.has, text.takeWhile lineBlankIntervals.has, ?_,
        fun ch => List.mem_takeWhile_imp, fun ch => List.mem_takeWhile_imp, ?_⟩
      · rw [List.takeWhile_append_dropWhile, ← htext, List.takeWhile_append_dropWhile]
      · have := List.head?_dropWhile_not lineBlankIntervals.has text
        cases hhead : (text.dropWhile lineBlankIntervals.has).head? with
        | none => rfl
        | some ch => simpa [hhead] using this
    · cases h
  · rintro ⟨before, between, rfl, hbefore, hbetween, hrest⟩
    have hmark : lineBlankIntervals.has '#' = false := by decide
    have hdrop : rest.dropWhile lineBlankIntervals.has = rest := by
      cases rest with
      | nil => rfl
      | cons ch rest => exact List.dropWhile_cons_of_neg (by simpa using hrest)
    rw [behindMark?, List.dropWhile_append_of_pos hbefore,
      List.dropWhile_cons_of_neg (by simp [hmark])]
    simp only [List.dropWhile_append_of_pos hbetween, hdrop]

/-- A line is a directive if it begins with one, up to its word. -/
theorem directive?_eq_some_iff :
    directive? line = some d ↔ ∃ head, d.IsHead head ∧ head <+: line := by
  constructor
  · intro h
    obtain ⟨rest, hrest, hfind⟩ := Option.bind_eq_some_iff.1 h
    obtain ⟨before, between, rfl, hbefore, hbetween, -⟩ := behindMark?_eq_some_iff.1 hrest
    have hbegins := List.find?_some hfind
    obtain ⟨w, hw, text, rfl⟩ := Directive.begins_iff.1 hbegins
    exact ⟨_, ⟨before, between, w, rfl, hw, hbefore, hbetween⟩, text, by simp⟩
  · rintro ⟨_, ⟨before, between, w, rfl, hw, hbefore, hbetween⟩, text, rfl⟩
    have hblank : (w ++ text).head?.any lineBlankIntervals.has = false := by
      have hwords : ∀ d : Directive, ∀ w ∈ d.words, ∃ ch rest, w = ch :: rest ∧
          lineBlankIntervals.has ch = false := by
        intro d
        cases d <;> simp [Directive.words] <;> decide
      obtain ⟨ch, rest, rfl, hch⟩ := hwords d w hw
      simp [hch]
    have hbehind : behindMark? (before ++ '#' :: (between ++ w) ++ text) = some (w ++ text) :=
      behindMark?_eq_some_iff.2 ⟨before, between, by simp, hbefore, hbetween, hblank⟩
    rw [directive?, hbehind, Option.bind_some]
    have hbegins : d.begins (w ++ text) = true :=
      Directive.begins_iff.2 ⟨w, hw, List.prefix_append w text⟩
    cases hfind : [Directive.opens, .turns, .closes].find? (·.begins (w ++ text)) with
    | none => exact absurd hbegins (List.find?_eq_none.1 hfind d d.mem_all)
    | some d' =>
      have hbegins' := List.find?_some hfind
      exact congrArg some (Directive.eq_of_begins hbegins' hbegins)

/-- A line of a source with its line feed. -/
def IsLine (line : List Char) : Prop := ∃ v, '\n' ∉ v ∧ line = v ++ ['\n']

theorem isLine_iff : IsLine line ↔ '\n' ∉ line.dropLast ∧ line.getLast? = some '\n' := by
  constructor
  · rintro ⟨v, hv, rfl⟩
    simpa using hv
  · rintro ⟨hv, hlast⟩
    exact ⟨line.dropLast, hv, (List.dropLast_append_getLast? _ hlast).symm⟩

instance : DecidablePred IsLine := fun _ => decidable_of_iff _ isLine_iff.symm

theorem Directive.IsHead.not_mem (h : d.IsHead head) : '\n' ∉ head := by
  obtain ⟨before, between, w, rfl, hw, hbefore, hbetween⟩ := h
  have hblank : lineBlankIntervals.has '\n' = false := by decide
  have hwords : ∀ d : Directive, ∀ w ∈ d.words, '\n' ∉ w := by
    intro d
    cases d <;> decide
  simp only [List.mem_append, List.mem_cons, not_or]
  refine ⟨fun hmem => ?_, by decide, fun hmem => ?_, hwords d w hw⟩
  · simp [hbefore _ hmem] at hblank
  · simp [hbetween _ hmem] at hblank

/-- What stands behind a line feed is not looked at. -/
theorem prefix_of_prefix_feed (hhead : '\n' ∉ head) (h : head <+: v ++ '\n' :: after) :
    head <+: v := by
  rcases List.prefix_or_prefix_of_prefix h (List.prefix_append v _) with hle | ⟨w, rfl⟩
  · exact hle
  · cases w with
    | nil => simp
    | cons ch w =>
      obtain ⟨rfl, -⟩ := List.cons_prefix_cons.1 ((List.prefix_append_right_inj v).1 h)
      simp at hhead

/-- Whether a line is a directive can be seen in the text from its beginning on. -/
theorem IsLine.directive?_append (h : IsLine line) (after : List Char) :
    directive? (line ++ after) = directive? line := by
  obtain ⟨v, -, rfl⟩ := h
  refine Option.ext fun d => ?_
  rw [directive?_eq_some_iff, directive?_eq_some_iff]
  constructor
  · rintro ⟨head, hhead, hprefix⟩
    rw [List.append_assoc] at hprefix
    have hle := prefix_of_prefix_feed hhead.not_mem hprefix
    exact ⟨head, hhead, hle.trans (List.prefix_append v _)⟩
  · rintro ⟨head, hhead, hprefix⟩
    exact ⟨head, hhead, hprefix.trans (List.prefix_append _ after)⟩

/-- How many conditionals are open behind a directive in a block, if so many are before it; none if
the directive ends the block itself. -/
def nest : Nat → Option Directive → Option Nat
  | n, none => some n
  | n, some .opens => some (n + 1)
  | 0, some .turns | 0, some .closes => none
  | n + 1, some .turns => some (n + 1)
  | n + 1, some .closes => some n

end CFamily

/-! ### What routes read of a line -/

namespace Route

variable {r p q : Route} {c e : Cursor} {s : CharSet} {u : List Char}

/-- Whether a route reads a line feed only at the end of what it reads. -/
def staysInLine : Route → Bool
  | .text cs => !cs.dropLast.contains '\n'
  | .seq p q => (p.avoids ['\n'] && q.staysInLine) || (p.staysInLine && q.spellings? == some [[]])
  | .fork p q => p.staysInLine && q.staysInLine
  | .star _ p _ | .plus _ p _ | .again _ p _ => p.avoids ['\n']
  | _ => true

theorem Leads.not_mem_dropLast (h : r.Leads c e) (hr : r.staysInLine = true)
    (hu : c.Reads u e) :
    '\n' ∉ u.dropLast := by
  induction r generalizing c e u with
  | done | record _ | meet _ =>
    obtain rfl := hu.text_unique (show c.Reads [] e from h)
    simp
  | look _ _ =>
    obtain rfl := hu.text_unique (show c.Reads [] e from h.2)
    simp
  | text cs =>
    obtain rfl := hu.text_unique (show c.Reads cs e from h)
    simpa [staysInLine] using hr
  | one s =>
    obtain ⟨ch, -, hread⟩ := h
    obtain rfl := hu.text_unique hread
    simp
  | seq p q ihp ihq =>
    obtain ⟨d, hp, hq⟩ := h
    obtain ⟨v, hv⟩ := hp.reads
    obtain ⟨w, hw⟩ := hq.reads
    obtain rfl := hu.text_unique (hv.trans hw)
    rw [staysInLine, Bool.or_eq_true, Bool.and_eq_true, Bool.and_eq_true, beq_iff_eq] at hr
    rcases hr with ⟨havoids, hstays⟩ | ⟨hstays, hnothing⟩
    · have hfree := hp.not_mem_of_avoids havoids hv
      have hrest := ihq hq hstays hw
      cases w with
      | nil =>
        rw [List.append_nil]
        exact fun hmem => hfree (List.mem_of_mem_dropLast hmem)
      | cons x w =>
        rw [List.dropLast_append_of_ne_nil (by simp), List.mem_append, not_or]
        exact ⟨hfree, hrest⟩
    · obtain rfl := List.mem_singleton.1 (hq.mem_spellings hnothing hw)
      rw [List.append_nil]
      exact ihp hp hstays hv
  | fork p q ihp ihq =>
    obtain ⟨hp, hq⟩ := Bool.and_eq_true_iff.1 hr
    exact h.elim (ihp · hp hu) (ihq · hq hu)
  | star k p greedy _ | plus k p greedy _ | again k p greedy _ =>
    exact fun hmem => h.not_mem_of_avoids hr hu (List.mem_of_mem_dropLast hmem)

/-- The words that a route begins with, one of which is followed by anything at all. -/
def firstWords : Route → List (List Char)
  | .seq (.text w) (.seq (.seq (.fork (.text u) (.text v)) (.meet _)) q) =>
    if q.idles then [w ++ u, w ++ v] else []
  | .seq (.text w) q => if q.idles then [w] else []
  | _ => []

/-- Whether a route reads directives that begin with some words: at the start of a line a mark, with
blanks on both sides, and one of the words. -/
def readsDirective (words : List (List Char)) : Route → Bool
  | .seq (.look _ .lineStart) (.seq (.star _ (.one s) _)
      (.seq (.text ['#']) (.seq (.star _ (.one t) _) p))) =>
    s == .ofRanges lineBlankIntervals && t == .ofRanges lineBlankIntervals &&
      p.firstWords == words
  | _ => false

variable {d : CFamily.Directive} {head : List Char}

end Route

end Highlighting

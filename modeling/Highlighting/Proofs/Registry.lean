import Mathlib.Data.List.Dedup
import Mathlib.Data.List.Induction
import Highlighting.Proofs.Grammar.Expansion
import Highlighting.Registry

/-!
# What calls leave in a registry

Lexers are registered one call after the other.  A call with a tag that is taken removes the lexer
that has it and adds the new one at the end, so what calls leave are the lexers whose tag no later
call has taken, in the order of their calls (`lexers_registered`).  A look-up runs through them
from the end and finds the one of the last call (`find?_reverse_lasting`).

The tag of a lexer need not lead to it: a lexer that was registered behind it may answer to the same
name by an alias or in other letter case (`get?_registered_of_mem_tags`).
-/

namespace Highlighting

namespace Registry

variable {calls : List Lexer} {l m : Lexer} {i : Nat} {t : String}

/-- The registry that calls make of an empty one. -/
def registered (calls : List Lexer) : Registry :=
  calls.foldl (fun r l => (r.register l).value.1) ⟨[]⟩

/-- Call number `i` registers a lexer, and no later call has its tag. -/
def Stays (calls : List Lexer) (i : Nat) (l : Lexer) : Prop :=
  calls[i]? = some l ∧ ∀ j, i < j → ∀ m, calls[j]? = some m → m.tag ≠ l.tag

/-- The lexers of the calls that have the last word on their tag, in the order of the calls. -/
def lasting (calls : List Lexer) : List Lexer := calls.pwFilter fun l m => l.tag ≠ m.tag

/-! ### Lasting lexers -/

@[simp] theorem lasting_nil : lasting [] = [] := rfl

theorem lasting_cons (l : Lexer) (calls : List Lexer) :
    lasting (l :: calls) =
      if ∀ m ∈ calls, l.tag ≠ m.tag then l :: lasting calls else lasting calls := by
  have hiff : (∀ m ∈ lasting calls, l.tag ≠ m.tag) ↔ ∀ m ∈ calls, l.tag ≠ m.tag := by
    apply List.forall_mem_pwFilter
    intro x y z hxz
    by_contra h
    simp only [not_or, not_not] at h
    exact hxz (h.1.trans h.2)
  by_cases h : ∀ m ∈ calls, l.tag ≠ m.tag
  · rw [if_pos h]
    exact List.pwFilter_cons_of_pos (hiff.2 h)
  · rw [if_neg h]
    exact List.pwFilter_cons_of_neg (mt hiff.1 h)

theorem map_tag_lasting (calls : List Lexer) :
    (lasting calls).map Lexer.tag = (calls.map Lexer.tag).dedup := by
  rw [lasting, List.dedup, List.pwFilter_map]

theorem nodup_tags_lasting (calls : List Lexer) : ((lasting calls).map Lexer.tag).Nodup := by
  rw [map_tag_lasting]
  exact List.nodup_dedup _

/-- A further call takes the lexer with its tag away and adds its own at the end. -/
theorem lasting_concat (calls : List Lexer) (l : Lexer) :
    lasting (calls ++ [l]) = (lasting calls).filter (fun m => m.tag ≠ l.tag) ++ [l] := by
  induction calls with
  | nil => simp [lasting_cons]
  | cons a calls ih =>
    rw [List.cons_append, lasting_cons, lasting_cons, ih]
    by_cases ha : ∀ m ∈ calls, a.tag ≠ m.tag
    · by_cases hl : a.tag = l.tag
      · have hnot : ¬ ∀ m ∈ calls ++ [l], a.tag ≠ m.tag := fun h => h l (by simp) hl
        rw [if_neg hnot, if_pos ha, List.filter_cons_of_neg (by simp [hl])]
      · have hnone : ∀ m ∈ calls ++ [l], a.tag ≠ m.tag := by
          simpa [or_imp, forall_and] using ⟨ha, hl⟩
        rw [if_pos hnone, if_pos ha, List.filter_cons_of_pos (by simp [hl]), List.cons_append]
    · have hnot : ¬ ∀ m ∈ calls ++ [l], a.tag ≠ m.tag :=
        fun h => ha fun m hm => h m (List.mem_append_left [l] hm)
      rw [if_neg hnot, if_neg ha]

/-! ### Calls that stay -/

theorem forall_lt_iff {P : Nat → Prop} : (∀ j, i < j → P j) ↔ ∀ j, i ≤ j → P (j + 1) := by
  refine ⟨fun h j hj => h (j + 1) (by omega), fun h j hj => ?_⟩
  cases j with
  | zero => omega
  | succ j => exact h j (by omega)

theorem stays_nil : ¬ Stays [] i l := by simp [Stays]

theorem stays_cons_zero {a : Lexer} :
    Stays (a :: calls) 0 l ↔ a = l ∧ ∀ m ∈ calls, l.tag ≠ m.tag := by
  simp only [Stays, forall_lt_iff, List.getElem?_cons_zero, List.getElem?_cons_succ,
    Option.some.injEq, List.mem_iff_getElem?]
  refine and_congr_right fun _ => ⟨?_, fun h j _ m hm => (h m ⟨j, hm⟩).symm⟩
  rintro h m ⟨j, hm⟩
  exact (h j (Nat.zero_le j) m hm).symm

theorem stays_cons_succ {a : Lexer} : Stays (a :: calls) (i + 1) l ↔ Stays calls i l := by
  simp only [Stays, forall_lt_iff (i := i + 1), List.getElem?_cons_succ, Nat.add_one_le_iff]

theorem mem_lasting : l ∈ lasting calls ↔ ∃ i, Stays calls i l := by
  induction calls with
  | nil => simp [stays_nil]
  | cons a calls ih =>
    have hcons : (∃ i, Stays (a :: calls) i l) ↔
        (a = l ∧ ∀ m ∈ calls, l.tag ≠ m.tag) ∨ ∃ i, Stays calls i l := by
      refine ⟨fun ⟨i, hi⟩ => ?_, ?_⟩
      · cases i with
        | zero => exact .inl (stays_cons_zero.1 hi)
        | succ i => exact .inr ⟨i, stays_cons_succ.1 hi⟩
      · rintro (h | ⟨i, hi⟩)
        · exact ⟨0, stays_cons_zero.2 h⟩
        · exact ⟨i + 1, stays_cons_succ.2 hi⟩
    rw [hcons, ← ih, lasting_cons]
    by_cases ha : ∀ m ∈ calls, a.tag ≠ m.tag
    · rw [if_pos ha, List.mem_cons]
      exact or_congr_left ⟨fun h => ⟨h.symm, h ▸ ha⟩, fun h => h.1.symm⟩
    · rw [if_neg ha]
      exact ⟨.inr, fun h => h.resolve_left fun ⟨heq, hfree⟩ => ha (heq ▸ hfree)⟩

/-- From the end, the first lasting lexer with a property is the one of the last call that stays and
whose lexer has it. -/
theorem find?_reverse_lasting (p : Lexer → Bool) :
    (lasting calls).reverse.find? p = some l ↔
      ∃ i, Stays calls i l ∧ p l = true ∧ ∀ j, i < j → ∀ m, Stays calls j m → p m = false := by
  induction calls generalizing l with
  | nil => simp [stays_nil]
  | cons a calls ih =>
    have hsplit : (lasting (a :: calls)).reverse.find? p =
        ((lasting calls).reverse.find? p).or
          (if (∀ m ∈ calls, a.tag ≠ m.tag) ∧ p a = true then some a else none) := by
      rw [lasting_cons]
      by_cases ha : ∀ m ∈ calls, a.tag ≠ m.tag
      · by_cases hp : p a <;> simp [if_pos ha, hp]
      · simp [ha]
    simp only [forall_lt_iff, hsplit]
    cases hlater : (lasting calls).reverse.find? p with
    | some m =>
      -- a later call decides, and the first one does not count
      obtain ⟨i, hi, hp, hlast⟩ := ih.1 hlater
      rw [Option.some_or, Option.some.injEq]
      refine ⟨?_, ?_⟩
      · rintro rfl
        exact ⟨i + 1, stays_cons_succ.2 hi, hp, fun j hj m' hm' =>
          hlast j hj m' (stays_cons_succ.1 hm')⟩
      · rintro ⟨k, hk, hpl, hklast⟩
        cases k with
        | zero =>
          have hfalse := hklast i (Nat.zero_le i) m (stays_cons_succ.2 hi)
          simp [hp] at hfalse
        | succ k =>
          have hl : (lasting calls).reverse.find? p = some l :=
            ih.2 ⟨k, stays_cons_succ.1 hk, hpl, fun j hj m' hm' =>
              hklast j hj m' (stays_cons_succ.2 hm')⟩
          exact Option.some.inj (hlater.symm.trans hl)
    | none =>
      have hnone : ∀ j m, Stays calls j m → p m = false := by
        intro j m hm
        have hmem := List.mem_reverse.2 (mem_lasting.2 ⟨j, hm⟩)
        simpa using List.find?_eq_none.1 hlater m hmem
      rw [Option.none_or, Option.ite_none_right_eq_some, Option.some.injEq]
      refine ⟨?_, ?_⟩
      · rintro ⟨⟨hfree, hp⟩, rfl⟩
        exact ⟨0, stays_cons_zero.2 ⟨rfl, hfree⟩, hp, fun j _ m hm =>
          hnone j m (stays_cons_succ.1 hm)⟩
      · rintro ⟨k, hk, hp, -⟩
        cases k with
        | zero =>
          obtain ⟨rfl, hfree⟩ := stays_cons_zero.1 hk
          exact ⟨⟨hfree, hp⟩, rfl⟩
        | succ k => simp [hnone k l (stays_cons_succ.1 hk)] at hp

/-! ### Registering -/

theorem without_eq_filter {ls : List Lexer} (h : (ls.map Lexer.tag).Nodup) (t : String) :
    without t ls = ls.filter fun m => m.tag ≠ t := by
  induction ls with
  | nil => rfl
  | cons a ls ih =>
    obtain ⟨hnew, hrest⟩ := List.nodup_cons.1 h
    rw [without]
    by_cases ha : a.tag = t
    · have hall : ∀ m ∈ ls, m.tag ≠ t := fun m hm heq =>
        hnew (ha ▸ heq ▸ List.mem_map_of_mem hm)
      rw [if_pos ha, List.filter_cons_of_neg (by simp [ha])]
      exact (List.filter_eq_self.2 (by simpa using hall)).symm
    · rw [if_neg ha, List.filter_cons_of_pos (by simp [ha]), ih hrest]

theorem registered_concat (calls : List Lexer) (l : Lexer) :
    registered (calls ++ [l]) = ((registered calls).register l).value.1 := by
  rw [registered, List.foldl_append]
  rfl

/-- The registry holds the lexers of the calls that stay, in the order of the calls. -/
theorem lexers_registered (calls : List Lexer) : (registered calls).lexers = lasting calls := by
  induction calls using List.reverseRecOn with
  | nil => rfl
  | append_singleton calls l ih =>
    have hinsert : (registered (calls ++ [l])).lexers =
        without l.tag (registered calls).lexers ++ [l] := by
      rw [registered_concat]
      rfl
    rw [hinsert, ih, lasting_concat, without_eq_filter (nodup_tags_lasting calls)]

theorem tags_registered (calls : List Lexer) :
    (registered calls).tags = (calls.map Lexer.tag).dedup := by
  rw [tags, lexers_registered, map_tag_lasting]

/-- The lexer held under a tag is the last one registered under it. -/
theorem held?_registered (calls : List Lexer) (t : String) :
    (registered calls).held? t = calls.reverse.find? fun l => l.tag == t := by
  rw [held?, lexers_registered]
  induction calls using List.reverseRecOn with
  | nil => rfl
  | append_singleton calls l ih =>
    rw [lasting_concat, List.find?_append, List.find?_filter, List.reverse_append,
      List.reverse_singleton, List.singleton_append]
    by_cases hl : l.tag = t
    · have hnone : (lasting calls).find? (fun _ => false) = none := by simp
      simp [hl, hnone]
    · have hsame : (fun m : Lexer => decide (decide (m.tag ≠ l.tag) = true ∧ (m.tag == t) = true)) =
          fun m : Lexer => m.tag == t := by
        funext m
        by_cases hm : m.tag = t
        · simp [hm, Ne.symm hl]
        · simp [hm]
      rw [hsame, ih]
      simp [hl]

/-- What a call gives is the lexer registered last under its tag, which leaves the registry. -/
theorem register_registered (calls : List Lexer) (l : Lexer) :
    ((registered calls).register l).value.2 = (calls.reverse.find? fun m => m.tag == l.tag) ∧
      ((registered calls).register l).value.1.lexers =
        (registered calls).lexers.filter (fun m => m.tag ≠ l.tag) ++ [l] := by
  refine ⟨held?_registered calls l.tag, ?_⟩
  rw [← registered_concat, lexers_registered, lexers_registered, lasting_concat]

theorem get?_registered {name : String} : (registered calls).get? name = some l ↔
    ∃ i, Stays calls i l ∧ l.info.answersTo name = true ∧
      ∀ j, i < j → ∀ m, Stays calls j m → m.info.answersTo name = false := by
  rw [get?, lexers_registered]
  exact find?_reverse_lasting _

/-- The lexer registered last is found by every name that it answers to. -/
theorem get?_registered_concat {name : String} (h : l.info.answersTo name = true) :
    (registered (calls ++ [l])).get? name = some l := by
  rw [get?, lexers_registered, lasting_concat, List.reverse_append, List.reverse_singleton,
    List.singleton_append]
  exact List.find?_cons_of_pos h

theorem forFilename?_registered {name : String} : (registered calls).forFilename? name = some l ↔
    ∃ i, Stays calls i l ∧ l.info.matchesFilename name = true ∧
      ∀ j, i < j → ∀ m, Stays calls j m → m.info.matchesFilename name = false := by
  rw [forFilename?, lexers_registered]
  exact find?_reverse_lasting _

/-- After any calls a registry has each tag once, in the order of the last calls with them, and holds
under each the lexer of that call.  A further call gives the lexer whose place it takes and loses no
tag, and a look-up by name or by file name finds, of the lexers that stay and have the name, the one
registered last. -/
theorem registered_keeps_last (calls : List Lexer) :
    (registered calls).tags.Nodup ∧
    (registered calls).tags = (calls.map Lexer.tag).dedup ∧
    (∀ t, (registered calls).held? t = calls.reverse.find? fun l => l.tag == t) ∧
    (∀ l, l ∈ (registered calls).lexers ↔ ∃ i, Stays calls i l) ∧
    (∀ l, ((registered calls).register l).value.2 = (calls.reverse.find? fun m => m.tag == l.tag) ∧
      ((registered calls).register l).value.1.lexers =
        (registered calls).lexers.filter (fun m => m.tag ≠ l.tag) ++ [l]) ∧
    (∀ later, (registered calls).tags ⊆ (registered (calls ++ later)).tags) ∧
    (∀ name l, (registered calls).get? name = some l ↔
      ∃ i, Stays calls i l ∧ l.info.answersTo name = true ∧
        ∀ j, i < j → ∀ m, Stays calls j m → m.info.answersTo name = false) ∧
    ∀ name l, (registered calls).forFilename? name = some l ↔
      ∃ i, Stays calls i l ∧ l.info.matchesFilename name = true ∧
        ∀ j, i < j → ∀ m, Stays calls j m → m.info.matchesFilename name = false := by
  refine ⟨?_, tags_registered calls, held?_registered calls, fun l => ?_,
    register_registered calls, fun later t ht => ?_, fun _ _ => get?_registered,
    fun _ _ => forFilename?_registered⟩
  · rw [tags_registered]
    exact List.nodup_dedup _
  · rw [lexers_registered, mem_lasting]
  · rw [tags_registered, List.mem_dedup] at ht ⊢
    rw [List.map_append]
    exact List.mem_append_left _ ht

/-! ### Looking up a tag -/

theorem Stays.unique (h : Stays calls i l) (h' : Stays calls i m) : l = m :=
  Option.some.inj (h.1.symm.trans h'.1)

/-- A registered tag leads to the lexer with this tag, unless lexers registered behind it answer to
the tag as well, by an alias or because theirs differs in letter case only: then it leads to the one
of these that was registered last. -/
theorem get?_registered_of_mem_tags (ht : t ∈ (registered calls).tags) :
    ∃ i own j l, Stays calls i own ∧ own.tag = t ∧ Stays calls j l ∧
      (registered calls).get? t = some l ∧
      (j = i ∧ l = own ∨ i < j ∧ l.tag ≠ t ∧ (eqIgnoringAsciiCase l.tag t = true ∨
        ∃ a ∈ l.info.aliases, eqIgnoringAsciiCase a t = true)) ∧
      ∀ k, j < k → ∀ m, Stays calls k m → m.info.answersTo t = false := by
  obtain ⟨own, hmem, htag⟩ := List.mem_map.1 ht
  rw [lexers_registered, mem_lasting] at hmem
  obtain ⟨i, hi⟩ := hmem
  have hown : own.info.answersTo t = true := by
    simp [LexerInfo.answersTo, ← htag, Lexer.tag, eqIgnoringAsciiCase_self]
  have hsome : ((registered calls).get? t).isSome := by
    rw [get?, lexers_registered, List.find?_isSome]
    exact ⟨own, List.mem_reverse.2 (mem_lasting.2 ⟨i, hi⟩), hown⟩
  obtain ⟨l, hl⟩ := Option.isSome_iff_exists.1 hsome
  obtain ⟨j, hj, hanswers, hlast⟩ := get?_registered.1 hl
  refine ⟨i, own, j, l, hi, htag, hj, hl, ?_, hlast⟩
  rcases Nat.lt_trichotomy i j with hlt | rfl | hlt
  · refine .inr ⟨hlt, htag ▸ hi.2 j hlt l hj.1, ?_⟩
    simpa [LexerInfo.answersTo, Lexer.tag] using hanswers
  · exact .inl ⟨rfl, hj.unique hi⟩
  · -- the lexer with the tag would be a later one that answers to it
    simp [hlast i hlt own hi] at hown

/-- The grammar of plain text makes a lexer, whatever is known of it. -/
theorem exists_plainLexer (info : LexerInfo) : ∃ l : Lexer,
    (Lexer.ofDefinition info PlainText.grammar).value = .ok l ∧ l.info = info := by
  have hbuilds : PlainText.grammar.build.value.toOption.isSome = true := by decide
  obtain ⟨g, hg⟩ := Option.isSome_iff_exists.1 hbuilds
  refine ⟨⟨info, PlainText.grammar, g⟩, ?_, rfl⟩
  rw [Lexer.ofDefinition, Logged.value_bind_of (Except.eq_ok_of_toOption hg)]
  rfl

/-- The lexer of plain text, which has the alias `text`, and another one with the tag `text`. -/
theorem exists_textLexers : ∃ text plain : Lexer,
    (Lexer.ofDefinition { tag := "text", title := "Text" } PlainText.grammar).value = .ok text ∧
      PlainText.lexer.value = .ok plain ∧ text.tag = "text" ∧ plain.info = PlainText.info := by
  obtain ⟨text, htext, hinfo⟩ := exists_plainLexer { tag := "text", title := "Text" }
  obtain ⟨plain, hplain, hinfo'⟩ := exists_plainLexer PlainText.info
  exact ⟨text, plain, htext, hplain, congrArg LexerInfo.tag hinfo, hinfo'⟩

/-- The tag `text` is registered, and leads to the lexer of plain text. -/
theorem get?_misses_tag : ∃ text plain : Lexer,
    (Lexer.ofDefinition { tag := "text", title := "Text" } PlainText.grammar).value = .ok text ∧
      PlainText.lexer.value = .ok plain ∧ "text" ∈ (registered [text, plain]).tags ∧
        ∃ l, (registered [text, plain]).get? "text" = some l ∧ l.tag ≠ "text" := by
  obtain ⟨text, plain, htext, hplain, htag, hinfo⟩ := exists_textLexers
  refine ⟨text, plain, htext, hplain, by simp [tags_registered, htag], plain, ?_, ?_⟩
  · have hanswers : plain.info.answersTo "text" = true := by
      rw [hinfo]
      decide
    show (registered ([text] ++ [plain])).get? "text" = some plain
    exact get?_registered_concat hanswers
  · rw [Lexer.tag, hinfo]
    decide

/-- Behind the lexer with the tag `text` there is one that answers to it. -/
theorem get?_registered_text : ∃ text plain : Lexer,
    (Lexer.ofDefinition { tag := "text", title := "Text" } PlainText.grammar).value = .ok text ∧
      PlainText.lexer.value = .ok plain ∧ "text" ∈ (registered [text, plain]).tags ∧
        ∃ i own j l, Stays [text, plain] i own ∧ own.tag = "text" ∧ Stays [text, plain] j l ∧
          (registered [text, plain]).get? "text" = some l ∧
          (j = i ∧ l = own ∨ i < j ∧ l.tag ≠ "text" ∧ (eqIgnoringAsciiCase l.tag "text" = true ∨
            ∃ a ∈ l.info.aliases, eqIgnoringAsciiCase a "text" = true)) ∧
          ∀ k, j < k → ∀ m, Stays [text, plain] k m → m.info.answersTo "text" = false := by
  obtain ⟨text, plain, htext, hplain, htag, -⟩ := exists_textLexers
  have hmem : "text" ∈ (registered [text, plain]).tags := by simp [tags_registered, htag]
  exact ⟨text, plain, htext, hplain, hmem, get?_registered_of_mem_tags hmem⟩

end Registry

end Highlighting

import Highlighting.Proofs.Pattern.Wrapping

/-!
# Patterns that are accepted in a group

A declared pattern is only ever read inside of a group, so that some are accepted which are no
patterns by themselves.  What a reader of lexemes takes off a text in front of the last parenthesis,
it takes off the text itself (`Openable`), and a lexeme that takes the last parenthesis leaves the
group open.  So a pattern that is accepted is read to its end by itself, or it comes to a closing
parenthesis with no group of its own open and closes the group around it (`overcloses_iff`).
-/

namespace Highlighting

namespace Pattern

/-- What is read off a text in front of a last parenthesis is read off the text itself, unless the
parenthesis is read, too. -/
def Openable {α : Type} (read : List Char → Piece α) : Prop :=
  ∀ ⦃cs a rest⦄, read (cs ++ [')']) = .ok (a, rest ++ [')']) → read cs = .ok (a, rest)

section

variable {α : Type} {read : List Char → Piece α} {cs rest : List Char} {a : α}

/-- It is enough that something is read off the text. -/
theorem Openable.of_closable (hclose : Closable [] read)
    (h : ∀ cs a rest, read (cs ++ [')']) = .ok (a, rest ++ [')']) → ∃ piece, read cs = .ok piece) :
    Openable read := by
  intro cs a rest hread
  obtain ⟨⟨a', rest'⟩, hread'⟩ := h cs a rest hread
  obtain ⟨rfl, hrest⟩ := Prod.mk.inj (Except.ok.inj (hread.symm.trans (hclose hread').2))
  rw [hread', List.append_cancel_right hrest]

/-- Off a text in front of a parenthesis all is read, or what is read off the text itself. -/
theorem Openable.cases (h : Openable read) (hclose : Closable [] read)
    (hread : read (cs ++ [')']) = .ok (a, rest)) :
    rest = [] ∨ ∃ rest', rest = rest' ++ [')'] ∧ rest' <:+ cs ∧ read cs = .ok (a, rest') := by
  rcases List.suffix_concat_iff.1 (hclose hread).1 with rfl | ⟨rest', rfl, hsuffix⟩
  · exact .inl rfl
  · exact .inr ⟨rest', rfl, hsuffix, h hread⟩

/-- A text in front of a parenthesis begins with a word only if the text itself does. -/
theorem append_close_eq {w : List Char} (hw : ')' ∉ w) (h : cs ++ [')'] = w ++ rest) :
    ∃ rest', cs = w ++ rest' ∧ rest = rest' ++ [')'] := by
  by_cases hcs : ∃ rest', cs = w ++ rest'
  · obtain ⟨rest', rfl⟩ := hcs
    rw [List.append_assoc] at h
    exact ⟨rest', rfl, (List.append_cancel_left h).symm⟩
  · exact absurd h (append_close_ne hw (fun rest' hrest' => hcs ⟨rest', hrest'⟩) rest)

theorem ne_of_append_close {w : List Char} (h : ∀ rest, cs ++ [')'] = w ++ rest → False) :
    ∀ rest, cs = w ++ rest → False := by
  rintro r rfl
  exact h (r ++ [')']) (List.append_assoc _ _ _)

/-- A run that goes on over a parenthesis ends inside a text or goes on to the end. -/
theorem dropWhile_append_over {p : Char → Bool} (hp : p ')' = true) {x : Char} {after : List Char}
    (h : (cs ++ [')']).dropWhile p = x :: after) : ∃ after', cs.dropWhile p = x :: after' := by
  cases hdrop : cs.dropWhile p with
  | nil =>
    rw [List.dropWhile_append_of_pos (List.dropWhile_eq_nil_iff.1 hdrop)] at h
    simp [hp] at h
  | cons y after' =>
    rw [(dropWhile_append_of_cons hdrop [')']).1] at h
    exact ⟨after', by rw [(List.cons.inj h).1]⟩

end

/-! ### Escapes and classes -/

theorem openable_hexEscape (width : Nat) : Openable (hexEscape width) := by
  apply Openable.of_closable (closable_hexEscape width)
  intro cs c rest h
  unfold hexEscape at h
  split at h
  · next after heq =>
    obtain ⟨cs, rfl, rfl⟩ := append_close_eq (w := ['\x7b']) (by decide) heq
    split at h
    · cases h
    next x after hdrop =>
    obtain ⟨after', hdrop'⟩ := dropWhile_append_over (by decide) hdrop
    rw [(dropWhile_append_of_cons hdrop' [')']).2] at h
    dsimp only at h
    split at h
    · cases h
    next hdigits =>
    split at h
    · next ch hch =>
      refine ⟨(ch, after'), ?_⟩
      simp only [List.cons_append, List.nil_append, hexEscape, hdrop', hdigits, hch]
      rfl
    · cases h
  · next hbrace =>
    split at h
    · cases h
    next hlen =>
    split at h
    · next ch hch =>
      obtain ⟨rfl, hdrop⟩ := Prod.mk.inj (Except.ok.inj h)
      -- some text is left behind the digits, so that the parenthesis is none of them
      have hle : width ≤ cs.length := by
        have hlength := congrArg List.length hdrop
        rw [List.length_drop, List.length_append, List.length_append,
          List.length_singleton] at hlength
        omega
      rw [List.take_append_of_le_length hle] at hch
      refine ⟨(ch, cs.drop width), ?_⟩
      rw [hexEscape, if_neg (by omega), hch]
      rintro r rfl
      exact hbrace _ rfl
    · cases h

theorem openable_escape? : Openable escape? := by
  apply Openable.of_closable closable_escape?
  intro cs a rest h
  cases cs with
  | nil =>
    obtain ⟨-, hnil⟩ := Prod.mk.inj (Except.ok.inj h)
    simp at hnil
  | cons c cs =>
    have hhex {width : Nat} (h : (hexEscape width (cs ++ [')'])).map (Prod.map Escaped.char id) =
        .ok (a, rest ++ [')'])) :
        ∃ piece, (hexEscape width cs).map (Prod.map Escaped.char id) = .ok piece := by
      obtain ⟨⟨ch, rest'⟩, hread, h⟩ := Except.map_eq_ok h
      obtain ⟨-, rfl⟩ := Prod.mk.inj h
      exact ⟨_, by rw [openable_hexEscape width hread]; rfl⟩
    rw [List.cons_append] at h
    unfold escape? at h ⊢
    dsimp only at h ⊢
    split at h
    iterate 10 exact ⟨_, rfl⟩
    iterate 3 exact hhex h
    iterate 6 exact ⟨_, rfl⟩
    split at h
    · cases h
    · next hdigit =>
      split at h
      · next hmark =>
        rw [if_neg hdigit, if_pos hmark]
        exact ⟨_, rfl⟩
      · cases h

theorem openable_classItem : Openable classItem := by
  apply Openable.of_closable closable_classItem
  intro cs a rest h
  match cs, h with
  | [], h =>
    obtain ⟨-, hnil⟩ := Prod.mk.inj (Except.ok.inj h)
    simp at hnil
  | c :: cs, h =>
    by_cases hc : c = '\\'
    · subst hc
      exact ⟨_, openable_escape? h⟩
    · exact ⟨(.char c, cs), by simp [classItem]⟩

theorem openable_classRange : Openable classRange := by
  apply Openable.of_closable closable_classRange
  intro cs a rest h
  unfold classRange at h ⊢
  obtain ⟨⟨first, after⟩, hfirst, h⟩ := Except.bind_eq_ok h
  change (if beginsRange after = true then _ else _) = _ at h
  rcases openable_classItem.cases closable_classItem hfirst with rfl | ⟨after, rfl, -, hread⟩
  · match first, h with
    | .char x, h | .set s, h =>
      obtain ⟨-, hnil⟩ := Prod.mk.inj (Except.ok.inj h)
      simp at hnil
  rw [beginsRange_append_close] at h
  rw [hread]
  change ∃ piece, (if beginsRange after = true then _ else _) = _
  split at h
  · next hrange =>
    rw [if_pos hrange]
    obtain ⟨⟨last, after'⟩, hlast, h⟩ := Except.bind_eq_ok h
    cases after with
    | nil => cases hrange
    | cons x after =>
      cases first with
      | set _ | look _ => cases last <;> cases h
      | char x =>
        cases last with
        | set _ | look _ => cases h
        | char y =>
          change (if x ≤ y then _ else _) = _ at h
          split at h
          · next hle =>
            obtain ⟨-, rfl⟩ := Prod.mk.inj (Except.ok.inj h)
            have hlast' : classItem after = .ok (.char y, rest) := openable_classItem hlast
            refine ⟨(.leaf (.range x y), rest), ?_⟩
            rw [List.drop_one, List.tail_cons, hlast']
            exact if_pos hle
          · cases h
  · next hrange =>
    rw [if_neg hrange]
    match first, h with
    | .char x, _ | .set s, _ => exact ⟨_, rfl⟩

theorem classItem_shortens {cs rest : List Char} {a : Escaped} (h : classItem cs = .ok (a, rest)) :
    rest.length < cs.length := by
  cases cs with
  | nil => cases h
  | cons c cs =>
    rw [List.length_cons, Nat.lt_succ_iff]
    by_cases hc : c = '\\'
    · subst hc
      exact (@closable_escape? [] _ _ _ h).1.length_le
    · simp only [classItem] at h
      rw [← (Prod.mk.inj (Except.ok.inj h)).2]

/-- An item of a class has a character at least. -/
theorem classRange_shortens {cs rest : List Char} {s : CharClass}
    (h : classRange cs = .ok (s, rest)) : rest.length < cs.length := by
  unfold classRange at h
  obtain ⟨⟨first, after⟩, hfirst, h⟩ := Except.bind_eq_ok h
  have hshort := classItem_shortens hfirst
  change (if beginsRange after = true then _ else _) = _ at h
  split at h
  · obtain ⟨⟨last, after'⟩, hlast, h⟩ := Except.bind_eq_ok h
    have hle := (@closable_classItem [] _ _ _ hlast).1.length_le
    rw [List.length_drop] at hle
    match first, last, h with
    | .char x, .char y, h =>
      change (if x ≤ y then _ else _) = _ at h
      split at h
      · rw [← (Prod.mk.inj (Except.ok.inj h)).2]
        omega
      · cases h
  · match first, h with
    | .char x, h | .set s, h => rwa [← (Prod.mk.inj (Except.ok.inj h)).2]

/-- As many steps as a class needs are enough. -/
theorem openable_classRest {n : Nat} {outer : List ClassFrame} {f : ClassFrame}
    {cs rest : List Char} {s : Nested CharClass}
    (h : classRest n outer f (cs ++ [')']) = .ok (s, rest ++ [')'])) {m : Nat}
    (hm : cs.length < m) : classRest m outer f cs = .ok (s, rest) := by
  induction n generalizing outer f cs m with
  | zero => cases h
  | succ n ih =>
    obtain ⟨m, rfl⟩ : ∃ k, m = k + 1 := ⟨m - 1, by omega⟩
    unfold classRest at h
    split at h
    · next heq => simp at heq
    · next after heq =>
      obtain ⟨cs, rfl, rfl⟩ := append_close_eq (w := ['[']) (by decide) heq
      have hlt : cs.length < m := Nat.lt_of_succ_lt_succ hm
      obtain ⟨hnamed, hnamed'⟩ := @namedClass?_append_close [] cs
      rw [hnamed'] at h
      rw [List.cons_append, List.nil_append, classRest]
      cases hname : namedClass? cs with
      | some found =>
        obtain ⟨s, after⟩ := found
        rw [hname] at h
        exact ih h (Nat.lt_of_le_of_lt (hnamed s after hname).length_le hlt)
      | none =>
        rw [hname] at h
        obtain ⟨hopen, hopen'⟩ := @openClass_append_close [] cs
        dsimp only [Option.map] at h
        rw [hopen'] at h
        exact ih h (Nat.lt_of_le_of_lt hopen.length_le hlt)
    · next after heq =>
      obtain ⟨cs, rfl, rfl⟩ := append_close_eq (w := [']']) (by decide) heq
      cases outer with
      | nil =>
        obtain ⟨rfl, hrest⟩ := Prod.mk.inj (Except.ok.inj h)
        rw [← List.append_cancel_right hrest]
        rfl
      | cons g outer => exact ih h (Nat.lt_of_succ_lt_succ hm)
    · next after heq =>
      obtain ⟨cs, rfl, rfl⟩ := append_close_eq (w := ['&', '&']) (by decide) heq
      exact ih h (by simp at hm; omega)
    · next after heq =>
      obtain ⟨cs, rfl, rfl⟩ := append_close_eq (w := ['-', '-']) (by decide) heq
      exact ih h (by simp at hm; omega)
    · next after heq =>
      obtain ⟨cs, rfl, rfl⟩ := append_close_eq (w := ['~', '~']) (by decide) heq
      exact ih h (by simp at hm; omega)
    · next hopen hclosed hinter hdiff hsymm =>
      obtain ⟨⟨t, after⟩, hrange, h⟩ := Except.bind_eq_ok h
      rcases openable_classRange.cases closable_classRange hrange with rfl | hread
      · cases n <;> cases h
      obtain ⟨after, rfl, -, hread⟩ := hread
      have hshort := classRange_shortens hread
      rw [classRest, hread]
      · exact ih h (by omega)
      · rintro rfl
        simp at hshort
      · exact ne_of_append_close (w := ['[']) hopen
      · exact ne_of_append_close (w := [']']) hclosed
      · exact ne_of_append_close (w := ['&', '&']) hinter
      · exact ne_of_append_close (w := ['-', '-']) hdiff
      · exact ne_of_append_close (w := ['~', '~']) hsymm

theorem openable_charClass : Openable charClass := by
  intro cs s rest h
  obtain ⟨-, hopen⟩ := @openClass_append_close [] cs
  rw [charClass, hopen] at h
  exact openable_classRest h (Nat.lt_succ_self _)

/-! ### Repetitions and groups -/

theorem openable_countNumber : Openable countNumber := by
  apply Openable.of_closable closable_countNumber
  intro cs n rest h
  have hblank : (cs ++ [')']).dropWhile isBlank = cs.dropWhile isBlank ++ [')'] :=
    dropWhile_append_close (by decide) cs
  unfold countNumber at h ⊢
  dsimp only at h ⊢
  rw [hblank, takeWhile_append_close (by decide)] at h
  split at h
  · cases h
  · next hcount =>
    rw [if_neg hcount]
    exact ⟨_, rfl⟩

theorem openable_counted : Openable counted := by
  apply Openable.of_closable closable_counted
  intro cs l rest h
  unfold counted at h ⊢
  obtain ⟨⟨min, after⟩, hmin, h⟩ := Except.bind_eq_ok h
  rcases openable_countNumber.cases closable_countNumber hmin with rfl | ⟨after, rfl, -, hread⟩
  · cases h
  rw [hread]
  dsimp only [bind, Except.bind] at h ⊢
  split at h
  · next more heq =>
    obtain ⟨more, rfl, rfl⟩ := append_close_eq (w := ['\x7d']) (by decide) heq
    exact ⟨_, rfl⟩
  · next more heq =>
    obtain ⟨more, rfl, rfl⟩ := append_close_eq (w := [',', '\x7d']) (by decide) heq
    exact ⟨_, rfl⟩
  · next more hbrace heq =>
    obtain ⟨more, rfl, rfl⟩ := append_close_eq (w := [',']) (by decide) heq
    obtain ⟨⟨max, after⟩, hmax, h⟩ := Except.bind_eq_ok h
    rcases openable_countNumber.cases closable_countNumber hmax with rfl | ⟨after, rfl, -, hread'⟩
    · cases h
    dsimp only at h
    split at h
    · next more' heq' =>
      obtain ⟨more', rfl, rfl⟩ := append_close_eq (w := ['\x7d']) (by decide) heq'
      split at h
      · next hle =>
        rw [List.cons_append, List.nil_append]
        split
        · next heq => cases heq
        · exact ⟨_, rfl⟩
        · next heq =>
          obtain rfl := (List.cons.inj heq).2
          rw [hread', List.cons_append]
          exact ⟨_, if_pos hle⟩
        · next hcomma => exact absurd rfl (hcomma _)
      · cases h
    · cases h
  · cases h

theorem openable_groupName : Openable groupName := by
  apply Openable.of_closable closable_groupName
  intro cs l rest h
  unfold groupName at h ⊢
  dsimp only at h ⊢
  split at h
  · next c more x after hname hdrop =>
    obtain ⟨after', hdrop'⟩ := dropWhile_append_over (by decide) hdrop
    rw [(dropWhile_append_of_cons hdrop' [')']).2] at hname h
    rw [hdrop', hname]
    split at h
    · next hchars =>
      dsimp only
      rw [if_pos hchars]
      exact ⟨_, rfl⟩
    · cases h
  · cases h

theorem openable_flagGroup : Openable flagGroup := by
  apply Openable.of_closable closable_flagGroup
  intro cs l rest h
  unfold flagGroup at h ⊢
  dsimp only at h ⊢
  cases hdrop : cs.dropWhile fun c => !(c == ':' || c == ')') with
  | nil =>
    -- the parenthesis ends the flags, and nothing is left behind it
    rw [dropWhile_append_close (by decide), hdrop] at h
    dsimp only [List.nil_append] at h
    split at h
    · next heq => simp at heq
    · next heq =>
      obtain ⟨-, rfl⟩ := List.cons.inj heq
      split at h
      · cases h
      · obtain ⟨change, -, h⟩ := Except.map_eq_ok h
        simp at h
    · cases h
  | cons x after =>
    obtain ⟨hdrop', htake⟩ := dropWhile_append_of_cons hdrop [')']
    rw [hdrop', htake] at h
    split at h
    · next heq =>
      obtain ⟨rfl, -⟩ := List.cons.inj heq
      obtain ⟨change, hchange, -⟩ := Except.map_eq_ok h
      exact ⟨_, by rw [hchange]; rfl⟩
    · next heq =>
      obtain ⟨rfl, -⟩ := List.cons.inj heq
      split at h
      · cases h
      · next hletters =>
        obtain ⟨change, hchange, -⟩ := Except.map_eq_ok h
        exact ⟨_, (if_neg hletters).trans (by rw [hchange]; rfl)⟩
    · cases h

theorem openable_groupStart : Openable groupStart := by
  apply Openable.of_closable closable_groupStart
  intro cs l rest h
  unfold groupStart at h
  split at h
  · next after heq =>
    obtain ⟨cs, rfl, rfl⟩ := append_close_eq (w := ['?', 'P', '<']) (by decide) heq
    exact ⟨_, openable_groupName h⟩
  iterate 4 cases h
  · next after hassert hexclude heq =>
    obtain ⟨cs, rfl, rfl⟩ := append_close_eq (w := ['?', '<']) (by decide) heq
    rw [List.cons_append, List.cons_append, List.nil_append, groupStart, openable_groupName h]
    · exact ⟨_, rfl⟩
    · exact ne_of_append_close (w := ['=']) hassert
    · exact ne_of_append_close (w := ['!']) hexclude
  · next after hname heq hne hbehind hbehind' hangle heq' =>
    obtain ⟨cs, rfl, rfl⟩ := append_close_eq (w := ['?']) (by decide) heq'
    refine ⟨(l, rest), ?_⟩
    rw [List.cons_append, List.nil_append, groupStart]
    · exact openable_flagGroup h
    · exact ne_of_append_close (w := ['P', '<']) hname
    · exact ne_of_append_close (w := ['=']) heq
    · exact ne_of_append_close (w := ['!']) hne
    · exact ne_of_append_close (w := ['<', '=']) hbehind
    · exact ne_of_append_close (w := ['<', '!']) hbehind'
    · exact ne_of_append_close (w := ['<']) hangle
  · next hname heq hne hbehind hbehind' hangle hquestion =>
    refine ⟨(.openGroup none, cs), ?_⟩
    rw [groupStart]
    · exact ne_of_append_close (w := ['?', 'P', '<']) hname
    · exact ne_of_append_close (w := ['?', '=']) heq
    · exact ne_of_append_close (w := ['?', '!']) hne
    · exact ne_of_append_close (w := ['?', '<', '=']) hbehind
    · exact ne_of_append_close (w := ['?', '<', '!']) hbehind'
    · exact ne_of_append_close (w := ['?', '<']) hangle
    · exact ne_of_append_close (w := ['?']) hquestion

/-! ### All lexemes -/

theorem openable_lexeme (c : Char) : Openable (lexeme c) := by
  apply Openable.of_closable (closable_lexeme c)
  intro cs l rest h
  unfold lexeme at h ⊢
  split at h
  · exact ⟨_, openable_groupStart h⟩
  · exact ⟨_, rfl⟩
  · exact ⟨_, rfl⟩
  · obtain ⟨⟨s, rest'⟩, hread, h⟩ := Except.map_eq_ok h
    obtain ⟨-, rfl⟩ := Prod.mk.inj h
    exact ⟨_, by rw [openable_charClass hread]; rfl⟩
  iterate 3 exact ⟨_, rfl⟩
  · exact ⟨_, openable_counted h⟩
  iterate 3 exact ⟨_, rfl⟩
  · obtain ⟨⟨a, rest'⟩, hread, h⟩ := Except.map_eq_ok h
    cases a with
    | char _ | set _ | look _ =>
      obtain ⟨-, rfl⟩ := Prod.mk.inj h
      exact ⟨_, by rw [openable_escape? hread]; rfl⟩
  · exact ⟨_, rfl⟩

theorem repetition_ne_close {min : Nat} {max : Option Nat} {cs rest : List Char} :
    repetition min max cs ≠ (.close, rest) := by
  unfold repetition
  split <;> exact fun h => by cases h

theorem counted_ne_close {cs rest : List Char} : counted cs ≠ .ok (.close, rest) := by
  intro h
  unfold counted at h
  obtain ⟨⟨min, after⟩, -, h⟩ := Except.bind_eq_ok h
  dsimp only at h
  split at h
  · exact repetition_ne_close (Except.ok.inj h)
  · exact repetition_ne_close (Except.ok.inj h)
  · obtain ⟨⟨max, after'⟩, -, h⟩ := Except.bind_eq_ok h
    dsimp only at h
    split at h
    · split at h
      · exact repetition_ne_close (Except.ok.inj h)
      · cases h
    · cases h
  · cases h

theorem groupName_ne_close {cs rest : List Char} : groupName cs ≠ .ok (.close, rest) := by
  intro h
  unfold groupName at h
  dsimp only at h
  split at h
  · split at h <;> cases h
  · cases h

theorem groupStart_ne_close {cs rest : List Char} : groupStart cs ≠ .ok (.close, rest) := by
  intro h
  unfold groupStart at h
  split at h
  · exact groupName_ne_close h
  iterate 4 cases h
  · exact groupName_ne_close h
  · dsimp only at h
    split at h
    · obtain ⟨change, -, h⟩ := Except.map_eq_ok h
      cases h
    · split at h
      · cases h
      · obtain ⟨change, -, h⟩ := Except.map_eq_ok h
        cases h
    · cases h
  · cases h

/-- Only a closing parenthesis closes a group, and it is read alone. -/
theorem lexeme_eq_close {c : Char} {cs rest : List Char} (h : lexeme c cs = .ok (.close, rest)) :
    c = ')' ∧ rest = cs := by
  unfold lexeme at h
  split at h
  · exact absurd h groupStart_ne_close
  · exact ⟨rfl, (Prod.mk.inj (Except.ok.inj h)).2.symm⟩
  · cases h
  · obtain ⟨piece, -, h⟩ := Except.map_eq_ok h
    cases h
  iterate 3 exact absurd (Except.ok.inj h) repetition_ne_close
  · exact absurd h counted_ne_close
  iterate 3 cases h
  · obtain ⟨⟨a, rest'⟩, -, h⟩ := Except.map_eq_ok h
    cases a <;> cases h
  · cases h

/-! ### Groups that a pattern does not open -/

/-- Lexemes are read off the front of a text. -/
inductive LexesTo : List Char → List Lexeme → List Char → Prop where
  | nil {cs : List Char} : LexesTo cs [] cs
  | cons {c : Char} {cs rest behind : List Char} {l : Lexeme} {ls : List Lexeme}
      (h : lexeme c cs = .ok (l, rest)) (hls : LexesTo rest ls behind) :
      LexesTo (c :: cs) (l :: ls) behind

theorem LexesTo.lexes {cs : List Char} {ls : List Lexeme} (h : LexesTo cs ls []) : Lexes cs ls := by
  generalize hbehind : ([] : List Char) = behind at h
  induction h with
  | nil => exact hbehind ▸ .nil
  | cons h _ ih => exact .cons h (@closable_lexeme [] _ _ _ _ h).1.length_le (ih hbehind)

/-- A text comes to a closing parenthesis with none of its groups open. -/
def Overcloses (text : List Char) : Prop :=
  ∃ ls rest s, LexesTo text ls (')' :: rest) ∧ ls.foldlM step .start = .ok s ∧ s.outer = []

variable {f : Frame} {r s t : Partial} {l : Lexeme} {ls : List Lexeme}

/-- A step inside a group is a step without the group, or it closes the group. -/
theorem step_of_within (h : step (r.within f) l = .ok t) :
    (∃ s, step r l = .ok s ∧ t = s.within f) ∨ (l = .close ∧ r.outer = []) := by
  rcases step_cases h with ⟨-, houter, hstep⟩ | ⟨-, houter, hstep⟩ | ⟨rfl, g, outer, houter, rfl⟩
  · refine .inl ⟨{ t with outer := r.outer }, hstep r.outer, ?_⟩
    rw [Partial.within]
    dsimp only
    rw [← show t.outer = r.outer ++ [f] from houter]
  · refine .inl ⟨{ t with outer := r.frame :: r.outer }, hstep r.outer, ?_⟩
    rw [Partial.within]
    dsimp only
    rw [List.cons_append, ← show t.outer = r.frame :: (r.outer ++ [f]) from houter]
  · cases hr : r.outer with
    | nil => exact .inr ⟨rfl, rfl⟩
    | cons g' outer' =>
      left
      refine ⟨⟨g'.add r.frame.closed, outer', r.frame.outerFlags, r.groups, r.names⟩, ?_, ?_⟩
      · unfold step
        rw [hr]
      · have houter : r.outer ++ [f] = g :: outer := houter
        rw [hr, List.cons_append] at houter
        obtain ⟨rfl, rfl⟩ := List.cons.inj houter
        rfl

/-- Of a text that is read in a group a part at its front is read without the group, up to the end of
the text or up to a parenthesis that closes the group.  The induction is on the lexemes: a step that
does not close the group is a step of the text itself, and what is left is in the group again. -/
theorem exists_lexesTo {cs : List Char} (hls : Lexes (cs ++ [')']) ls)
    (hfold : ls.foldlM step (r.within f) = .ok t) (ht : t.outer = []) :
    ∃ ls' rest s, LexesTo cs ls' rest ∧ ls'.foldlM step r = .ok s ∧ s.outer = [] ∧
      (rest = [] ∨ ∃ rest', rest = ')' :: rest') := by
  generalize htext : cs ++ [')'] = text at hls
  induction hls generalizing cs r with
  | nil => simp at htext
  | @cons c tail rest l ls hl hle hls ih =>
    rw [List.foldlM_cons] at hfold
    obtain ⟨t', hstep, hfold⟩ := Except.bind_eq_ok hfold
    rcases step_of_within hstep with ⟨s, hs, rfl⟩ | ⟨rfl, hr⟩
    · have hne : rest ≠ [] := by
        -- the group would be left open
        rintro rfl
        cases hls
        obtain rfl := Except.ok.inj hfold
        simp [Partial.within] at ht
      cases cs with
      | nil =>
        obtain ⟨-, rfl⟩ := List.cons.inj htext
        exact absurd (List.length_eq_zero_iff.1 (Nat.le_zero.1 hle)) hne
      | cons c' cs =>
        obtain ⟨rfl, rfl⟩ := List.cons.inj htext
        obtain ⟨rest, rfl, -, hread⟩ :=
          ((openable_lexeme c').cases (closable_lexeme c') hl).resolve_left hne
        obtain ⟨ls', rest', s', hls', hfold', houter, hrest⟩ := ih hfold rfl
        refine ⟨l :: ls', rest', s', .cons hread hls', ?_, houter, hrest⟩
        rw [List.foldlM_cons, hs]
        exact hfold'
    · obtain ⟨rfl, rfl⟩ := lexeme_eq_close hl
      refine ⟨[], cs, r, .nil, rfl, hr, ?_⟩
      cases cs with
      | nil => exact .inl rfl
      | cons c' cs => exact .inr ⟨cs, by rw [(List.cons.inj htext).1]⟩

/-- A text that is read in a group is read to its end by itself, or it closes the group. -/
theorem readsWhole_or_overcloses {text : List Char} (hls : Lexes (text ++ [')']) ls)
    (hfold : ls.foldlM step (Partial.start.within f) = .ok t) (ht : t.outer = []) :
    (∃ s, ReadsWhole text s) ∨ Overcloses text := by
  obtain ⟨ls, rest, s, hls, hfold, houter, hrest⟩ := exists_lexesTo hls hfold ht
  rcases hrest with rfl | ⟨rest, rfl⟩
  · exact .inl ⟨s, ls, hls.lexes, hfold, houter⟩
  · exact .inr ⟨ls, rest, s, hls, hfold, houter⟩

theorem LexesTo.append_lexes {cs rest : List Char} {ls ls' : List Lexeme} (h : LexesTo cs ls rest)
    (hls : Lexes cs ls') : ∃ more, ls' = ls ++ more ∧ Lexes rest more := by
  induction h generalizing ls' with
  | nil => exact ⟨ls', rfl, hls⟩
  | cons h _ ih =>
    cases hls with
    | cons h' _ hls =>
      obtain ⟨rfl, rfl⟩ := Prod.mk.inj (Except.ok.inj (h.symm.trans h'))
      obtain ⟨more, rfl, hmore⟩ := ih hls
      exact ⟨more, rfl, hmore⟩

/-- A text that comes to such a parenthesis is not read to its end. -/
theorem Overcloses.not_readsWhole {text : List Char} (h : Overcloses text) (s : Partial) :
    ¬ ReadsWhole text s := by
  rintro ⟨ls', hls', hfold', -⟩
  obtain ⟨ls, rest, r, hls, hfold, houter⟩ := h
  obtain ⟨more, rfl, hmore⟩ := hls.append_lexes hls'
  obtain ⟨more, rfl⟩ : ∃ more', more = .close :: more' := by
    cases hmore with
    | cons hl _ _ =>
      obtain ⟨rfl, -⟩ := Prod.mk.inj (Except.ok.inj hl)
      exact ⟨_, rfl⟩
  have hclose : step r .close = .error .unopenedGroup := by
    unfold step
    rw [houter]
  rw [List.foldlM_append, hfold] at hfold'
  change (Lexeme.close :: more).foldlM step r = .ok s at hfold'
  rw [List.foldlM_cons, hclose] at hfold'
  cases hfold'

/-- If the pattern of a rule for the start of a text is read, then the declared pattern is read to
its end by itself, or it closes the group that is put around it. -/
theorem overcloses_iff {pattern : String} {read : Read}
    (h : parse (CompiledRule.startText pattern) = .ok read) :
    Overcloses pattern.toList ↔ ∀ s, ¬ ReadsWhole pattern.toList s := by
  refine ⟨Overcloses.not_readsWhole, fun hnot => ?_⟩
  obtain ⟨ls, hls, hread⟩ := Except.bind_eq_ok h
  obtain ⟨t, hfold, houter, -⟩ := ofLexemes_eq_ok hread
  have hls := lexes_of_lexemes hls
  rw [startText_eq] at hls
  cases hls with
  | cons hlook _ hls =>
    obtain ⟨rfl, rfl⟩ := Prod.mk.inj (Except.ok.inj hlook)
    cases hls with
    | cons hopen _ hls =>
      obtain ⟨rfl, rfl⟩ := Prod.mk.inj (Except.ok.inj hopen)
      let f : Frame := (Frame.opened none {}).add (.leaf (.look .textStart))
      have hwithin : _ = Except.ok t := hfold
      exact (readsWhole_or_overcloses (f := f) hls hwithin houter).resolve_left
        fun ⟨s, hs⟩ => hnot s hs

end Pattern

end Highlighting

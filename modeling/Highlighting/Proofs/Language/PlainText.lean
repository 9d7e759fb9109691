import Highlighting.Proofs.Language.BuiltinLexers
import Highlighting.Proofs.Pattern.Run
import Highlighting.Proofs.Scan.Limits

/-!
# Sources that no lexer answers for

The only rule of plain text takes a whole source at once, and a token limit that is reached before
leaves the whole source unclassified: either way a source that is not empty is one token
(`PlainText.tokenize_value`).  A registry without a lexer for a tag and without one for plain text
makes just this token of a source (`Registry.highlight_unanswered`).
-/

namespace Highlighting

namespace PlainText

/-! ### The rule of plain text -/

/-- One character after the other, as many as there are. -/
def everything : Pattern := .repeated (.one .all) 1 none true

/-- The rule of plain text. -/
def rule : CompiledRule where
  source := "(?s:.)+"
  atStart := .ofRead ⟨.seq (.look .textStart) everything, 0⟩
  inContext := .ofRead ⟨.seq (.look .textStart) (.seq (.one .all) everything), 0⟩
  action := .token .text
  transition := .stay

/-- The grammar of plain text, ready to scan. -/
def compiled : Grammar := ⟨tag, [⟨rootState, [rule]⟩]⟩

theorem lexer_value : lexer.value = .ok ⟨info, grammar, compiled⟩ := by
  have hcompile : grammar.compile = .ok compiled := by decide +kernel
  rw [lexer, Lexer.ofDefinition, Logged.value_bind, Definition.build, hcompile]
  rfl

variable {c d : Cursor} {u : List Char}

theorem atStart_rule : rule.atStart =
    ⟨.seq (.look 0 .textStart) (.plus 1 (.one .all) true), 3, 0, true, false, false⟩ := by
  decide

/-- From the start of a text the rule matches all of it. -/
theorem find?_rule (hc : c.before = none) (hu : c.Reads u d) (hne : u ≠ [])
    (hend : d.ahead = []) : rule.atStart.find? false c = some ([], d) := by
  obtain ⟨x, u, rfl⟩ := List.exists_cons_of_ne_nil hne
  obtain ⟨rest, hahead, hrest⟩ := hu
  have hsettle : settle true c [rule.atStart.firstThread] (.start 3) =
      ⟨0, [⟨[.again 1 (.one .all) true], []⟩], none⟩ := by
    have hmark : Nat.testBit 2 1 = true := by decide
    simp [atStart_rule, Matcher.firstThread, settle, follow, visit, Front.start, Front.reach,
      Front.keepIf, Look.holds, hc, hahead, hmark, CharSet.has_all]
  have hloop : rule.atStart.IsLoop (.again 1 (.one .all) true) .all :=
    Matcher.isLoop_again (by decide)
  have hwalk : rule.atStart.walk none c.ahead c [rule.atStart.firstThread] none =
      some ([], d) := by
    unfold Matcher.walk
    rw [show rule.atStart.marks = 3 from rfl, hsettle, hahead]
    exact Matcher.walk_loop hloop rfl hrest (fun ch _ => CharSet.has_all ch) (by rw [hend]; rfl)
      none
  simpa [Matcher.find?, Matcher.matchFrom?, atStart_rule] using hwalk

theorem matchAt?_rule (hc : c.before = none) (hu : c.Reads u d) (hne : u ≠ [])
    (hend : d.ahead = []) : rule.matchAt? c = some ⟨d, []⟩ := by
  have hlt : c.offset < d.offset := by
    have hsize := byteSize_pos hne
    rw [hu.offset]
    omega
  have hfind : (rule.matcherAt c).find? rule.action.wantsGroups (CompiledRule.outlook c) =
      some ([], d) := by
    rw [CompiledRule.matcherAt, CompiledRule.outlook, hc]
    exact find?_rule hc hu hne hend
  rw [CompiledRule.matchAt?_eq, hfind]
  simp [hlt, rule, Action.wantsGroups]

/-! ### Tokens of plain text -/

/-- A scan makes one token of a text that is not empty, whether it has reached its limit or not. -/
theorem tokens_run (limit : Nat) (logUnmatched : Bool) {text : List Char} (hne : text ≠ []) :
    ((Scanner.mk compiled limit logUnmatched).run text).tokens = #[⟨.text, 0, byteSize text⟩] := by
  have hsize := byteSize_pos hne
  obtain ⟨d, hd, hend⟩ := Cursor.exists_reads (c := .start text 0) (List.append_nil text).symm
  have hoffset : d.offset = byteSize text := by rw [hd.offset]; exact Nat.zero_add _
  have hmatch : compiled.firstMatch? 0 (.start text 0) = some (rule, ⟨d, []⟩) := by
    show List.findSome? _ [rule] = _
    rw [List.findSome?_singleton, matchAt?_rule rfl hd hne hend]
    rfl
  have hpush : (({} : Progress).push .text 0 (byteSize text)).tokens =
      #[⟨.text, 0, byteSize text⟩] := by
    rw [Progress.push, if_pos hsize]
    rfl
  obtain ⟨ch, rest, rfl⟩ := List.exists_cons_of_ne_nil hne
  show (Scanner.scanFrom _ _ (ch :: rest) (.start (ch :: rest) 0) [0] {}).tokens = _
  rw [Scanner.scanFrom_of_cons rfl]
  split
  · -- the limit is reached at once, and the whole text is left
    rw [Scanner.tokens_truncate, ← hpush]
    exact congrArg (fun n => (({} : Progress).push .text 0 n).tokens) (Nat.zero_add _)
  · rw [Scanner.step, List.headD_cons, hmatch]
    dsimp only
    rw [Scanner.scanFrom_of_nil hend, Scanner.tokens_follow, ← hpush, ← hoffset]
    rfl

/-- Under any preferences a source is one token of plain text, or none when it is empty. -/
theorem tokenize_value (prefs : LexicalPreferences) (source : String) :
    (compiled.tokenize prefs source).value.tokens = Registry.unclassified source := by
  have htiles := compiled.rawTokens_tiles prefs source
  rw [Grammar.tokenize_tokens_eq_resolve, Registry.unclassified]
  by_cases hempty : source = ""
  · obtain rfl := hempty
    cases hraw : compiled.rawTokens prefs "" with
    | nil => rfl
    | cons t ts =>
      -- no piece of the empty source is left for a token
      rw [hraw] at htiles
      obtain ⟨u, v, huv, hu, -⟩ := htiles
      exact absurd (List.append_eq_nil_iff.1 huv.symm).1 hu
  · have hne : source.toList ≠ [] := by simpa using hempty
    have hraw : compiled.rawTokens prefs source = [⟨.text, 0, byteSize source.toList⟩] := by
      have hscan := tokens_run prefs.tokenLimit prefs.logUnmatched hne
      rw [Grammar.rawTokens, Grammar.progress, hscan]
      split <;> rfl
    have hresolve : RawToken.resolve source.toList ⟨.text, 0, byteSize source.toList⟩ =
        ⟨.text, String.ofList source.toList, .covering .start source.toList⟩ := by
      have h : RawToken.resolve ([] ++ (source.toList ++ []))
            ⟨.text, 0, byteSize source.toList⟩ =
          ⟨.text, String.ofList source.toList, .covering .start source.toList⟩ :=
        RawToken.resolve_append rfl (Nat.zero_add _).symm
      rwa [List.nil_append, List.append_nil] at h
    rw [hraw, if_neg (by simpa using hempty), List.map_singleton, hresolve, String.ofList_toList]

end PlainText

namespace Registry

/-- Where no lexer answers to a tag and none to that of plain text, a source is highlighted as the
lexer of plain text tokenizes it under any preferences: as one token from its start to its end, or
as no token when it is empty. -/
theorem highlight_unanswered {r : Registry} {tag : String} (htag : r.get? tag = none)
    (hplain : r.get? PlainText.tag = none) :
    ∃ l, PlainText.lexer.value = .ok l ∧ ∀ prefs source,
      (r.highlight tag source).value = (l.grammar.tokenize prefs source).value.tokens ∧
      (r.highlight tag source).value = if source = "" then [] else
        [⟨.text, source, ⟨.start, Position.start.advanceText source.toList⟩⟩] := by
  refine ⟨_, PlainText.lexer_value, fun prefs source => ?_⟩
  have hvalue : (r.highlight tag source).value = unclassified source := by
    rw [highlight, find?, htag, Logged.value_bind]
    dsimp only
    rw [hplain]
    rfl
  rw [PlainText.tokenize_value, hvalue, unclassified]
  refine ⟨rfl, ?_⟩
  simp only [String.isEmpty_iff]
  rfl

/-- A registry with the lexer of C alone, of which another language is asked for. -/
theorem highlight_unanswered_rust : ∃ c : Lexer, CFamily.cLexer.value = .ok c ∧
    (highlight ⟨[c]⟩ "rust" "µ\n").value = [⟨.text, "µ\n", ⟨⟨0, 1, 1⟩, ⟨3, 2, 1⟩⟩⟩] := by
  obtain ⟨c, hc, -⟩ := CFamily.exists_cLexer
  have hinfo : c.info = CFamily.cInfo := (Extension.ofDefinition_eq_ok_iff.1 hc).1
  have hnone : ∀ name, CFamily.cInfo.answersTo name = false → get? ⟨[c]⟩ name = none := by
    intro name hname
    rw [get?, List.reverse_singleton, List.find?_singleton, hinfo, hname]
    rfl
  obtain ⟨l, -, htokens⟩ := highlight_unanswered (hnone "rust" (by decide))
    (hnone PlainText.tag (by decide))
  exact ⟨c, hc, (htokens {} "µ\n").2⟩

end Registry

end Highlighting

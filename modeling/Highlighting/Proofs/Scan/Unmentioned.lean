import Highlighting.Proofs.Grammar.Extended
import Highlighting.Proofs.Scan.Related

/-!
# Sources without the words of an extension

An extended lexer and its base give the same tokens and metrics for a source in which none of the
words of the extension occurs (`tokenize_value_of_unmentioned`).

The rules that the extension adds match nowhere in such a source, because what they match is one of
the words as it is written; so at every place the first rule that matches is that of the base, in
the scan of the source and in those of groups.  The two scans go in step, and only the names in
what they report may differ.
-/

namespace Highlighting

/-- No word of an extension occurs in a text. -/
def Extension.Unmentioned (x : Extension) (text : List Char) : Prop :=
  ∀ e ∈ x.rules, ∀ w ∈ e.vocabulary.words, ¬ w.toList <:+: text

namespace Extension

variable {x : Extension} {g g' : Grammar} {c d : Cursor} {text : List Char}

theorem Unmentioned.of_isInfix {part : List Char} (h : x.Unmentioned text)
    (hpart : part <:+: text) : x.Unmentioned part := by
  intro e he w hw hmem
  exact h e he w hw (hmem.trans hpart)

theorem Unmentioned.of_reaches (h : x.Unmentioned c.ahead) (hd : c.Reaches d) :
    x.Unmentioned d.ahead := by
  obtain ⟨u, hu⟩ := hd
  exact h.of_isInfix ⟨u, [], by rw [hu.ahead, List.append_nil]⟩

/-- A rule of the extension matches nowhere in a text without its words. -/
theorem Has.matchAt?_eq_none {r : CompiledRule} (hr : x.Has r) (hc : c.Placed)
    (h : x.Unmentioned c.ahead) : r.matchAt? c = none := by
  obtain ⟨e, he, hr⟩ := hr
  rw [Option.eq_none_iff_forall_ne_some]
  intro m hm
  obtain ⟨w, hw, hreads, -⟩ := hr.stands hc hm
  exact h e he w hw ⟨[], m.stop.ahead, hreads.ahead.symm⟩

theorem Extends.padded (h : x.Extends g g') (state : Nat) :
    Padded x.Has (g.rules state) (g'.rules state) := by
  obtain ⟨block, rest, hrules, hblock, hrest⟩ := (h.rules state).split
  rw [hrules]
  refine .put_append (fun r hr => ?_) hrest
  obtain ⟨v, hv, hr⟩ := exists_vocabulary hblock hr
  cases hname : g.stateName? state with
  | none => rw [hname] at hv; cases hv
  | some s =>
    rw [hname] at hv
    obtain ⟨e, he, -, rfl⟩ := mem_listedIn.1 hv
    exact ⟨e, he, hr⟩

theorem Extends.firstMatch?_eq (h : x.Extends g g') (hc : c.Placed) (hun : x.Unmentioned c.ahead)
    (state : Nat) : g'.firstMatch? state c = g.firstMatch? state c :=
  (h.padded state).findSome?_eq fun r hr => by rw [hr.matchAt?_eq_none hc hun]; rfl

theorem Extends.root_eq (h : x.Extends g g') : g'.root = g.root := by
  have hindex : ∀ g : Grammar,
      g.stateIndex? rootState = g.stateNames.findIdx? (· == rootState) := by
    intro g
    rw [Grammar.stateIndex?, Grammar.stateNames, List.findIdx?_map]
    rfl
  rw [Grammar.root, Grammar.root, hindex, hindex, h.names]

end Extension

/-- Progress that differs in what was reported only. -/
structure Progress.Alike (p p' : Progress) : Prop where
  tokens : p'.tokens = p.tokens
  unmatchedBytes : p'.unmatchedBytes = p.unmatchedBytes
  maxDepth : p'.maxDepth = p.maxDepth
  ignoredPushes : p'.ignoredPushes = p.ignoredPushes
  truncated : p'.truncated = p.truncated

namespace Progress

variable {p p' : Progress}

theorem Alike.refl (p : Progress) : p.Alike p := ⟨rfl, rfl, rfl, rfl, rfl⟩

theorem Alike.push : KeptByPush Alike := by
  intro p p' category start stop h
  rw [Progress.push, Progress.push]
  split
  · exact { h with tokens := by rw [h.tokens] }
  · exact h

theorem Alike.report (h : p.Alike p') (e e' : Event) : (p.report e).Alike (p'.report e') :=
  ⟨h.tokens, h.unmatchedBytes, h.maxDepth, h.ignoredPushes, h.truncated⟩

end Progress

namespace Scanner

variable {s s' : Scanner} {p p' : Progress}

theorem follow_alike (s s' : Scanner) (h : p.Alike p') (t : Transition Nat) (stack : List Nat) :
    (s'.follow t stack p').1 = (s.follow t stack p).1 ∧
      (s.follow t stack p).2.Alike (s'.follow t stack p').2 := by
  cases t with
  | stay => exact ⟨rfl, h⟩
  | pop => exact ⟨rfl, h⟩
  | push state =>
    rw [follow, follow]
    dsimp only
    split
    · refine ⟨rfl, ?_⟩
      rw [h.ignoredPushes]
      have hcount : Progress.Alike { p with ignoredPushes := p.ignoredPushes + 1 }
          { p' with ignoredPushes := p.ignoredPushes + 1 } := { h with ignoredPushes := rfl }
      split
      · exact hcount.report _ _
      · exact hcount
    · exact ⟨rfl, { h with maxDepth := by rw [h.maxDepth] }⟩

theorem truncate_alike (h : p.Alike p') (c : Cursor) :
    (s.truncate c p).Alike (s'.truncate c p') := by
  rw [truncate, truncate]
  refine Progress.Alike.push _ _ _ _ _ ?_
  rw [h.truncated]
  split
  · exact h
  · have hmark : Progress.Alike { p with truncated := true } { p' with truncated := true } :=
      { h with truncated := rfl }
    exact hmark.report _ _

theorem unmatched_alike (hlog : s'.logUnmatched = s.logUnmatched) (h : p.Alike p') (state : Nat)
    (c : Cursor) (ch : Char) :
    (s.unmatched state c ch p).Alike (s'.unmatched state c ch p') := by
  have hcount : Progress.Alike { p with unmatchedBytes := p.unmatchedBytes + ch.utf8Size }
      { p' with unmatchedBytes := p'.unmatchedBytes + ch.utf8Size } :=
    { h with unmatchedBytes := by rw [h.unmatchedBytes] }
  rw [unmatched, unmatched, hlog]
  refine Progress.Alike.push _ _ _ _ _ ?_
  split
  · exact hcount.report _ _
  · exact hcount

section Lockstep

variable {x : Extension} {rescan rescan' : Rescan} {c : Cursor}

/-- One step of both scans goes to one place, changes the stack alike and keeps the progress
alike. -/
theorem step_alike (hg : x.Extends s.grammar s'.grammar)
    (hlog : s'.logUnmatched = s.logUnmatched)
    (hrescan : rescan.Related (fun _ _ => x.Unmentioned) Progress.Alike rescan') (hc : c.Placed)
    (hun : x.Unmentioned c.ahead) (ch : Char) (rest : List Char) (stack : List Nat)
    (h : p.Alike p') :
    (s'.step rescan' c ch rest stack p').1 = (s.step rescan c ch rest stack p).1 ∧
      (s'.step rescan' c ch rest stack p').2.1 = (s.step rescan c ch rest stack p).2.1 ∧
      (s.step rescan c ch rest stack p).2.2.Alike (s'.step rescan' c ch rest stack p').2.2 := by
  rw [step, step, hg.firstMatch?_eq hc hun]
  split
  · next r m hm =>
    have htext : c.Offers (fun _ _ => x.Unmentioned) r.action.states := by
      intro _ _ y d v w hy hd
      exact hun.of_isInfix ⟨v, d.ahead, by rw [hy.ahead, hd.ahead, List.append_assoc]⟩
    have hinside := Grammar.firstMatch?_inside hc hm
    have hemit := emit_related Progress.Alike.push hrescan htext hinside h
    obtain ⟨hstack, hfollow⟩ := follow_alike s s' hemit r.transition stack
    exact ⟨rfl, hstack, hfollow⟩
  · exact ⟨rfl, rfl, unmatched_alike hlog h _ c ch⟩

theorem scanFrom_alike (hg : x.Extends s.grammar s'.grammar) (hlimit : s'.limit = s.limit)
    (hlog : s'.logUnmatched = s.logUnmatched)
    (hrescan : rescan.Related (fun _ _ => x.Unmentioned) Progress.Alike rescan') (bound : List Char)
    (hc : c.Placed) (hun : x.Unmentioned c.ahead) (stack : List Nat) (h : p.Alike p') :
    (s.scanFrom rescan bound c stack p).Alike (s'.scanFrom rescan' bound c stack p') := by
  induction bound generalizing c stack p p' with
  | nil => exact h
  | cons b bound ih =>
    rw [scanFrom, scanFrom]
    split
    · exact h
    · next ch rest hahead =>
      rw [h.tokens, hlimit]
      split
      · exact truncate_alike h c
      · have hreach := step_reaches s rescan hc hahead stack p
        obtain ⟨hplace, hstack, halike⟩ := step_alike hg hlog hrescan hc hun ch
          rest stack h
        dsimp only
        rw [hplace, hstack]
        exact ih (hreach.placed hc) (hun.of_reaches hreach) _ halike

theorem scan_alike (s s' : Scanner) (hg : x.Extends s.grammar s'.grammar)
    (hlimit : s'.limit = s.limit) (hlog : s'.logUnmatched = s.logUnmatched) (levels : Nat) :
    Rescan.Related (fun _ _ => x.Unmentioned) Progress.Alike (s.scan levels) (s'.scan levels) := by
  induction levels with
  | zero =>
    intro state text offset p p' htext h
    exact scanFrom_alike hg hlimit hlog (Rescan.related_plain Progress.Alike.push _) text
      (Cursor.placed_start text offset) htext [state] h
  | succ levels ih =>
    intro state text offset p p' htext h
    exact scanFrom_alike hg hlimit hlog ih text (Cursor.placed_start text offset) htext [state] h

end Lockstep

end Scanner

/-- A source in which no word of an extension occurs has the same tokens and metrics with the
extended lexer and with its base, whatever the preferences are. -/
theorem tokenize_value_of_unmentioned {x : Extension} {info : LexerInfo} {d : Definition}
    {base ext : Lexer} (hbase : (Lexer.ofDefinition info d).value = .ok base)
    (hext : (x.extend base).value = .ok ext) (prefs : LexicalPreferences) {source : String}
    (hun : ∀ e ∈ x.rules, ∀ w ∈ e.vocabulary.words, ¬ w.toList <:+: source.toList) :
    (ext.grammar.tokenize prefs source).value = (base.grammar.tokenize prefs source).value := by
  have hg := Extension.extend_extends hbase hext
  let s : Scanner := ⟨base.grammar, prefs.tokenLimit, prefs.logUnmatched⟩
  let s' : Scanner := ⟨ext.grammar, prefs.tokenLimit, prefs.logUnmatched⟩
  have hrun : (s.run source.toList).Alike (s'.run source.toList) := by
    rw [Scanner.run, Scanner.run, hg.root_eq]
    exact Scanner.scan_alike s s' hg rfl rfl _ _ _ _ _ _ hun (.refl {})
  rw [Grammar.tokenize, Grammar.tokenize]
  dsimp only
  rw [hrun.tokens, hrun.unmatchedBytes, hrun.maxDepth, hrun.ignoredPushes, hrun.truncated]

theorem tokenize_value_of_unmentioned_let : ∃ base ext : Lexer,
    PlainText.lexer.value = .ok base ∧ (Extension.letExtension.extend base).value = .ok ext ∧
      (ext.grammar.tokenize {} "no word").value = (base.grammar.tokenize {} "no word").value := by
  obtain ⟨base, ext, hbase, hext, -⟩ := Extension.exists_letLexer
  refine ⟨base, ext, hbase, hext, tokenize_value_of_unmentioned hbase hext {} ?_⟩
  decide +kernel

end Highlighting

import Highlighting.Proofs.Scan.Limits

/-!
# Tokens beyond the limit

A scan looks at its token limit before each step and never within one.  A match whose groups make
tokens of their own goes on with all of them, and a group that is scanned anew leaves only the rest
of its own text unclassified when the limit is reached there, so one match may bring any number of
tokens beyond the limit (`Grammar.tokenize_overruns`).  That is all: the tokens of a source are
those within the limit, those of one such match and at most one plain token that runs to the end of
the source (`Grammar.tokenize_overrun`).  Where no rule makes tokens of groups there is no such
match (`Grammar.tokenize_length_le`).
-/

namespace Highlighting

namespace Scanner

variable {s : Scanner} {rescan : Rescan} {b c : Cursor} {r : CompiledRule} {m : RuleMatch}

theorem size_push_le (p : Progress) (category : Category) (start stop : Nat) :
    (p.push category start stop).tokens.size ≤ p.tokens.size + 1 := by
  unfold Progress.push
  split
  · exact Nat.le_of_eq (Array.size_push _)
  · exact Nat.le_succ _

/-- A match without groups makes one token. -/
theorem size_emit_le (rescan : Rescan) (c : Cursor) (m : RuleMatch)
    (hr : r.action.wantsGroups = false) (p : Progress) :
    (emit rescan c r m p).tokens.size ≤ p.tokens.size + 1 := by
  rw [emit]
  split
  · exact size_push_le p _ _ _
  · exact size_push_le p _ _ _
  · next actions haction =>
    rw [haction] at hr
    cases hr

/-- A step that makes more than one token is a match with groups, and its tokens tile the match. -/
theorem step_overrun (hrescan : rescan.Covers) (hc : c.Placed) {ch : Char} {rest : List Char}
    {stack : List Nat} {p : Progress}
    (hsize : p.tokens.size + 1 < (s.step rescan c ch rest stack p).2.2.tokens.size) :
    ∃ r m u, s.grammar.firstMatch? (stack.headD 0) c = some (r, m) ∧
      r.action.wantsGroups = true ∧ c.Reads u m.stop ∧
      p.Covers c.offset u (s.step rescan c ch rest stack p).2.2 := by
  rw [step] at hsize ⊢
  split at hsize
  · next r m hm =>
    have hin := Grammar.firstMatch?_inside hc hm
    obtain ⟨u, hu⟩ := hin.reaches
    rw [tokens_follow] at hsize
    refine ⟨r, m, u, hm, ?_, hu, ?_⟩
    · by_contra hgroups
      have := size_emit_le rescan c m (Bool.eq_false_iff.2 hgroups) p
      omega
    · obtain ⟨ts, hts, htile⟩ := emit_covers (r := r) hrescan hin hu p
      exact ⟨ts, by rw [tokens_follow, hts], htile⟩
  · next hm =>
    rw [tokens_unmatched] at hsize
    have := size_push_le p .text c.offset (c.offset + ch.utf8Size)
    omega

/-- Once the limit is reached, a scan makes one plain token of what is left. -/
theorem scanFrom_of_limit_le (rescan : Rescan) {p : Progress}
    (hsize : s.limit ≤ p.tokens.size) {bound : List Char}
    (hbound : c.ahead.length ≤ bound.length) (stack : List Nat) :
    ∃ rest, (s.scanFrom rescan bound c stack p).tokens.toList = p.tokens.toList ++ rest ∧
      (rest = [] ∨ rest = [⟨.text, c.offset, c.offset + byteSize c.ahead⟩]) := by
  cases hahead : c.ahead with
  | nil => exact ⟨[], by rw [scanFrom_of_nil hahead, List.append_nil], .inl rfl⟩
  | cons ch rest =>
    cases bound with
    | nil => simp [hahead] at hbound
    | cons b bound =>
      rw [scanFrom_of_cons hahead, if_pos hsize, tokens_truncate, hahead, Progress.push]
      split
      · exact ⟨_, Array.toList_push, .inr rfl⟩
      · exact ⟨[], (List.append_nil _).symm, .inl rfl⟩

/-- The tokens of a text: those within a limit, those of one match with groups that crosses the
limit, and a plain token that runs to the end of the text. -/
structure Overrun (s : Scanner) (b : Cursor) (kept crossing rest : List RawToken) : Prop where
  kept_le : kept.length ≤ s.limit
  crosses : crossing = [] ∨ kept.length < s.limit ∧
    ∃ state c r m u, b.Reaches c ∧ s.grammar.firstMatch? state c = some (r, m) ∧
      r.action.wantsGroups = true ∧ c.Reads u m.stop ∧ Tiles c.offset u crossing
  remains : rest = [] ∨ s.limit ≤ (kept ++ crossing).length ∧
    ∃ start, rest = [⟨.text, start, b.offset + byteSize b.ahead⟩]

theorem scanFrom_overrun (hrescan : rescan.Covers) (hb : b.Placed) (hreach : b.Reaches c)
    {bound : List Char} (hbound : c.ahead.length ≤ bound.length) (stack : List Nat) {p : Progress}
    (hsize : p.tokens.size ≤ s.limit) :
    ∃ kept crossing rest,
      (s.scanFrom rescan bound c stack p).tokens.toList = kept ++ crossing ++ rest ∧
        s.Overrun b kept crossing rest := by
  induction bound generalizing c stack p with
  | nil =>
    have hkept : p.tokens.toList.length ≤ s.limit := by rwa [Array.length_toList]
    exact ⟨p.tokens.toList, [], [], by simp [scanFrom], hkept, .inl rfl, .inl rfl⟩
  | cons x bound ih =>
    have hc := hreach.placed hb
    have hkept : p.tokens.toList.length ≤ s.limit := by rwa [Array.length_toList]
    by_cases hlimit : s.limit ≤ p.tokens.size
    · obtain ⟨rest, htokens, hrest⟩ := scanFrom_of_limit_le rescan hlimit hbound stack
      refine ⟨p.tokens.toList, [], rest, by simpa using htokens, hkept, .inl rfl, ?_⟩
      rw [hreach.end_eq] at hrest
      exact hrest.imp_right fun h => ⟨by simpa using hlimit, _, h⟩
    cases hahead : c.ahead with
    | nil =>
      rw [scanFrom_of_nil hahead]
      exact ⟨p.tokens.toList, [], [], by simp, hkept, .inl rfl, .inl rfl⟩
    | cons ch more =>
      rw [scanFrom_of_cons hahead, if_neg hlimit]
      obtain ⟨u, hu, hto, -⟩ := step_covers (s := s) hrescan hc hahead stack p
      have hnext := hreach.trans hto.reaches
      have hlength : (s.step rescan c ch more stack p).1.ahead.length ≤ bound.length := by
        have hlen := congrArg List.length hto.ahead
        have hpos := List.length_pos_iff.2 hu
        rw [List.length_append] at hlen
        rw [List.length_cons] at hbound
        omega
      by_cases hstep : (s.step rescan c ch more stack p).2.2.tokens.size ≤ s.limit
      · exact ih hnext hlength _ hstep
      · -- this step crosses the limit, and nothing but the rest of the text is left behind it
        have hmore : p.tokens.size + 1 < (s.step rescan c ch more stack p).2.2.tokens.size := by
          omega
        obtain ⟨r, m, v, hm, hgroups, hv, ts, hts, htile⟩ := step_overrun hrescan hc hmore
        obtain ⟨rest, htokens, hrest⟩ := scanFrom_of_limit_le rescan
          (Nat.le_of_not_le hstep) hlength (s.step rescan c ch more stack p).2.1
        refine ⟨p.tokens.toList, ts, rest, by rw [htokens, hts], hkept, .inr ⟨?_, ?_⟩, ?_⟩
        · rw [Array.length_toList]
          omega
        · exact ⟨_, c, r, m, v, hreach, hm, hgroups, hv, htile⟩
        · rw [hnext.end_eq] at hrest
          refine hrest.imp_right fun h => ⟨?_, _, h⟩
          rw [← hts, Array.length_toList]
          omega

theorem scan_overrun (s : Scanner) (levels state : Nat) (text : List Char) (offset : Nat) :
    ∃ kept crossing rest, (s.scan levels state text offset {}).tokens.toList =
      kept ++ crossing ++ rest ∧ s.Overrun (.start text offset) kept crossing rest := by
  have hplaced := Cursor.placed_start text offset
  cases levels with
  | zero =>
    exact scanFrom_overrun Rescan.covers_plain hplaced (.refl _) (Nat.le_refl _) _ (Nat.zero_le _)
  | succ levels =>
    exact scanFrom_overrun (scan_covers s levels) hplaced (.refl _) (Nat.le_refl _) _
      (Nat.zero_le _)

end Scanner

namespace Grammar

/-- The tokens of a source as byte ranges, those beyond the limit set apart. -/
theorem progress_overrun (g : Grammar) (prefs : LexicalPreferences) (source : String) :
    ∃ kept crossing rest, (g.progress prefs source).tokens.toList = kept ++ crossing ++ rest ∧
      kept.length ≤ prefs.tokenLimit ∧
      (crossing = [] ∨ kept.length < prefs.tokenLimit ∧
        ∃ state c r m u, (Cursor.start source.toList 0).Reaches c ∧
          g.firstMatch? state c = some (r, m) ∧ r.action.wantsGroups = true ∧
          c.Reads u m.stop ∧ Tiles c.offset u crossing) ∧
      (rest = [] ∨ prefs.tokenLimit ≤ (kept ++ crossing).length ∧
        ∃ start, rest = [⟨.text, start, source.utf8ByteSize⟩]) := by
  let s : Scanner := ⟨g, prefs.tokenLimit, prefs.logUnmatched⟩
  obtain ⟨kept, crossing, rest, htokens, hoverrun⟩ :=
    s.scan_overrun Limits.maxStateDepth g.root source.toList 0
  have hsize : source.utf8ByteSize = 0 + byteSize source.toList := by
    rw [utf8ByteSize_eq, Nat.zero_add]
  exact ⟨kept, crossing, rest, htokens, hoverrun.kept_le, hoverrun.crosses,
    hsize ▸ hoverrun.remains⟩

/-- The tokens of a source under a token limit: those within the limit, those of one match with
groups that begins within it, and at most one plain token that runs to the end of the source. -/
theorem tokenize_overrun (g : Grammar) (prefs : LexicalPreferences)
    (hmerge : prefs.mergeAdjacent = false) (source : String) :
    ∃ kept crossing rest : TokenStream,
      (g.tokenize prefs source).value.tokens = kept ++ crossing ++ rest ∧
      kept.length ≤ prefs.tokenLimit ∧
      (crossing = [] ∨ kept.length < prefs.tokenLimit ∧
        ∃ state c r m, (Cursor.start source.toList 0).Reaches c ∧
          g.firstMatch? state c = some (r, m) ∧ r.action.wantsGroups = true ∧
          ∀ t ∈ crossing, c.offset ≤ t.span.start.offset ∧ t.span.stop.offset ≤ m.stop.offset) ∧
      (rest = [] ∨ prefs.tokenLimit ≤ (kept ++ crossing).length ∧
        ∃ t, rest = [t] ∧ t.category = .text ∧ t.span.stop.offset = source.utf8ByteSize) := by
  obtain ⟨kept, crossing, rest, hrun, hle, hcrosses, hremains⟩ := g.progress_overrun prefs source
  have hplaces {t : RawToken} (ht : t ∈ kept ++ crossing ++ rest) := g.progress_resolve (hrun ▸ ht)
  let resolve := List.map (RawToken.resolve source.toList)
  refine ⟨resolve kept, resolve crossing, resolve rest, ?_, by rwa [List.length_map], ?_, ?_⟩
  · rw [tokenize_tokens_eq_map g prefs hmerge, hrun, List.map_append, List.map_append]
  · rw [List.map_eq_nil_iff, List.length_map]
    refine hcrosses.imp_right ?_
    rintro ⟨hlt, state, c, r, m, u, hc, hm, hgroups, hu, htiles⟩
    refine ⟨hlt, state, c, r, m, hc, hm, hgroups, fun t ht => ?_⟩
    obtain ⟨x, hx, rfl⟩ := List.mem_map.1 ht
    obtain ⟨hstart, hstop⟩ := hplaces (t := x) (by simp [hx])
    rw [hstart, hstop, hu.offset]
    exact htiles.bounds hx
  · rw [List.map_eq_nil_iff, ← List.map_append, List.length_map]
    refine hremains.imp_right ?_
    rintro ⟨hle, start, rfl⟩
    exact ⟨hle, _, rfl, rfl, (hplaces (List.mem_append_right _ List.mem_cons_self)).2⟩

/-- Calls of functions: the words in front of a bracket are a group that is scanned anew. -/
def calls : Definition where
  name := "calls"
  states :=
    [(rootState, [.rule (.groups "([a-z ]+)(\\()" [.scan "words", .token .punctuation])]),
     ("words", [.rule (.token "[a-z]+" .name)])]

/-- A match goes on beyond the limit that is reached in one of its groups. -/
theorem tokenize_overrun_calls : ∃ g, calls.build.value = .ok g ∧
    ∃ kept crossing rest : TokenStream,
      (g.tokenize { mergeAdjacent := false, maxTokens := 1 } "int f(x").value.tokens =
        kept ++ crossing ++ rest ∧ kept.length ≤ 1 := by
  have hbuilds : calls.build.value.toOption.isSome = true := by decide +kernel
  obtain ⟨g, hg⟩ := Option.isSome_iff_exists.1 hbuilds
  obtain ⟨kept, crossing, rest, htokens, hle, -⟩ :=
    tokenize_overrun g { mergeAdjacent := false, maxTokens := 1 } rfl "int f(x"
  exact ⟨g, Except.eq_ok_of_toOption hg, kept, crossing, rest, htokens, hle⟩

/-- Under the limit of one token, three tokens stand behind the first. -/
theorem tokenize_overruns : ∃ g, calls.build.value = .ok g ∧
    let tokens := (g.tokenize { mergeAdjacent := false, maxTokens := 1 } "int f(x").value.tokens
    tokens.map (fun t => (t.category, t.text)) =
        [(.name, "int"), (.text, " f"), (.punctuation, "("), (.text, "x")] ∧
      ¬ (tokens.length ≤ 1 + 1 ∧ (1 < tokens.length → ∃ t, tokens.drop 1 = [t])) := by
  have htokens : calls.build.value.toOption.map (fun g =>
      (g.tokenize { mergeAdjacent := false, maxTokens := 1 } "int f(x").value.tokens.map
        fun t => (t.category, t.text)) =
      some [(.name, "int"), (.text, " f"), (.punctuation, "("), (.text, "x")] := by
    decide +kernel
  obtain ⟨g, hg, htokens⟩ := Option.map_eq_some_iff.1 htokens
  refine ⟨g, Except.eq_ok_of_toOption hg, htokens, fun hclaim => ?_⟩
  have hlength := congrArg List.length htokens
  rw [List.length_map] at hlength
  rw [hlength] at hclaim
  exact absurd hclaim.1 (by decide)

/-- Where no rule makes tokens of groups, there is at most one token beyond the limit, which is
plain and runs to the end of the source. -/
theorem tokenize_length_le (g : Grammar) (prefs : LexicalPreferences)
    (hmerge : prefs.mergeAdjacent = false)
    (hsingle : ∀ state, ∀ r ∈ g.rules state, r.action.wantsGroups = false) (source : String) :
    let tokens := (g.tokenize prefs source).value.tokens
    tokens.length ≤ prefs.tokenLimit + 1 ∧
      (prefs.tokenLimit < tokens.length → ∃ t, tokens.drop prefs.tokenLimit = [t] ∧
        t.category = .text ∧ t.span.stop.offset = source.utf8ByteSize) := by
  obtain ⟨kept, crossing, rest, hrun, hle, hcrosses, hremains⟩ := g.progress_overrun prefs source
  obtain rfl : crossing = [] := by
    rcases hcrosses with hnil | ⟨-, state, c, r, m, -, -, hm, hgroups, -⟩
    · exact hnil
    · rw [hsingle state r (mem_of_firstMatch? hm).1] at hgroups
      cases hgroups
  rw [List.append_nil] at hrun hremains
  dsimp only
  rw [tokenize_tokens_eq_map g prefs hmerge, hrun, List.length_map, List.length_append]
  rcases hremains with rfl | ⟨hge, start, rfl⟩
  · rw [List.length_nil]
    exact ⟨by omega, fun hlt => absurd hlt (by omega)⟩
  · let last : RawToken := ⟨.text, start, source.utf8ByteSize⟩
    refine ⟨by simpa using hle, fun _ => ⟨last.resolve source.toList, ?_, rfl, ?_⟩⟩
    · rw [← Nat.le_antisymm hle hge, ← List.map_drop, List.drop_left]
      rfl
    · exact (g.progress_resolve (hrun ▸ List.mem_append_right _ List.mem_cons_self)).2

end Grammar

end Highlighting

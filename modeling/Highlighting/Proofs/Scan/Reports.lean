import Highlighting.Proofs.Scan.Leftovers
import Highlighting.Proofs.Scan.Order

/-!
# What a scan reports

The warnings of a scan agree with its counters.  That the token limit is reached and that the state
stack is full is reported once in a run, however often it happens and in whichever scan
(`Scanner.run_reportsOnce`).  Unmatched characters are reported one by one, in the order of the
source and with their offsets in it (`Grammar.tokenize_reports`).
-/

namespace Highlighting

/-- There is one warning of the token limit if the scan is truncated and none otherwise, and one of
the full state stack if a push was ignored and none otherwise. -/
structure Progress.ReportsOnce (p : Progress) : Prop where
  limit : (p.warnings .tokenLimitReached).length = if p.truncated then 1 else 0
  depth : (p.warnings .stateDepthExceeded).length = if 0 < p.ignoredPushes then 1 else 0

namespace Progress.ReportsOnce

variable {s : Scanner} {p : Progress}

theorem empty : ReportsOnce {} := ⟨rfl, rfl⟩

theorem push (h : p.ReportsOnce) (category : Category) (start stop : Nat) :
    (p.push category start stop).ReportsOnce where
  limit := by rw [p.warnings_push, p.push_truncated, h.limit]
  depth := by rw [p.warnings_push, p.ignoredPushes_push, h.depth]

theorem unmatched (h : p.ReportsOnce) (state : Nat) (c : Cursor) (ch : Char) :
    (s.unmatched state c ch p).ReportsOnce where
  limit := by
    have hcode : Code.tokenLimitReached ≠ Code.unmatchedInput := by decide
    rw [s.warnings_unmatched, s.truncated_unmatched, if_neg fun hand => hcode hand.2,
      List.append_nil, h.limit]
  depth := by
    have hcode : Code.stateDepthExceeded ≠ Code.unmatchedInput := by decide
    rw [s.warnings_unmatched, s.ignoredPushes_unmatched, if_neg fun hand => hcode hand.2,
      List.append_nil, h.depth]

/-- The token limit is reported only where the scan has not been truncated before. -/
theorem truncate (h : p.ReportsOnce) (c : Cursor) : (s.truncate c p).ReportsOnce where
  limit := by
    rw [s.warnings_truncate, s.truncated_truncate, List.length_append, h.limit]
    cases p.truncated <;> simp
  depth := by
    have hcode : Code.stateDepthExceeded ≠ Code.tokenLimitReached := by decide
    rw [s.warnings_truncate, s.ignoredPushes_truncate, if_neg fun hand => hcode hand.2,
      List.append_nil, h.depth]

/-- A full state stack is reported only where no push has been ignored before. -/
theorem follow (h : p.ReportsOnce) (t : Transition Nat) (stack : List Nat) :
    (s.follow t stack p).2.ReportsOnce where
  limit := by
    rw [Scanner.warnings_follow (by decide), s.truncated_follow, h.limit]
  depth := by
    rcases s.follow_eq t stack p with ⟨hpushes, hevents⟩ | ⟨state, hpushes, hevents⟩
    · rw [warnings_congr hevents, hpushes, h.depth]
    · rw [hpushes, if_pos (Nat.succ_pos _)]
      split at hevents
      · next hfirst =>
        have hdepth := h.depth
        rw [hfirst, if_neg (Nat.lt_irrefl 0)] at hdepth
        have hreport : (s.depthReport state).warnsOf .stateDepthExceeded = true := rfl
        rw [warnings_congr (p := p.report (s.depthReport state)) hevents, warnings_report,
          if_pos hreport, List.length_append, hdepth, List.length_singleton]
      · next hlater =>
        rw [warnings_congr hevents, h.depth, if_pos (Nat.pos_of_ne_zero hlater)]

end Progress.ReportsOnce

namespace Scanner

theorem obeys_reportsOnce (s : Scanner) :
    s.Obeys (fun p q => p.ReportsOnce → q.ReportsOnce) fun _ _ => True where
  refl _ := id
  trans h h' := h' ∘ h
  push _ category start stop h := h.push category start stop
  unmatched state c ch _ h := h.unmatched state c ch
  truncate c _ h := h.truncate c
  start _ _ := trivial
  later _ _ := trivial
  follow t stack _ _ := ⟨fun h => h.follow t stack, trivial⟩

/-- However often the token limit is reached or the state stack is full in a run, it is reported
once. -/
theorem run_reportsOnce (s : Scanner) (source : List Char) : (s.run source).ReportsOnce :=
  s.obeys_reportsOnce.scan _ _ _ _ _ .empty

end Scanner

namespace Grammar

/-- The warnings of a tokenization are those of its scan. -/
theorem filter_events_tokenize (g : Grammar) (prefs : LexicalPreferences) (source : String)
    (code : Code) : (g.tokenize prefs source).events.filter (·.warnsOf code) =
      (g.progress prefs source).warnings code := by
  simp only [tokenize, List.filter_append, Progress.warnings, progress]
  rw [List.filter_cons_of_neg (by rw [Event.warnsOf_debug]; exact Bool.false_ne_true),
    List.filter_cons_of_neg (by rw [Event.warnsOf_success]; exact Bool.false_ne_true)]
  exact List.append_nil _

/-- The warnings of a tokenization agree with its metrics.  The token limit is reported once if the
tokens are truncated, and a full state stack once if pushes were ignored.  The unmatched characters
are reported if the preferences ask for it, each once, in the order of the source and with the
offset at which it stands there; the bytes of these characters are those that the metrics count. -/
theorem tokenize_reports (g : Grammar) (prefs : LexicalPreferences) (source : String) :
    let result := g.tokenize prefs source
    let metrics := result.value.metrics
    (result.events.filter (·.warnsOf .tokenLimitReached)).length =
        (if metrics.truncated then 1 else 0) ∧
    (result.events.filter (·.warnsOf .stateDepthExceeded)).length =
        (if 0 < metrics.ignoredPushes then 1 else 0) ∧
    ∃ found : List Unmatched,
      (∀ u, u ∈ found ↔ g.Leaves prefs source (.unmatched u)) ∧
      found.Pairwise (fun u v => u.offset < v.offset) ∧
      (∀ u ∈ found, ∃ before after, source.toList = before ++ u.char :: after ∧
        byteSize before = u.offset) ∧
      result.events.filter (·.warnsOf .unmatchedInput) =
        (if prefs.logUnmatched then found.map g.unmatchedReport else []) ∧
      (found.map fun u => u.char.utf8Size).sum = metrics.fallbackCharacters := by
  intro result metrics
  have honce : (g.progress prefs source).ReportsOnce := Scanner.run_reportsOnce _ _
  obtain ⟨ls, hmem, hpairwise, hstands, hleaves⟩ := g.exists_leftovers prefs source
  have hreports := hleaves.reports
  have hbytes := hleaves.bytes
  refine ⟨?_, ?_, ls.filterMap Leftover.unmatched?, fun u => ?_, ?_, fun u hu => ?_, ?_, ?_⟩
  · rw [filter_events_tokenize]
    exact honce.limit
  · rw [filter_events_tokenize]
    exact honce.depth
  · rw [Leftover.mem_filterMap_unmatched?, hmem]
  · refine List.pairwise_filterMap.2 (hpairwise.imp ?_)
    intro l l' hle u hu v hv
    obtain rfl := Leftover.unmatched?_eq_some.1 hu
    obtain rfl := Leftover.unmatched?_eq_some.1 hv
    rw [Leftover.size_unmatched] at hle
    exact Nat.lt_of_lt_of_le (Nat.lt_add_of_pos_right u.char.utf8Size_pos) hle
  · obtain ⟨-, before, after, hsource, hoffset⟩ :=
      hstands _ (Leftover.mem_filterMap_unmatched?.1 hu)
    exact ⟨before, after, by simpa [Leftover.text] using hsource, hoffset⟩
  · rw [filter_events_tokenize, hreports]
    rfl
  · exact (hbytes.trans (Nat.zero_add _)).symm

end Grammar

end Highlighting

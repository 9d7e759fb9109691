import Highlighting.Proofs.Pattern.Endings
import Highlighting.Proofs.Pattern.Lockstep
import Highlighting.Proofs.Scan.RuleShape

/-!
# Where the matches of rules end

If the search for matches of a rule misses none, a match is the preferred way through the route of
its pattern (`CompiledRule.tries_of_matchAt?`).  So a rule whose route settles does not leave a scan
inside of a word (`CompiledRule.not_inWord_of_settles`).
-/

namespace Highlighting

namespace CompiledRule

variable {r : CompiledRule} {c : Cursor} {m : RuleMatch} {p : Route}

/-- A match is what comes of trying the route of the declared pattern. -/
theorem tries_of_matchAt? (h : r.isComplete = true) (hbody : r.body? = some p) (hc : c.Placed)
    (hm : r.matchAt? c = some m) :
    ∃ met caps caps', Route.Tries met [p] c caps (some (caps', m.stop)) := by
  obtain ⟨⟨k, k', hstart, hcontext⟩, hsearch⟩ := routes_of_isComplete h hbody
  obtain ⟨hanchored, htied, hidle⟩ := hsearch c
  obtain ⟨caps', hfind, -, -⟩ := matchAt?_eq_some hm
  have htries := Matcher.tries_matchFrom? htied hidle r.action.wantsGroups (outlook c)
  rw [Matcher.find?, if_pos hanchored] at hfind
  rw [hfind] at htries
  cases hb : c.before with
  | none =>
    rw [matcherAt, outlook, hb] at htries
    simp only [Option.isNone_none, if_true, hstart] at htries
    cases htries with
    | seq htries =>
      cases htries with
      | look _ _ htries => exact ⟨_, _, _, htries⟩
  | some b =>
    rw [matcherAt, outlook, hb] at htries
    simp only [Option.isNone_some, Bool.false_eq_true, if_false, hcontext] at htries
    obtain ⟨ahead, hahead, hback⟩ := hc.reads_back hb
    cases htries with
    | seq htries =>
      cases htries with
      | look _ _ htries =>
        cases htries with
        | seq htries =>
          cases htries with
          | one hx _ htries =>
            obtain ⟨rfl, rfl⟩ := List.cons.inj hx
            obtain ⟨-, rfl⟩ := List.cons.inj hahead
            rw [Cursor.reads_nil] at hback
            exact ⟨_, _, _, hback ▸ htries⟩

/-- Whether the matches of a rule come to places where no word goes on. -/
def settles (r : CompiledRule) : Bool := r.isComplete && r.body?.any (·.settles [])

/-- The match of a rule that settles does not end inside of a word. -/
theorem not_inWord_of_settles (h : r.settles = true) (hc : c.Placed)
    (hm : r.matchAt? c = some m) : ¬ m.stop.InWord := by
  rw [settles, Bool.and_eq_true] at h
  obtain ⟨p, hp, hsettles⟩ := (Option.any_eq_true _ _).1 h.2
  obtain ⟨met, caps, caps', htries⟩ := tries_of_matchAt? h.1 hp hc hm
  obtain ⟨met', d, caps'', -, hended, hout⟩ := htries.settled hsettles
  cases hended
  exact hout

end CompiledRule

end Highlighting

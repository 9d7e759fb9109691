import Highlighting.Proofs.Scan.RuleMatch
import Highlighting.Scan.Tokenize

/-!
# Scans tile their texts

`Tiles n cs ts` says that the tokens `ts` cut the text `cs`, which lies at the offset `n`, into
pieces that are not empty.  Each of the ways in which a scan adds tokens (a plain match, the groups
of a match with the text between them, a group that is scanned anew, a character that no rule
matches, a truncated rest) tiles the text that it takes, so a whole scan tiles its text
(`Scanner.scan_covers`).  Joining neighbours keeps a tiling.

Nothing is assumed of the rules: that matches end at places of the text, and that groups lie between
two of them, is what matching gives (`CompiledRule.matchAt?_sound`).
-/

namespace Highlighting

/-- Tokens cut a text that lies at an offset into pieces that are not empty. -/
def Tiles : Nat → List Char → List RawToken → Prop
  | _, cs, [] => cs = []
  | n, cs, t :: ts => ∃ u v, cs = u ++ v ∧ u ≠ [] ∧ t.start = n ∧ t.stop = n + byteSize u ∧
      Tiles t.stop v ts

section Tiles

variable {n : Nat} {cs ds : List Char} {t : RawToken} {ts us : List RawToken}

theorem tiles_nil (n : Nat) : Tiles n [] [] := rfl

theorem tiles_single (category : Category) (n : Nat) (h : cs ≠ []) :
    Tiles n cs [⟨category, n, n + byteSize cs⟩] :=
  ⟨cs, [], (List.append_nil cs).symm, h, rfl, rfl, rfl⟩

theorem Tiles.append (h : Tiles n cs ts) (h' : Tiles (n + byteSize cs) ds us) :
    Tiles n (cs ++ ds) (ts ++ us) := by
  induction ts generalizing n cs with
  | nil =>
    obtain rfl : cs = [] := h
    simpa using h'
  | cons t ts ih =>
    obtain ⟨u, v, rfl, hu, hstart, hstop, h⟩ := h
    refine ⟨u, v ++ ds, List.append_assoc u v ds, hu, hstart, hstop, ih h ?_⟩
    rwa [hstop, Nat.add_assoc, ← byteSize_append]

/-- A token is put in front of a tiling, and may be joined to its first token. -/
theorem Tiles.joinFront (h : Tiles n cs (t :: ts)) : Tiles n cs (t.joinFront ts) := by
  obtain ⟨u, v, rfl, hu, hstart, hstop, hts⟩ := h
  cases ts with
  | nil => exact ⟨u, v, rfl, hu, hstart, hstop, hts⟩
  | cons w ws =>
    rw [RawToken.joinFront]
    split
    · obtain ⟨u', v', rfl, -, -, hstop', hws⟩ := hts
      refine ⟨u ++ u', v', (List.append_assoc u u' v').symm, by simp [hu], hstart, ?_, hws⟩
      rw [byteSize_append, hstop', hstop, Nat.add_assoc]
    · exact ⟨u, v, rfl, hu, hstart, hstop, hts⟩

/-- Joining neighbours keeps a tiling. -/
theorem Tiles.mergeAdjacent (h : Tiles n cs ts) : Tiles n cs (RawToken.mergeAdjacent ts) := by
  induction ts generalizing n cs with
  | nil => exact h
  | cons t ts ih =>
    obtain ⟨u, v, rfl, hu, hstart, hstop, hts⟩ := h
    exact Tiles.joinFront ⟨u, v, rfl, hu, hstart, hstop, ih hts⟩

end Tiles

/-! ### Progress over a text -/

/-- Progress goes on over a text that lies at an offset: the new tokens tile the text. -/
def Progress.Covers (p : Progress) (n : Nat) (cs : List Char) (p' : Progress) : Prop :=
  ∃ ts, p'.tokens.toList = p.tokens.toList ++ ts ∧ Tiles n cs ts

namespace Progress

variable {p p' p'' : Progress} {n : Nat} {cs ds : List Char}

theorem covers_of_tokens_eq (h : p'.tokens = p.tokens) : p.Covers n [] p' :=
  ⟨[], by rw [h, List.append_nil], tiles_nil n⟩

theorem Covers.trans (h : p.Covers n cs p') (h' : p'.Covers (n + byteSize cs) ds p'') :
    p.Covers n (cs ++ ds) p'' := by
  obtain ⟨ts, hts, htile⟩ := h
  obtain ⟨us, hus, htile'⟩ := h'
  exact ⟨ts ++ us, by rw [hus, hts, List.append_assoc], htile.append htile'⟩

/-- Changes that leave the tokens as they are count for nothing. -/
theorem Covers.of_tokens_eq (h : p'.Covers n cs p'') (heq : p'.tokens = p.tokens) :
    p.Covers n cs p'' := by
  obtain ⟨ts, hts, htile⟩ := h
  exact ⟨ts, heq ▸ hts, htile⟩

theorem push_covers (p : Progress) (category : Category) (n : Nat) (cs : List Char) :
    p.Covers n cs (p.push category n (n + byteSize cs)) := by
  cases cs with
  | nil => exact covers_of_tokens_eq (by simp [push])
  | cons c cs =>
    have hlt : n < n + byteSize (c :: cs) := by
      have := byteSize_pos (List.cons_ne_nil c cs)
      omega
    refine ⟨[⟨category, n, n + byteSize (c :: cs)⟩], ?_, tiles_single category n (by simp)⟩
    rw [push, if_pos hlt, Array.toList_push]

theorem push_reads {c d : Cursor} {u : List Char} (h : c.Reads u d) (p : Progress)
    (category : Category) : p.Covers c.offset u (p.push category c.offset d.offset) := by
  rw [h.offset]
  exact p.push_covers category c.offset u

end Progress

/-- Wherever a rescan is started, it tiles its text. -/
def Rescan.Covers (rescan : Rescan) : Prop :=
  ∀ state text offset p, Progress.Covers p offset text (rescan state text offset p)

/-- A text that would be scanned anew is one plain token, as it is on the last level of a scan. -/
def Rescan.plain : Rescan := fun _ text offset p => p.push .text offset (offset + byteSize text)

theorem Rescan.covers_plain : Rescan.plain.Covers := fun _ text offset p =>
  p.push_covers .text offset text

namespace Scanner

variable {s : Scanner} {rescan : Rescan} {c d e x : Cursor} {u v w : List Char} {p : Progress}

/-- The text between two places that a cursor reads to. -/
theorem textBetween_reads (hx : c.Reads v x) (hd : x.Reads w d) :
    textBetween c x.offset d.offset = w := by
  have hahead : c.ahead = v ++ (w ++ d.ahead) := by rw [hx.ahead, hd.ahead]
  have hv : x.offset - c.offset = byteSize v := by rw [hx.offset]; omega
  have hw : d.offset - x.offset = byteSize w := by rw [hd.offset]; omega
  rw [textBetween, hv, hw, hahead, (cutBytes_append v _).2, (cutBytes_append w _).1]

theorem emitGroup_covers (hrescan : rescan.Covers) (hx : c.Reads v x) (hd : x.Reads w d)
    (action : GroupAction Nat) (p : Progress) :
    p.Covers x.offset w (emitGroup rescan c action x.offset d.offset p) := by
  cases action with
  | token category => exact p.push_reads hd category
  | keywords table => exact p.push_reads hd _
  | scan state =>
    rw [emitGroup, textBetween_reads hx hd]
    exact hrescan state w x.offset p

/-- From a place of a match on, its groups and the text between them tile what is left of it. -/
theorem emitGroups_covers (hrescan : rescan.Covers)
    {gs : List (GroupAction Nat × Option (Nat × Nat))}
    (hgs : ∀ g ∈ gs, RuleMatch.GroupInside c d g.2) (hx : c.Reads v x) (hd : x.Reads w d)
    (p : Progress) : p.Covers x.offset w (emitGroups rescan c d.offset x.offset gs p) := by
  induction gs generalizing x v w p with
  | nil => exact p.push_reads hd .text
  | cons g gs ih =>
    have hrest := fun g hg => hgs g (List.mem_cons_of_mem _ hg)
    obtain ⟨action, _ | ⟨first, last⟩⟩ := g
    · exact ih hrest hx hd p
    rw [emitGroups]
    split
    · next h =>
      obtain ⟨hlt, hle⟩ := h
      have hcx := hx.offset_le
      obtain ⟨hfirst, hlast⟩ := hgs _ List.mem_cons_self (Nat.le_trans hcx hle)
      obtain ⟨y, ⟨uy, hy⟩, hyd, rfl⟩ := hfirst
      obtain ⟨z, ⟨uz, hz⟩, ⟨wz, hzd⟩, rfl⟩ := hlast (by omega)
      -- the match is read from the place over the ends of the group to its own end
      obtain ⟨gap, rfl, hgap⟩ := hx.split hy hle
      obtain ⟨text, rfl, htext⟩ := hy.split hz (Nat.le_of_lt hlt)
      obtain rfl : w = gap ++ (text ++ wz) :=
        hd.text_unique (hgap.trans (htext.trans hzd))
      refine (p.push_reads hgap .text).trans ?_
      rw [← hgap.offset]
      refine (emitGroup_covers hrescan hy htext action _).trans ?_
      rw [← htext.offset]
      exact ih hrest hz hzd _
    · exact ih hrest hx hd p

theorem emit_covers (hrescan : rescan.Covers) {r : CompiledRule} {m : RuleMatch}
    (hm : m.Inside c) (hu : c.Reads u m.stop) (p : Progress) :
    p.Covers c.offset u (emit rescan c r m p) := by
  rw [emit]
  split
  · exact p.push_reads hu _
  · exact p.push_reads hu _
  · refine emitGroups_covers hrescan (fun g hg => ?_) (.refl c) hu p
    exact hm.groups g.2 (List.of_mem_zip hg).2

theorem tokens_follow (s : Scanner) (t : Transition Nat) (stack : List Nat) (p : Progress) :
    (s.follow t stack p).2.tokens = p.tokens := by
  cases t with
  | stay | pop => rfl
  | push state =>
    rw [follow]
    split
    · dsimp only
      split <;> rfl
    · rfl

theorem unmatched_covers (s : Scanner) (state : Nat) (c : Cursor) (ch : Char) (p : Progress) :
    p.Covers c.offset [ch] (s.unmatched state c ch p) := by
  have h : c.offset + ch.utf8Size = c.offset + byteSize [ch] := by simp
  rw [unmatched, h]
  refine (Progress.push_covers _ .text c.offset [ch]).of_tokens_eq ?_
  split <;> rfl

theorem truncate_covers (s : Scanner) (c : Cursor) (p : Progress) :
    p.Covers c.offset c.ahead (s.truncate c p) := by
  rw [truncate]
  refine (Progress.push_covers _ .text c.offset c.ahead).of_tokens_eq ?_
  split <;> rfl

/-- A step of a scan reads some characters and tiles them. -/
theorem step_covers (hrescan : rescan.Covers) (hc : c.Placed) {ch : Char} {rest : List Char}
    (hahead : c.ahead = ch :: rest) (stack : List Nat) (p : Progress) :
    ∃ u, u ≠ [] ∧ c.Reads u (s.step rescan c ch rest stack p).1 ∧
      p.Covers c.offset u (s.step rescan c ch rest stack p).2.2 := by
  rw [step]
  split
  · next r m hm =>
    have hin := Grammar.firstMatch?_inside hc hm
    obtain ⟨u, hu⟩ := hin.reaches
    refine ⟨u, hu.ne_nil hin.advances, hu, ?_⟩
    obtain ⟨ts, hts, htile⟩ := emit_covers hrescan (r := r) hin hu p
    exact ⟨ts, by rw [tokens_follow, hts], htile⟩
  · exact ⟨[ch], by simp, Cursor.reads_past hahead, unmatched_covers s _ c ch p⟩

theorem step_reaches (s : Scanner) (rescan : Rescan) (hc : c.Placed) {ch : Char}
    {rest : List Char} (hahead : c.ahead = ch :: rest) (stack : List Nat) (p : Progress) :
    c.Reaches (s.step rescan c ch rest stack p).1 := by
  rw [step]
  split
  · next r m hm => exact (Grammar.firstMatch?_inside hc hm).reaches
  · exact Cursor.reaches_past hahead

theorem step_of_stay {r : CompiledRule} {m : RuleMatch} {stack : List Nat}
    (hm : s.grammar.firstMatch? (stack.headD 0) c = some (r, m)) (hstay : r.transition = .stay)
    (ch : Char) (rest : List Char) (p : Progress) :
    s.step rescan c ch rest stack p = (m.stop, stack, emit rescan c r m p) := by
  rw [step, hm]
  dsimp only
  rw [hstay]
  rfl

theorem step_of_none {stack : List Nat} (hm : s.grammar.firstMatch? (stack.headD 0) c = none)
    (ch : Char) (rest : List Char) (p : Progress) :
    s.step rescan c ch rest stack p =
      (c.past ch rest, stack, s.unmatched (stack.headD 0) c ch p) := by
  rw [step, hm]

theorem scanFrom_of_nil (hahead : c.ahead = []) (bound : List Char) (stack : List Nat)
    (p : Progress) : s.scanFrom rescan bound c stack p = p := by
  cases bound with
  | nil => rfl
  | cons b bound => rw [scanFrom, hahead]

theorem scanFrom_of_cons {ch b : Char} {rest bound : List Char} (hahead : c.ahead = ch :: rest)
    (stack : List Nat) (p : Progress) :
    s.scanFrom rescan (b :: bound) c stack p =
      if s.limit ≤ p.tokens.size then s.truncate c p
      else
        s.scanFrom rescan bound (s.step rescan c ch rest stack p).1
          (s.step rescan c ch rest stack p).2.1 (s.step rescan c ch rest stack p).2.2 := by
  rw [scanFrom, hahead]

theorem scanFrom_covers (hrescan : rescan.Covers) {bound : List Char} (hc : c.Placed)
    (hbound : c.ahead.length ≤ bound.length) (stack : List Nat) (p : Progress) :
    p.Covers c.offset c.ahead (s.scanFrom rescan bound c stack p) := by
  induction bound generalizing c stack p with
  | nil =>
    have hnil : c.ahead = [] := List.length_eq_zero_iff.1 (Nat.le_zero.1 hbound)
    rw [hnil, scanFrom]
    exact Progress.covers_of_tokens_eq rfl
  | cons b bound ih =>
    rw [scanFrom]
    split
    · next hnil =>
      rw [hnil]
      exact Progress.covers_of_tokens_eq rfl
    · next ch rest hahead =>
      split
      · exact truncate_covers s c p
      · obtain ⟨u, hu, hreads, hcovers⟩ := step_covers (s := s) hrescan hc hahead stack p
        rw [hreads.ahead]
        refine hcovers.trans ?_
        rw [← hreads.offset]
        refine ih (hreads.placed hc) ?_ _ _
        have hlen := congrArg List.length hreads.ahead
        have := List.length_pos_iff.2 hu
        rw [List.length_append] at hlen
        simp only [List.length_cons] at hbound
        omega

/-- A scan tiles its text, however many levels of groups it may scan anew. -/
theorem scan_covers (s : Scanner) (levels : Nat) : Rescan.Covers (s.scan levels) := by
  induction levels with
  | zero =>
    intro state text offset p
    exact scanFrom_covers Rescan.covers_plain (Cursor.placed_start text offset) (Nat.le_refl _) _ p
  | succ levels ih =>
    intro state text offset p
    exact scanFrom_covers ih (Cursor.placed_start text offset) (Nat.le_refl _) _ p

theorem run_tiles (s : Scanner) (source : List Char) :
    Tiles 0 source (s.run source).tokens.toList := by
  obtain ⟨ts, hts, htile⟩ := scan_covers s Limits.maxStateDepth s.grammar.root source 0 {}
  rwa [run, hts]

end Scanner

end Highlighting

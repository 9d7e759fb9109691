import Highlighting.Proofs.Scan.Tiling

/-!
# Related scans

Two scans of one text may differ in their grammars and in what they report, and yet keep their
progress related in some way.  What a match produces keeps a relation that pushing a token keeps,
when the scans of its groups keep it (`Scanner.emit_related`).
-/

namespace Highlighting

/-- A relation between two scans' progress that is kept when both add the same token. -/
def KeptByPush (rel : Progress → Progress → Prop) : Prop :=
  ∀ p p' category start stop, rel p p' →
    rel (p.push category start stop) (p'.push category start stop)

/-- Rescans keep a relation where the state, the offset and the text are of a kind. -/
def Rescan.Related (isText : Nat → Nat → List Char → Prop) (rel : Progress → Progress → Prop)
    (rescan rescan' : Rescan) : Prop :=
  ∀ state text offset p p', isText state offset text → rel p p' →
    rel (rescan state text offset p) (rescan' state text offset p')

theorem Rescan.related_plain {rel : Progress → Progress → Prop} (hpush : KeptByPush rel)
    (isText : Nat → Nat → List Char → Prop) : Rescan.plain.Related isText rel Rescan.plain :=
  fun _ _ _ _ _ _ h => hpush _ _ _ _ _ h

/-- What a cursor has ahead is of a kind when it is scanned anew from some states. -/
def Cursor.Offers (c : Cursor) (isText : Nat → Nat → List Char → Prop) (states : List Nat) : Prop :=
  ∀ state ∈ states, ∀ x d v w, c.Reads v x → x.Reads w d → isText state x.offset w

namespace Scanner

variable {rel : Progress → Progress → Prop} {isText : Nat → Nat → List Char → Prop}
  {rescan rescan' : Rescan} {c d x : Cursor} {v w : List Char} {p p' : Progress}

theorem emitGroup_related (hpush : KeptByPush rel) (hrescan : rescan.Related isText rel rescan')
    {action : GroupAction Nat} (htext : c.Offers isText action.states) (hx : c.Reads v x)
    (hd : x.Reads w d) (h : rel p p') :
    rel (emitGroup rescan c action x.offset d.offset p)
      (emitGroup rescan' c action x.offset d.offset p') := by
  cases action with
  | token category => exact hpush _ _ _ _ _ h
  | keywords table => exact hpush _ _ _ _ _ h
  | scan state =>
    rw [emitGroup, emitGroup, textBetween_reads hx hd]
    exact hrescan _ _ _ _ _ (htext state List.mem_cons_self x d v w hx hd) h

theorem emitGroups_related (hpush : KeptByPush rel) (hrescan : rescan.Related isText rel rescan')
    {gs : List (GroupAction Nat × Option (Nat × Nat))}
    (htext : ∀ g ∈ gs, c.Offers isText g.1.states)
    (hgs : ∀ g ∈ gs, RuleMatch.GroupInside c d g.2) (hx : c.Reads v x) (h : rel p p') :
    rel (emitGroups rescan c d.offset x.offset gs p)
      (emitGroups rescan' c d.offset x.offset gs p') := by
  induction gs generalizing x v p p' with
  | nil => exact hpush _ _ _ _ _ h
  | cons g gs ih =>
    have hrest := fun g hg => htext g (List.mem_cons_of_mem _ hg)
    have hinside := fun g hg => hgs g (List.mem_cons_of_mem _ hg)
    obtain ⟨action, _ | ⟨first, last⟩⟩ := g
    · exact ih hrest hinside hx h
    · rw [emitGroups, emitGroups]
      split
      · next hlt =>
        have hcx := hx.offset_le
        obtain ⟨hfirst, hlast⟩ := hgs _ List.mem_cons_self (Nat.le_trans hcx hlt.2)
        obtain ⟨y, ⟨uy, hy⟩, -, rfl⟩ := hfirst
        obtain ⟨z, ⟨uz, hz⟩, -, rfl⟩ := hlast (by omega)
        obtain ⟨text, -, hyz⟩ := hy.split hz (Nat.le_of_lt hlt.1)
        have hgroup := htext _ List.mem_cons_self
        exact ih hrest hinside hz
          (emitGroup_related hpush hrescan hgroup hy hyz (hpush _ _ _ _ _ h))
      · exact ih hrest hinside hx h

/-- What a match produces keeps a relation. -/
theorem emit_related (hpush : KeptByPush rel) (hrescan : rescan.Related isText rel rescan')
    {r : CompiledRule} {m : RuleMatch} (htext : c.Offers isText r.action.states)
    (hm : m.Inside c) (h : rel p p') : rel (emit rescan c r m p) (emit rescan' c r m p') := by
  rw [emit, emit]
  split
  · exact hpush _ _ _ _ _ h
  · exact hpush _ _ _ _ _ h
  · next actions haction =>
    refine emitGroups_related hpush hrescan ?_ ?_ (.refl c) h
    · rintro g hg state hstate
      refine htext state ?_
      rw [haction]
      exact List.mem_flatMap.2 ⟨g.1, (List.of_mem_zip hg).1, hstate⟩
    · exact fun g hg => hm.groups g.2 (List.of_mem_zip hg).2

end Scanner

end Highlighting

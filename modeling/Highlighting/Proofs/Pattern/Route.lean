import Mathlib.Logic.Relation
import Highlighting.Proofs.Cursor

/-!
# Where routes lead

`r.Leads c d` says that the route `r` leads from the place `c` to the place `d`; preference and
marks play no part in it.  `r.Walks x y` says the same with the offsets that are recorded on the
way.  Main statement: what `Matcher.find?` finds is a place that the route of the matcher walks to,
and the offsets recorded on the way are those of places in between (`Matcher.find?_sound`).

A thread is sound when its routes walk only to where the whole route does.  Moving a thread on keeps
this, and so does reading a character.
-/

namespace Highlighting

namespace Route

/-- A route leads from one place to another. -/
def Leads : Route → Cursor → Cursor → Prop
  | .done, c, d => c = d
  | .text cs, c, d => c.Reads cs d
  | .one s, c, d => ∃ ch, s.has ch = true ∧ c.Reads [ch] d
  | .look _ l, c, d => l.holds c = true ∧ c = d
  | .record _, c, d => c = d
  | .meet _, c, d => c = d
  | .seq p q, c, d => ∃ e, p.Leads c e ∧ q.Leads e d
  | .fork p q, c, d => p.Leads c d ∨ q.Leads c d
  | .star _ p _, c, d => Relation.ReflTransGen p.Leads c d
  | .plus _ p _, c, d => ∃ e, p.Leads c e ∧ Relation.ReflTransGen p.Leads e d
  | .again _ p _, c, d => Relation.ReflTransGen p.Leads c d

/-- Routes that are walked one after another lead from one place to another. -/
def LeadAll : List Route → Cursor → Cursor → Prop
  | [], c, d => c = d
  | r :: rest, c, d => ∃ e, r.Leads c e ∧ LeadAll rest e d

variable {r p q : Route} {rest : List Route} {c d e : Cursor} {mark : Nat} {greedy : Bool}

@[simp] theorem leadAll_nil : LeadAll [] c d ↔ c = d := Iff.rfl

theorem leadAll_cons : LeadAll (r :: rest) c d ↔ ∃ e, r.Leads c e ∧ LeadAll rest e d := Iff.rfl

@[simp] theorem leadAll_singleton : LeadAll [r] c d ↔ r.Leads c d := by
  simp [leadAll_cons]

/-- A route leads along the text. -/
theorem Leads.reads (h : r.Leads c d) : ∃ u, c.Reads u d := by
  induction r generalizing c d with
  | done | record _ | meet _ => exact ⟨[], h⟩
  | text cs => exact ⟨cs, h⟩
  | one s =>
    obtain ⟨ch, -, h⟩ := h
    exact ⟨[ch], h⟩
  | look _ l => exact ⟨[], h.2⟩
  | seq p q ihp ihq =>
    obtain ⟨e, hp, hq⟩ := h
    obtain ⟨u, hu⟩ := ihp hp
    obtain ⟨v, hv⟩ := ihq hq
    exact ⟨u ++ v, hu.trans hv⟩
  | fork p q ihp ihq => exact h.elim ihp ihq
  | star _ p _ ih | again _ p _ ih =>
    induction h with
    | refl => exact ⟨[], rfl⟩
    | tail _ hp hs =>
      obtain ⟨u, hu⟩ := hs
      obtain ⟨v, hv⟩ := ih hp
      exact ⟨u ++ v, hu.trans hv⟩
  | plus _ p _ ih =>
    obtain ⟨e, hp, h⟩ := h
    induction h with
    | refl => exact ih hp
    | tail _ hp hs =>
      obtain ⟨u, hu⟩ := hs
      obtain ⟨v, hv⟩ := ih hp
      exact ⟨u ++ v, hu.trans hv⟩

/-! ### Offsets on the way -/

/-- A route leads from one place to another, where some offsets have been recorded, the latest
first. -/
def Walks : Route → Cursor × Captures → Cursor × Captures → Prop
  | .done, x, y => x = y
  | .text cs, x, y => x.1.Reads cs y.1 ∧ x.2 = y.2
  | .one s, x, y => (∃ ch, s.has ch = true ∧ x.1.Reads [ch] y.1) ∧ x.2 = y.2
  | .look _ l, x, y => l.holds x.1 = true ∧ x = y
  | .record slot, x, y => (x.1, (slot, x.1.offset) :: x.2) = y
  | .meet _, x, y => x = y
  | .seq p q, x, y => ∃ z, p.Walks x z ∧ q.Walks z y
  | .fork p q, x, y => p.Walks x y ∨ q.Walks x y
  | .star _ p _, x, y => Relation.ReflTransGen p.Walks x y
  | .plus _ p _, x, y => ∃ z, p.Walks x z ∧ Relation.ReflTransGen p.Walks z y
  | .again _ p _, x, y => Relation.ReflTransGen p.Walks x y

/-- Routes that are walked one after another. -/
def WalkAll : List Route → Cursor × Captures → Cursor × Captures → Prop
  | [], x, y => x = y
  | r :: rest, x, y => ∃ z, r.Walks x z ∧ WalkAll rest z y

variable {x y : Cursor × Captures}

theorem walkAll_singleton : WalkAll [r] x y ↔ r.Walks x y := by
  simp [WalkAll]

theorem walkAll_seq : WalkAll (.seq p q :: rest) x y ↔ WalkAll (p :: q :: rest) x y := by
  simp only [WalkAll, Walks]
  constructor
  · rintro ⟨z, ⟨z', hp, hq⟩, h⟩
    exact ⟨z', hp, z, hq, h⟩
  · rintro ⟨z', hp, z, hq, h⟩
    exact ⟨z, ⟨z', hp, hq⟩, h⟩

theorem walkAll_fork :
    WalkAll (.fork p q :: rest) x y ↔ WalkAll (p :: rest) x y ∨ WalkAll (q :: rest) x y := by
  simp only [WalkAll, Walks, or_and_right, exists_or]

theorem walkAll_star_stop (h : WalkAll rest x y) : WalkAll (.star mark p greedy :: rest) x y :=
  ⟨x, .refl, h⟩

theorem walkAll_star_more (h : WalkAll (p :: .star mark p greedy :: rest) x y) :
    WalkAll (.star mark p greedy :: rest) x y := by
  obtain ⟨z, hp, z', hs, h⟩ := h
  exact ⟨z', .head hp hs, h⟩

theorem walkAll_plus :
    WalkAll (.plus mark p greedy :: rest) x y ↔
      WalkAll (p :: .again mark p greedy :: rest) x y := by
  simp only [WalkAll, Walks]
  constructor
  · rintro ⟨z, ⟨z', hp, hs⟩, h⟩
    exact ⟨z', hp, z, hs, h⟩
  · rintro ⟨z', hp, z, hs, h⟩
    exact ⟨z, ⟨z', hp, hs⟩, h⟩

theorem walkAll_again_stop (h : WalkAll rest x y) : WalkAll (.again mark p greedy :: rest) x y :=
  ⟨x, .refl, h⟩

theorem walkAll_again_more (h : WalkAll (p :: .again mark p greedy :: rest) x y) :
    WalkAll (.again mark p greedy :: rest) x y := by
  obtain ⟨z, hp, z', hs, h⟩ := h
  exact ⟨z', .head hp hs, h⟩

/-- A walk leads where the route does. -/
theorem Walks.leads (h : r.Walks x y) : r.Leads x.1 y.1 := by
  induction r generalizing x y with
  | done | meet _ => exact congrArg Prod.fst h
  | record slot =>
    obtain rfl : (x.1, (slot, x.1.offset) :: x.2) = y := h
    rfl
  | text cs | one s => exact h.1
  | look _ l => exact ⟨h.1, congrArg Prod.fst h.2⟩
  | seq p q ihp ihq =>
    obtain ⟨z, hp, hq⟩ := h
    exact ⟨z.1, ihp hp, ihq hq⟩
  | fork p q ihp ihq => exact h.imp ihp ihq
  | star _ p _ ih | again _ p _ ih => exact h.lift Prod.fst fun _ _ hp => ih hp
  | plus _ p _ ih =>
    obtain ⟨z, hp, hs⟩ := h
    exact ⟨z.1, ih hp, hs.lift Prod.fst fun _ _ hp => ih hp⟩

end Route

/-- An offset is that of a place between two others. -/
def Between (c d : Cursor) (n : Nat) : Prop :=
  ∃ e : Cursor, c.Reaches e ∧ e.Reaches d ∧ e.offset = n

namespace Route

variable {r p : Route} {x y : Cursor × Captures}

/-- The offsets of a walk are those that were recorded before it and those of places on it. -/
def Extends (x y : Cursor × Captures) : Prop :=
  x.1.Reaches y.1 ∧ ∀ e ∈ y.2, e ∈ x.2 ∨ Between x.1 y.1 e.2

theorem extends_of_caps_eq (h : x.1.Reaches y.1) (hcaps : x.2 = y.2) : Extends x y :=
  ⟨h, fun _ he => .inl (hcaps ▸ he)⟩

theorem Extends.trans {z : Cursor × Captures} (h : Extends x y) (h' : Extends y z) :
    Extends x z := by
  refine ⟨h.1.trans h'.1, fun e he => ?_⟩
  rcases h'.2 e he with he | ⟨d, hd, hz, heq⟩
  · refine (h.2 e he).imp_right ?_
    rintro ⟨d, hd, hy, heq⟩
    exact ⟨d, hd, hy.trans h'.1, heq⟩
  · exact .inr ⟨d, h.1.trans hd, hz, heq⟩

theorem extends_rounds (h : Relation.ReflTransGen p.Walks x y)
    (ih : ∀ {x y}, p.Walks x y → Extends x y) : Extends x y := by
  induction h with
  | refl => exact extends_of_caps_eq (.refl _) rfl
  | tail _ hp hs => exact hs.trans (ih hp)

theorem Walks.extends (h : r.Walks x y) : Extends x y := by
  induction r generalizing x y with
  | done | meet _ => exact extends_of_caps_eq (h ▸ .refl _) (congrArg Prod.snd h)
  | text cs => exact extends_of_caps_eq h.1.reaches h.2
  | one s =>
    obtain ⟨⟨ch, -, hread⟩, hcaps⟩ := h
    exact extends_of_caps_eq hread.reaches hcaps
  | look _ l => exact extends_of_caps_eq (h.2 ▸ .refl _) (congrArg Prod.snd h.2)
  | record slot =>
    obtain rfl := h
    refine ⟨.refl _, fun e he => ?_⟩
    rcases List.mem_cons.1 he with rfl | he
    · exact .inr ⟨x.1, .refl _, .refl _, rfl⟩
    · exact .inl he
  | seq p q ihp ihq =>
    obtain ⟨z, hp, hq⟩ := h
    exact (ihp hp).trans (ihq hq)
  | fork p q ihp ihq => exact h.elim ihp ihq
  | star _ p _ ih | again _ p _ ih => exact extends_rounds h ih
  | plus _ p _ ih =>
    obtain ⟨z, hp, hs⟩ := h
    exact (ih hp).trans (extends_rounds hs ih)

end Route

/-! ### Sound threads -/

/-- Where a thread that is kept at a place goes on: at the place itself, or behind the character
ahead when it has read it. -/
def GoesOn (sight : Bool) (c d : Cursor) : Prop := if sight then ∃ ch, c.Reads [ch] d else c = d

theorem GoesOn.reads_head {sight : Bool} {c d : Cursor} {ch : Char} (h : GoesOn sight c d)
    (hs : sight = true) (hch : c.ahead.head? = some ch) : c.Reads [ch] d := by
  rw [GoesOn, if_pos hs] at h
  obtain ⟨x, hx⟩ := h
  rw [hx.ahead] at hch
  obtain rfl : x = ch := by simpa using hch
  exact hx

theorem GoesOn.eq_of_blind {sight : Bool} {c d : Cursor} (h : GoesOn sight c d)
    (hs : ¬ sight = true) : c = d := by
  rwa [GoesOn, if_neg hs] at h

/-- Wherever the routes that are left to a thread walk is a goal. -/
def Thread.Sound (goal : Cursor × Captures → Prop) (c : Cursor) (t : Thread) : Prop :=
  ∀ y, Route.WalkAll t.rest (c, t.caps) y → goal y

/-- All threads that go on are sound, and one that has ended has done so at a goal. -/
structure Front.Sound (goal : Cursor × Captures → Prop) (sight : Bool) (c : Cursor) (f : Front) :
    Prop where
  live : ∀ t ∈ f.live, ∀ d, GoesOn sight c d → t.Sound goal d
  hit : ∀ caps, f.hit = some caps → goal (c, caps)

section Sound

variable {goal : Cursor × Captures → Prop} {sight : Bool} {c : Cursor} {f : Front} {r : Route}
  {rest : List Route} {caps : Captures} {go : Captures → Front → Front}

theorem Front.sound_start (sight : Bool) (marks : Nat) : (Front.start marks).Sound goal sight c :=
  ⟨by simp [Front.start], by simp [Front.start]⟩

theorem Front.Sound.reach (h : f.Sound goal sight c) (mark : Nat) :
    (f.reach mark).Sound goal sight c :=
  ⟨h.live, h.hit⟩

theorem Front.Sound.keep (h : f.Sound goal sight c)
    (ht : ∀ d, GoesOn sight c d → Thread.Sound goal d ⟨rest, caps⟩) :
    (f.keep rest caps).Sound goal sight c := by
  refine ⟨fun t hmem d hd => ?_, h.hit⟩
  rcases List.mem_cons.1 hmem with rfl | hmem
  · exact ht d hd
  · exact h.live t hmem d hd

theorem Front.Sound.keepIf (h : f.Sound goal sight c) {goesOn : Bool}
    (ht : goesOn = true → ∀ d, GoesOn sight c d → Thread.Sound goal d ⟨rest, caps⟩) :
    (f.keepIf goesOn rest caps).Sound goal sight c := by
  cases goesOn with
  | false => exact h
  | true => exact h.keep (ht rfl)

open Route

/-- A thread that is to read a text goes on behind its first character. -/
theorem visit_text_sound {cs : List Char}
    (hr : ∀ y, WalkAll (.text cs :: rest) (c, caps) y → goal y) (hf : f.Sound goal sight c) :
    (visit sight c (.text cs) rest go caps f).Sound goal sight c := by
  unfold visit
  split
  · exact hf
  dsimp only
  split
  · next hs =>
    split
    · next x ch hx =>
      refine hf.keepIf fun hch d hd y hy => hr y ⟨(d, caps), ⟨?_, rfl⟩, hy⟩
      obtain rfl : x = ch := by simpa using hch
      exact hd.reads_head hs hx
    · next x xs ch _ hx =>
      refine hf.keepIf fun hch d hd y hy => ?_
      obtain ⟨z, ⟨hz, hcaps⟩, hy⟩ := hy
      obtain rfl : x = ch := by simpa using hch
      exact hr y ⟨z, ⟨(hd.reads_head hs hx).trans hz, hcaps⟩, hy⟩
    · exact hf
  · next hs =>
    refine hf.keep fun d hd y hy => hr y ?_
    rwa [hd.eq_of_blind hs]

theorem visit_one_sound {s : CharSet}
    (hr : ∀ y, WalkAll (.one s :: rest) (c, caps) y → goal y) (hf : f.Sound goal sight c) :
    (visit sight c (.one s) rest go caps f).Sound goal sight c := by
  rw [visit]
  split
  · exact hf
  split
  · next hs =>
    split
    · next ch hx =>
      exact hf.keepIf fun hch d hd y hy =>
        hr y ⟨(d, caps), ⟨⟨ch, hch, hd.reads_head hs hx⟩, rfl⟩, hy⟩
    · exact hf
  · next hs =>
    refine hf.keep fun d hd y hy => hr y ?_
    rwa [hd.eq_of_blind hs]

theorem visit_look_sound {mark : Nat} {l : Look}
    (hgo : ∀ caps f, (∀ y, WalkAll rest (c, caps) y → goal y) → f.Sound goal sight c →
      (go caps f).Sound goal sight c)
    (hr : ∀ y, WalkAll (.look mark l :: rest) (c, caps) y → goal y) (hf : f.Sound goal sight c) :
    (visit sight c (.look mark l) rest go caps f).Sound goal sight c := by
  rw [visit]
  split
  · exact hf
  split
  · split
    · next hs =>
      refine (hf.reach mark).keep fun d hd y hy => hr y ?_
      rwa [hd.eq_of_blind (by simpa using (Bool.and_eq_true_iff.1 hs).1)]
    · split
      · next hl => exact hgo caps _ (fun y h => hr y ⟨_, ⟨hl, rfl⟩, h⟩) (hf.reach mark)
      · exact hf.reach mark
  · exact hf

/-- Moving a sound thread on through a route leaves sound threads behind. -/
theorem visit_sound
    (hgo : ∀ caps f, (∀ y, WalkAll rest (c, caps) y → goal y) → f.Sound goal sight c →
      (go caps f).Sound goal sight c)
    (hr : ∀ y, WalkAll (r :: rest) (c, caps) y → goal y) (hf : f.Sound goal sight c) :
    (visit sight c r rest go caps f).Sound goal sight c := by
  induction r generalizing rest go caps f with
  | done =>
    rw [visit]
    split
    · exact hf
    · exact hgo caps f (fun y h => hr y ⟨_, rfl, h⟩) hf
  | text cs => exact visit_text_sound hr hf
  | one s => exact visit_one_sound hr hf
  | look mark l => exact visit_look_sound hgo hr hf
  | record slot =>
    rw [visit]
    split
    · exact hf
    · exact hgo _ f (fun y h => hr y ⟨_, rfl, h⟩) hf
  | meet mark =>
    rw [visit]
    split
    · exact hf
    split
    · exact hgo caps _ (fun y h => hr y ⟨_, rfl, h⟩) (hf.reach mark)
    · exact hf
  | seq p q ihp ihq =>
    rw [visit]
    split
    · exact hf
    · exact ihp (fun caps f hq hf => ihq hgo hq hf) (fun y h => hr y (walkAll_seq.2 h)) hf
  | fork p q ihp ihq =>
    rw [visit]
    split
    · exact hf
    · exact ihq hgo (fun y h => hr y (walkAll_fork.2 (.inr h)))
        (ihp hgo (fun y h => hr y (walkAll_fork.2 (.inl h))) hf)
  | star mark p greedy ih =>
    have hmore : ∀ f : Front, f.Sound goal sight c →
        (visit sight c p (.star mark p greedy :: rest) (fun _ f => f) caps f).Sound goal sight c :=
      fun f hf => ih (fun _ _ _ hf => hf) (fun y h => hr y (walkAll_star_more h)) hf
    have hstop : ∀ f : Front, f.Sound goal sight c → (go caps f).Sound goal sight c :=
      fun f hf => hgo caps f (fun y h => hr y (walkAll_star_stop h)) hf
    rw [visit]
    split
    · exact hf
    split
    · cases greedy with
      | true => exact hstop _ (hmore _ (hf.reach mark))
      | false => exact hmore _ (hstop _ (hf.reach mark))
    · exact hf
  | plus mark p greedy ih =>
    rw [visit]
    split
    · exact hf
    split
    · exact ih (fun caps f h => hgo caps f fun y hy => h y (walkAll_again_stop hy))
        (fun y h => hr y (walkAll_plus.2 h)) (hf.reach mark)
    · exact hf
  | again mark p greedy ih =>
    have hmore : ∀ f : Front, f.Sound goal sight c →
        (if f.unmet.testBit mark then
          visit sight c p (.again mark p greedy :: rest) go caps (f.reach mark)
        else f).Sound goal sight c := by
      intro f hf
      split
      · exact ih (fun caps f h => hgo caps f fun y hy => h y (walkAll_again_stop hy))
          (fun y h => hr y (walkAll_again_more h)) (hf.reach mark)
      · exact hf
    have hstop : ∀ f : Front, f.Sound goal sight c → (go caps f).Sound goal sight c :=
      fun f hf => hgo caps f (fun y h => hr y (walkAll_again_stop h)) hf
    rw [visit]
    split
    · exact hf
    · cases greedy with
      | true => exact hstop _ (hmore _ hf)
      | false => exact hmore _ (hstop _ hf)

theorem follow_sound {ts : List Route} (hr : ∀ y, Route.WalkAll ts (c, caps) y → goal y)
    (hf : f.Sound goal sight c) : (follow sight c ts caps f).Sound goal sight c := by
  induction ts generalizing caps f with
  | nil =>
    rw [follow]
    split
    · exact hf
    split
    · refine ⟨hf.live, fun caps' h => ?_⟩
      obtain rfl : caps = caps' := by simpa using h
      exact hr _ rfl
    · next hs =>
      refine hf.keep fun d hd y hy => hr y ?_
      rwa [hd.eq_of_blind hs]
  | cons r rest ih => exact visit_sound (fun caps f h hf => ih h hf) hr hf

theorem settle_sound {ts : List Thread} (hts : ∀ t ∈ ts, t.Sound goal c)
    (hf : f.Sound goal sight c) : (settle sight c ts f).Sound goal sight c := by
  induction ts generalizing f with
  | nil => exact hf
  | cons t ts ih =>
    have ht := hts t List.mem_cons_self
    exact ih (fun u hu => hts u (List.mem_cons_of_mem t hu)) (follow_sound ht hf)

/-- Reading the character ahead takes sound threads to the place behind it. -/
theorem Front.Sound.read {ch : Char} {ahead : List Char} (h : f.Sound goal true c)
    (hc : c.ahead = ch :: ahead) : ∀ t ∈ f.live.reverse, t.Sound goal (c.past ch ahead) := by
  intro t ht
  refine h.live t (List.mem_reverse.1 ht) _ ?_
  rw [GoesOn, if_pos rfl]
  exact ⟨ch, Cursor.reads_past hc⟩

/-- Sound threads that wait at a place are sound there. -/
theorem Front.Sound.wait (h : f.Sound goal false c) :
    ∀ t ∈ f.live.reverse, t.Sound goal c := fun t ht =>
  h.live t (List.mem_reverse.1 ht) c rfl

end Sound

/-! ### Sound matches -/

namespace Matcher

variable {m : Matcher} {b c d : Cursor} {caps : Captures} {threads : List Thread}
  {ahead : List Char} {wantsGroups : Bool}

/-- The route of a matcher walks from one place to another, and what has been recorded are offsets
of places in between.  They are those of the walk, unless they may have been of no use. -/
structure Finds (m : Matcher) (c : Cursor) (caps : Captures) (d : Cursor) : Prop where
  between : ∀ e ∈ caps, Between c d e.2
  walks : ∃ walked, m.route.Walks (c, []) (d, walked) ∧ (m.idleLook = false → walked = caps)

theorem Finds.leads (h : m.Finds c caps d) : m.route.Leads c d := by
  obtain ⟨walked, hwalks, -⟩ := h.walks
  exact hwalks.leads

theorem Finds.reaches (h : m.Finds c caps d) : c.Reaches d := h.leads.reads

theorem finds_of_walks (h : m.route.Walks (c, []) (d, caps)) : m.Finds c caps d := by
  refine ⟨fun e he => ?_, caps, h, fun _ => rfl⟩
  rcases h.extends.2 e he with hnil | hbetween
  · cases hnil
  · exact hbetween

/-- A match that a matcher may report: where the route walks from a place. -/
abbrev goal (m : Matcher) (b : Cursor) : Cursor × Captures → Prop := m.route.Walks (b, [])

theorem firstThread_sound : m.firstThread.Sound (m.goal b) b :=
  fun _ h => Route.walkAll_singleton.1 h

theorem best_sound {f : Front} {best : Option (Captures × Cursor)}
    (hf : f.Sound (m.goal b) true c)
    (hbest : ∀ caps d, best = some (caps, d) → m.goal b (d, caps)) {caps : Captures} {d : Cursor}
    (h : (match f.hit with
      | some caps => some (caps, c)
      | none => best) = some (caps, d)) : m.goal b (d, caps) := by
  split at h
  · next caps' hhit =>
    obtain ⟨rfl, rfl⟩ : caps' = caps ∧ c = d := by simpa using h
    exact hf.hit _ hhit
  · exact hbest _ _ h

theorem walk_sound {limit : Option Nat} {best : Option (Captures × Cursor)}
    (hc : c.ahead = ahead) (hts : ∀ t ∈ threads, t.Sound (m.goal b) c)
    (hbest : ∀ caps d, best = some (caps, d) → m.goal b (d, caps)) {caps : Captures} {d : Cursor}
    (h : m.walk limit ahead c threads best = some (caps, d)) : m.goal b (d, caps) := by
  induction ahead generalizing c threads best with
  | nil =>
    have hf := settle_sound hts (Front.sound_start true m.marks)
    rw [walk] at h
    exact best_sound hf hbest h
  | cons ch rest ih =>
    have hf := settle_sound hts (Front.sound_start true m.marks)
    rw [walk] at h
    split at h
    · exact best_sound hf hbest h
    · exact ih rfl (hf.read hc) (fun _ _ => best_sound hf hbest) h

theorem bestBlind_sound {f : Front} {best : Option Cursor} (hf : f.Sound (m.goal b) true c)
    (hbest : ∀ d, best = some d → ∃ caps, m.goal b (d, caps)) {d : Cursor}
    (h : (if f.hit.isSome then some c else best) = some d) : ∃ caps, m.goal b (d, caps) := by
  split at h
  · next hhit =>
    obtain ⟨caps, hcaps⟩ := Option.isSome_iff_exists.1 hhit
    obtain rfl : c = d := by simpa using h
    exact ⟨caps, hf.hit _ hcaps⟩
  · exact hbest _ h

theorem walkBlind_sound {best : Option Cursor} (hc : c.ahead = ahead)
    (hts : ∀ t ∈ threads, t.Sound (m.goal b) c)
    (hbest : ∀ d, best = some d → ∃ caps, m.goal b (d, caps)) {d : Cursor}
    (h : m.walkBlind ahead c threads best = some (some d)) : ∃ caps, m.goal b (d, caps) := by
  induction ahead generalizing c threads best with
  | nil =>
    have hwait := settle_sound hts (Front.sound_start false m.marks)
    have hf := settle_sound hwait.wait (Front.sound_start true m.marks)
    rw [walkBlind] at h
    split at h
    · exact hbest d (by simpa using h)
    split at h
    · cases h
    · exact bestBlind_sound hf hbest (by simpa using h)
  | cons ch rest ih =>
    have hwait := settle_sound hts (Front.sound_start false m.marks)
    have hf := settle_sound hwait.wait (Front.sound_start true m.marks)
    rw [walkBlind] at h
    split at h
    · exact hbest d (by simpa using h)
    split at h
    · cases h
    · exact ih rfl (hf.read hc) (fun _ => bestBlind_sound hf hbest) h

theorem matchFrom?_sound (h : m.matchFrom? wantsGroups c = some (caps, d)) :
    m.Finds c caps d := by
  have hfirst : ∀ t ∈ [m.firstThread], t.Sound (m.goal c) c := by simpa using firstThread_sound
  have hplain : ∀ limit, m.walk limit c.ahead c [m.firstThread] none = some (caps, d) →
      m.Finds c caps d := fun limit h => finds_of_walks (walk_sound rfl hfirst (by simp) h)
  rw [matchFrom?] at h
  split at h
  · next hidle =>
    split at h
    · exact hplain _ h
    · cases h
    · next stop hstop =>
      split at h
      · exact hplain _ h
      · obtain ⟨rfl, rfl⟩ : [] = caps ∧ stop = d := by simpa using h
        obtain ⟨walked, hwalks⟩ := walkBlind_sound rfl hfirst (by simp) hstop
        refine ⟨by simp, walked, hwalks, fun hfalse => ?_⟩
        simp [hfalse] at hidle
  · exact hplain _ h

theorem findFrom?_sound (hc : c.ahead = ahead)
    (h : m.findFrom? wantsGroups c ahead = some (caps, d)) :
    ∃ e, c.Reaches e ∧ m.Finds e caps d := by
  induction ahead generalizing c with
  | nil => exact ⟨c, .refl c, matchFrom?_sound h⟩
  | cons ch rest ih =>
    rw [findFrom?] at h
    split at h
    · next found hfound =>
      obtain rfl : found = (caps, d) := by simpa using h
      exact ⟨c, .refl c, matchFrom?_sound hfound⟩
    · obtain ⟨e, hce, he⟩ := ih rfl h
      exact ⟨e, (Cursor.reaches_past hc).trans hce, he⟩

/-- What is found is where the route of the matcher leads from some place on; for a matcher that
asks for the start of the text it is the place of the search. -/
theorem find?_sound (h : m.find? wantsGroups c = some (caps, d)) :
    ∃ e, c.Reaches e ∧ (m.anchored = true → e = c) ∧ m.Finds e caps d := by
  rw [find?] at h
  split at h
  · exact ⟨c, .refl c, fun _ => rfl, matchFrom?_sound h⟩
  · next hanchored =>
    obtain ⟨e, hce, he⟩ := findFrom?_sound rfl h
    exact ⟨e, hce, fun ha => absurd ha hanchored, he⟩

end Matcher

end Highlighting

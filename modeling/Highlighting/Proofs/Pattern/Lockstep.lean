import Mathlib.Data.List.Infix
import Highlighting.Proofs.Pattern.Preference

/-!
# Walks find the preferred way

A walk moves all threads of a place on side by side and gives up a thread at a mark that any thread
has reached, where trying one way after another gives up a way only at a mark of its own.  Both find
the same (`Matcher.tries_matchFrom?`).  As long as the threads in front of a thread lead nowhere, so
does every mark that they have reached (`Explores.barren`); and once one of them leads somewhere, the
threads after it do not matter.

A front comes to what the first of its threads comes to that comes to something.  From one front to
another, a thread adds what comes of trying its routes (`Answers`).
-/

namespace Highlighting

open Route

/-- What comes of the first of a list of which something comes. -/
inductive FirstOf {α β : Type} (comes : α → Option β → Prop) : List α → Option β → Prop where
  | nil : FirstOf comes [] none
  | here {x xs y} (h : comes x (some y)) : FirstOf comes (x :: xs) (some y)
  | later {x xs o} (h : comes x none) (hxs : FirstOf comes xs o) : FirstOf comes (x :: xs) o

namespace FirstOf

variable {α β : Type} {comes comes' : α → Option β → Prop} {xs ys : List α} {x : α}
  {o o' : Option β} {y : β}

theorem unique (hcomes : ∀ x o o', comes x o → comes x o' → o = o') (h : FirstOf comes xs o)
    (h' : FirstOf comes xs o') : o = o' := by
  induction h with
  | nil => cases h'; rfl
  | here hx =>
    cases h' with
    | here hx' => exact hcomes _ _ _ hx hx'
    | later hx' => exact absurd (hcomes _ _ _ hx hx') (by simp)
  | later hx _ ih =>
    cases h' with
    | here hx' => exact absurd (hcomes _ _ _ hx hx') (by simp)
    | later _ h' => exact ih h'

theorem mono (hcomes : ∀ x ∈ xs, ∀ o, comes x o → comes' x o) (h : FirstOf comes xs o) :
    FirstOf comes' xs o := by
  induction h with
  | nil => exact .nil
  | here hx => exact .here (hcomes _ List.mem_cons_self _ hx)
  | later hx _ ih =>
    exact .later (hcomes _ List.mem_cons_self _ hx)
      (ih fun x hx => hcomes x (List.mem_cons_of_mem _ hx))

theorem append_some (h : FirstOf comes xs (some y)) (ys : List α) :
    FirstOf comes (xs ++ ys) (some y) := by
  induction xs with
  | nil => cases h
  | cons x xs ih =>
    cases h with
    | here hx => exact .here hx
    | later hx hxs => exact .later hx (ih hxs)

theorem append_none (h : FirstOf comes xs none) (hys : FirstOf comes ys o) :
    FirstOf comes (xs ++ ys) o := by
  induction xs with
  | nil => exact hys
  | cons x xs ih =>
    cases h with
    | later hx hxs => exact .later hx (ih hxs)

theorem singleton (h : comes x o) : FirstOf comes [x] o := by
  cases o with
  | none => exact .later h .nil
  | some y => exact .here h

theorem of_singleton (h : FirstOf comes [x] o) : comes x o := by
  cases h with
  | here h => exact h
  | later h hnil => cases hnil; exact h

theorem eq_none (hcomes : ∀ x o, comes x o → o = none) (h : FirstOf comes xs o) : o = none := by
  induction h with
  | nil => rfl
  | here hx => exact hcomes _ _ hx
  | later _ _ ih => exact ih

theorem forall_none (h : FirstOf comes xs none) : ∀ x ∈ xs, comes x none := by
  induction xs with
  | nil => exact fun x hx => absurd hx List.not_mem_nil
  | cons x xs ih =>
    cases h with
    | later hx hxs => exact List.forall_mem_cons.2 ⟨hx, ih hxs⟩

end FirstOf

/-! ### What fronts come to -/

/-- What comes of trying the routes of a thread behind the character ahead. -/
def Thread.Comes (c : Cursor) (t : Thread) (o : Option (Captures × Cursor)) : Prop :=
  match c.ahead with
  | ch :: ahead => Tries ∅ t.rest (c.past ch ahead) t.caps o
  | [] => o = none

theorem Thread.comes_cons {c : Cursor} {ch : Char} {ahead : List Char}
    (h : c.ahead = ch :: ahead) :
    Thread.Comes c = fun t => Tries ∅ t.rest (c.past ch ahead) t.caps := by
  funext t o
  rw [Thread.Comes, h]

theorem Thread.comes_nil {c : Cursor} (h : c.ahead = []) : Thread.Comes c = fun _ o => o = none := by
  funext t o
  rw [Thread.Comes, h]

namespace Front

variable {f f' f'' : Front} {c : Cursor} {o : Option (Captures × Cursor)} {t : Thread} {mark : Nat}
  {rest : List Route} {caps : Captures}

/-- The marks that have been reached. -/
def met (f : Front) : Set Nat := {mark | f.unmet.testBit mark = false}

theorem met_reach (hmark : f.unmet.testBit mark = true) : (f.reach mark).met = insert mark f.met := by
  ext k
  rw [met, reach, Nat.one_shiftLeft]
  simp only [Set.mem_ofPred_eq, testBit_sub_two_pow hmark, Set.mem_insert_iff, met,
    Bool.and_eq_false_iff, decide_eq_false_iff_not, not_not]
  exact or_comm

theorem not_mem_met : mark ∉ f.met ↔ f.unmet.testBit mark = true := by simp [met]

/-- What the threads of a front come to: what the first of those that go on comes to that comes to
something, or else the thread that has ended here. -/
def Comes (f : Front) (c : Cursor) (o : Option (Captures × Cursor)) : Prop :=
  ∃ o', FirstOf (Thread.Comes c) f.live.reverse o' ∧ o = o'.or (f.hit.map (·, c))

/-- No thread of a front comes to anything. -/
def Lost (f : Front) (c : Cursor) : Prop :=
  FirstOf (Thread.Comes c) f.live.reverse none ∧ f.hit = none

theorem comes_none : f.Comes c none ↔ f.Lost c := by
  constructor
  · rintro ⟨o, hlive, ho⟩
    cases o with
    | some m => cases ho
    | none => exact ⟨hlive, by simpa using ho.symm⟩
  · rintro ⟨hlive, hhit⟩
    exact ⟨none, hlive, by simp [hhit]⟩

theorem Lost.of_mem (h : f.Lost c) (ht : t ∈ f.live) : t.Comes c none :=
  h.1.forall_none t (List.mem_reverse.2 ht)

/-- Threads that go on stay, and once a thread has ended no other is added. -/
structure Grows (f f' : Front) : Prop where
  live : f.live <:+ f'.live
  ended : f.hit.isSome = true → f'.live = f.live ∧ f'.hit = f.hit

theorem Grows.refl (f : Front) : f.Grows f := ⟨List.suffix_rfl, fun _ => ⟨rfl, rfl⟩⟩

theorem Grows.trans (h : f.Grows f') (h' : f'.Grows f'') : f.Grows f'' := by
  refine ⟨h.live.trans h'.live, fun hhit => ?_⟩
  obtain ⟨hlive, heq⟩ := h.ended hhit
  obtain ⟨hlive', heq'⟩ := h'.ended (heq ▸ hhit)
  exact ⟨hlive'.trans hlive, heq'.trans heq⟩

/-- What comes of a front comes of every later one. -/
theorem Grows.comes_some {m : Captures × Cursor} (h : f.Grows f') (hf : f.Comes c (some m)) :
    f'.Comes c (some m) := by
  obtain ⟨o, hlive, ho⟩ := hf
  cases o with
  | some m' =>
    obtain ⟨new, hnew⟩ := h.live
    refine ⟨some m', ?_, ho⟩
    rw [← hnew, List.reverse_append]
    exact hlive.append_some new.reverse
  | none =>
    have hhit : f.hit.isSome = true := by
      cases hhit : f.hit with
      | none => rw [hhit] at ho; cases ho
      | some caps => rfl
    obtain ⟨hlive', heq⟩ := h.ended hhit
    exact ⟨none, hlive' ▸ hlive, heq ▸ ho⟩

/-- A thread that goes on adds what comes of it. -/
theorem Lost.comes_keep (h : f.Lost c) (ht : Thread.Comes c ⟨rest, caps⟩ o) :
    (f.keep rest caps).Comes c o := by
  refine ⟨o, ?_, ?_⟩
  · rw [keep, List.reverse_cons]
    exact h.1.append_none (.singleton ht)
  · have hhit : (f.keep rest caps).hit = none := h.2
    cases o <;> simp [hhit]

end Front

/-! ### Lost marks -/

section Lost

variable {tie : Nat → List Route} {marks : Nat} {goal : Finding → Prop} {f f' : Front} {c : Cursor}
  {met : Set Nat} {rs : List Route} {caps : Captures} {o : Option (Captures × Cursor)}

theorem next_prefer {p q : Route} {rest : List Route} {greedy : Bool} {x : Finding}
    (h : Next c (prefer greedy p q :: rest) x) : Next c (p :: rest) x ∨ Next c (q :: rest) x := by
  cases greedy with
  | true =>
    cases h with
    | left h => exact .inl h
    | right h => exact .inr h
  | false =>
    cases h with
    | left h => exact .inr h
    | right h => exact .inl h

/-- What is behind a mark that a thread meets first has been met with the mark. -/
theorem Explores.behind (h : Explores tie marks c goal f f') (hlost : f'.Lost c)
    (hmet : f.met ⊆ met) {mark : Nat} (hmark : mark ∉ met) (hhas : f'.Has (.met mark)) :
    ∀ x, Behind c (tie mark) x → f'.Has x :=
  h.closed hlost.2 mark (fun hf => hmark (hmet hf)) hhas

/-- Where a front is lost that has met all that may happen next to a thread, the thread leads
nowhere. -/
theorem Explores.tries_eq_none (h : Explores tie marks c goal f f') (hlost : f'.Lost c)
    (htries : Tries met rs c caps o) (hmet : f.met ⊆ met) (htied : TiedAll tie marks rs)
    (hnext : ∀ x, Next c rs x → f'.Has x) : o = none := by
  induction htries with
  | ended =>
    have hended := hnext _ .nil
    rw [Front.Has, hlost.2] at hended
    cases hended
  | done _ ih => exact ih h hlost hmet htied.2 fun x hx => hnext x (.done hx)
  | @text _ x xs rest c ahead caps o hx htries =>
    have hhead : c.ahead.head? = some x := by rw [hx]; rfl
    have hkept : f'.Has (.kept (textThen xs rest)) := by
      cases xs with
      | nil => exact hnext _ (.last hhead)
      | cons y xs => exact hnext _ (.text hhead)
    obtain ⟨caps', hlive⟩ := hkept
    have hnone := hlost.of_mem hlive
    rw [Thread.comes_cons hx] at hnone
    exact htries.eq_none hnone
  | textFails | oneFails | lookFails | blocked => rfl
  | @one _ s x rest c ahead caps o hx hs htries =>
    have hhead : c.ahead.head? = some x := by rw [hx]; rfl
    obtain ⟨caps', hlive⟩ := hnext _ (.one hhead hs)
    have hnone := hlost.of_mem hlive
    rw [Thread.comes_cons hx] at hnone
    exact htries.eq_none hnone
  | look hmark hl _ ih =>
    have hbehind := h.behind hlost hmet hmark (hnext _ .look)
    rw [htied.1.2] at hbehind
    exact ih h hlost (hmet.trans (Set.subset_insert _ _)) htied.2 fun x hx => hbehind x ⟨hl, hx⟩
  | record _ ih => exact ih h hlost hmet htied.2 fun x hx => hnext x (.record hx)
  | meet hmark _ ih =>
    have hbehind := h.behind hlost hmet hmark (hnext _ .meet)
    rw [htied.1.2] at hbehind
    exact ih h hlost (hmet.trans (Set.subset_insert _ _)) htied.2 hbehind
  | seq _ ih =>
    exact ih h hlost hmet ⟨htied.1.1, htied.1.2, htied.2⟩ fun x hx => hnext x (.seq hx)
  | first _ ih => exact ih h hlost hmet ⟨htied.1.1, htied.2⟩ fun x hx => hnext x (.left hx)
  | second _ _ _ ihq =>
    exact ihq h hlost hmet ⟨htied.1.2, htied.2⟩ fun x hx => hnext x (.right hx)
  | star hmark _ ih =>
    have hbehind := h.behind hlost hmet hmark (hnext _ .star)
    rw [htied.1.1.2] at hbehind
    refine ih h hlost (hmet.trans (Set.subset_insert _ _))
      (tiedAll_prefer ⟨htied.1.2, htied.1⟩ trivial htied.2) fun x hx => ?_
    rcases next_prefer hx with hx | hx
    · cases hx with
      | seq hx => exact hbehind x (.inl hx)
    · cases hx with
      | done hx => exact hbehind x (.inr hx)
  | plus hmark _ ih =>
    have hbehind := h.behind hlost hmet hmark (hnext _ .plus)
    rw [htied.1.1.2] at hbehind
    exact ih h hlost (hmet.trans (Set.subset_insert _ _)) ⟨htied.1.2, htied⟩ hbehind
  | again _ ih =>
    refine ih h hlost hmet (tiedAll_prefer htied.1 trivial htied.2) fun x hx => ?_
    rcases next_prefer hx with hx | hx
    · cases hx with
      | plus => exact hnext _ .more
    · cases hx with
      | done hx => exact hnext x (.stop hx)

/-- The marks that are reached on the way to a front that is lost lead nowhere. -/
theorem Explores.barren (h : Explores tie marks c goal f f') (hlost : f'.Lost c) :
    Barren tie marks c f.met f'.met := by
  intro r rest mark hr htied hmet' _ met hmet caps o htries
  refine h.tries_eq_none hlost htries hmet htied fun x hx => ?_
  cases r with
  | look | meet | star | plus =>
    cases hx
    exact Option.some.inj hr ▸ hmet'
  | done | text | one | record | seq | fork | again => cases hr

end Lost

/-! ### Threads of one place -/

/-- From one front to another, a thread with given routes has been moved on: threads are added at
most, and where those so far come to nothing the new front comes to what comes of the routes. -/
structure Answers (c : Cursor) (rs : List Route) (caps : Captures) (f f' : Front) : Prop where
  grows : f.Grows f'
  comes : f.Lost c → ∃ o, Tries f.met rs c caps o ∧ f'.Comes c o

namespace Answers

variable {tie : Nat → List Route} {marks k : Nat} {c : Cursor} {goal : Finding → Prop}
  {f f' f'' : Front} {r p q : Route} {rs rs' rest : List Route} {caps caps' : Captures}
  {greedy : Bool}

/-- Where a thread has ended nothing more is asked. -/
theorem of_hit (hf : f.hit.isSome = true) : Answers c rs caps f f :=
  ⟨.refl f, fun hlost => by rw [hlost.2] at hf; cases hf⟩

/-- A thread that leads nowhere adds nothing. -/
theorem of_none (h : Tries f.met rs c caps none) (hlive : f'.live = f.live) (hhit : f'.hit = f.hit) :
    Answers c rs caps f f' := by
  refine ⟨⟨hlive ▸ List.suffix_rfl, fun _ => ⟨hlive, hhit⟩⟩, fun hlost => ⟨none, h, ?_⟩⟩
  exact Front.comes_none.2 ⟨hlive ▸ hlost.1, hhit ▸ hlost.2⟩

theorem imp (h : Answers c rs caps f f')
    (htries : ∀ o, Tries f.met rs c caps o → Tries f.met rs' c caps' o) :
    Answers c rs' caps' f f' := by
  refine ⟨h.grows, fun hlost => ?_⟩
  obtain ⟨o, h, ho⟩ := h.comes hlost
  exact ⟨o, htries o h, ho⟩

/-- A thread goes on behind a mark that it is the first to reach. -/
theorem mark (hr : r.mark? = some k)
    (h : f.unmet.testBit k = true → Answers c rs caps (f.reach k) f')
    (htries : ∀ o, k ∉ f.met → Tries (insert k f.met) rs c caps o →
      Tries f.met (r :: rest) c caps o) :
    Answers c (r :: rest) caps f (if f.unmet.testBit k then f' else f) := by
  split
  · next hk =>
    refine ⟨⟨(h hk).grows.live, (h hk).grows.ended⟩, fun hlost => ?_⟩
    obtain ⟨o, htry, ho⟩ := (h hk).comes hlost
    rw [Front.met_reach hk] at htry
    exact ⟨o, htries o (Front.not_mem_met.2 hk) htry, ho⟩
  · next hk => exact of_none (.blocked hr (Bool.eq_false_iff.2 hk)) rfl rfl

/-- A thread that can read the character ahead goes on behind it. -/
theorem keepIf {ch : Char} {goesOn : Bool} (hf : ¬ f.hit.isSome = true)
    (hch : c.ahead.head? = some ch)
    (hreads : goesOn = true → ∀ ahead o, c.ahead = ch :: ahead →
      Tries ∅ rs' (c.past ch ahead) caps o → Tries f.met rs c caps o)
    (hfails : goesOn = false → Tries f.met rs c caps none) :
    Answers c rs caps f (f.keepIf goesOn rs' caps) := by
  cases goesOn with
  | false => exact of_none (hfails rfl) rfl rfl
  | true =>
    obtain ⟨ahead, hahead⟩ := List.head?_eq_some_iff.1 hch
    refine ⟨⟨List.suffix_cons _ _, fun hhit => absurd hhit hf⟩, fun hlost => ?_⟩
    obtain ⟨o, h⟩ := Tries.exists_tries ∅ rs' (c.past ch ahead) caps
    refine ⟨o, hreads rfl ahead o hahead h, hlost.comes_keep ?_⟩
    rw [Thread.comes_cons hahead]
    exact h

/-- One thread after another that are given up at each other's marks: the first that comes to
something decides. -/
theorem fork (hp : Answers c (p :: rest) caps f f') (hexp : Explores tie marks c goal f f')
    (hq : Answers c (q :: rest) caps f' f'') (htied : TiedAll tie marks (q :: rest)) :
    Answers c (.fork p q :: rest) caps f f'' := by
  refine ⟨hp.grows.trans hq.grows, fun hlost => ?_⟩
  obtain ⟨o, htryp, ho⟩ := hp.comes hlost
  cases o with
  | some m => exact ⟨some m, .first htryp, hq.grows.comes_some ho⟩
  | none =>
    have hlost' := Front.comes_none.1 ho
    obtain ⟨o, htryq, ho⟩ := hq.comes hlost'
    have hmet : f.met ⊆ f'.met := fun k hk => hexp.keeps (.met k) hk
    exact ⟨o, .second htryp (htryq.unblock hmet (hexp.barren hlost') htied), ho⟩

/-- Two ways are tried one after the other, in the order of preference. -/
theorem prefer {goal' : Finding → Prop} {first second : Front → Front} (greedy : Bool)
    (hfirst : ∀ f', (∀ o, f.Has o → f'.Has o) → Answers c (p :: rest) caps f' (first f'))
    (hsecond : ∀ f', (∀ o, f.Has o → f'.Has o) → Answers c (q :: rest) caps f' (second f'))
    (hfirst' : Explores tie marks c goal f (first f))
    (hsecond' : Explores tie marks c goal' f (second f))
    (hp : TiedAll tie marks (p :: rest)) (hq : TiedAll tie marks (q :: rest)) :
    Answers c (Route.prefer greedy p q :: rest) caps f
      (if greedy then second (first f) else first (second f)) := by
  cases greedy with
  | true => exact (hfirst f fun _ h => h).fork hfirst' (hsecond _ hfirst'.keeps) hq
  | false => exact (hsecond f fun _ h => h).fork hsecond' (hfirst _ hsecond'.keeps) hp

end Answers

section Visit

variable {tie : Nat → List Route} {marks : Nat} {c : Cursor} {f f' : Front} {r : Route}
  {rest : List Route} {caps : Captures} {go : Captures → Front → Front}

/-- What moves a thread on from the end of a route answers for the routes behind it, from every
front that has met at least what a given one has. -/
def GoAnswers (c : Cursor) (rest : List Route) (f : Front) (go : Captures → Front → Front) : Prop :=
  ∀ caps f', (∀ o, f.Has o → f'.Has o) → Answers c rest caps f' (go caps f')

theorem GoAnswers.later (h : GoAnswers c rest f go) (hf : ∀ o, f.Has o → f'.Has o) :
    GoAnswers c rest f' go := fun caps f'' hf' => h caps f'' fun o ho => hf' o (hf o ho)

theorem GoAnswers.reach {k : Nat} (h : GoAnswers c rest f go) (hk : f.unmet.testBit k = true) :
    GoAnswers c rest (f.reach k) go :=
  h.later fun _ ho => (Front.has_reach hk).2 (.inl ho)

theorem met_of_reach {k : Nat} (hk : f.unmet.testBit k = true)
    (hf : ∀ o, (f.reach k).Has o → f'.Has o) : k ∈ f'.met :=
  hf (.met k) ((Front.has_reach hk).2 (.inr rfl))

/-- Behind a round of `plus` its mark has been reached, so the loop is left. -/
theorem GoAnswers.again {k : Nat} {p : Route} {greedy : Bool} (h : GoAnswers c rest f go)
    (hk : f.unmet.testBit k = true) :
    GoAnswers c (.again k p greedy :: rest) (f.reach k) go := fun caps f' hf =>
  (h.reach hk caps f' hf).imp fun _ htries => htries.again_of_rest (met_of_reach hk hf)

theorem goAnswers_star {k : Nat} {p : Route} {greedy : Bool} (hk : f.unmet.testBit k = true) :
    GoAnswers c (.star k p greedy :: rest) (f.reach k) (fun _ f => f) := fun _ _ hf =>
  .of_none (.blocked rfl (met_of_reach hk hf)) rfl rfl

theorem tries_text_none {met : Set Nat} {x ch : Char} {xs : List Char}
    (hch : c.ahead.head? = some ch) (hx : decide (x = ch) = false) :
    Tries met (.text (x :: xs) :: rest) c caps none := by
  refine .textFails fun x' xs' ahead hcs hahead => of_decide_eq_false hx ?_
  rw [hahead] at hch
  exact (List.cons.inj hcs).1.trans (Option.some.inj hch)

theorem visit_text_answers {cs : List Char} (caps : Captures) :
    Answers c (.text cs :: rest) caps f (visit true c (.text cs) rest go caps f) := by
  unfold visit
  split
  · next hf => exact .of_hit hf
  next hf =>
  dsimp only
  rw [if_pos rfl]
  split
  · next x ch hch =>
    refine .keepIf hf hch (fun hx ahead o hahead h => ?_) (tries_text_none hch)
    obtain rfl : x = ch := of_decide_eq_true hx
    exact .text hahead h
  · next x xs ch hxs hch =>
    refine .keepIf hf hch (fun hx ahead o hahead h => ?_) (tries_text_none hch)
    obtain rfl : x = ch := of_decide_eq_true hx
    obtain ⟨y, xs, rfl⟩ := List.exists_cons_of_ne_nil hxs
    exact .text hahead h
  · next h1 h2 =>
    refine .of_none (.textFails fun x xs ahead hcs hahead => ?_) rfl rfl
    exact h2 x xs x hcs (by rw [hahead]; rfl)

theorem visit_one_answers {s : CharSet} (caps : Captures) :
    Answers c (.one s :: rest) caps f (visit true c (.one s) rest go caps f) := by
  rw [visit]
  split
  · next hf => exact .of_hit hf
  next hf =>
  rw [if_pos rfl]
  split
  · next ch hch =>
    refine .keepIf hf hch (fun hs ahead o hahead h => .one hahead hs h) fun hs => .oneFails ?_
    intro x ahead hahead
    obtain rfl : x = ch := by simpa [hahead] using hch
    exact hs
  · next hch =>
    refine .of_none (.oneFails fun x ahead hahead => ?_) rfl rfl
    rw [hahead] at hch
    cases hch

/-- Moving a thread on through a tied route answers for its routes. -/
theorem visit_answers (caps : Captures) (hr : Tied tie marks r rest)
    (hrest : TiedAll tie marks rest) (hexp : GoExplores tie marks c rest f go)
    (hgo : GoAnswers c rest f go) :
    Answers c (r :: rest) caps f (visit true c r rest go caps f) := by
  induction r generalizing rest go caps f with
  | done =>
    rw [visit]
    split
    · next hf => exact .of_hit hf
    · exact (hgo caps f fun _ h => h).imp fun _ h => .done h
  | text cs => exact visit_text_answers caps
  | one s => exact visit_one_answers caps
  | look k l =>
    rw [visit]
    split
    · next hf => exact .of_hit hf
    simp only [Bool.not_true, Bool.false_and, Bool.false_eq_true, if_false]
    cases hl : l.holds c with
    | true =>
      exact .mark rfl (fun hk => hgo.reach hk caps _ fun _ h => h) fun o hk h => .look hk hl h
    | false =>
      split
      · exact .of_none (.lookFails hl) rfl rfl
      · exact .of_none (.lookFails hl) rfl rfl
  | record slot =>
    rw [visit]
    split
    · next hf => exact .of_hit hf
    · exact (hgo _ f fun _ h => h).imp fun _ h => .record h
  | meet k =>
    rw [visit]
    split
    · next hf => exact .of_hit hf
    exact .mark rfl (fun hk => hgo.reach hk caps _ fun _ h => h) fun o hk h => .meet hk h
  | seq p q ihp ihq =>
    rw [visit]
    split
    · next hf => exact .of_hit hf
    refine (ihp caps hr.1 ⟨hr.2, hrest⟩ (fun caps f' hf => ?_) fun caps f' hf => ?_).imp
      fun _ h => .seq h
    · exact visit_explores hr.2 hrest (hexp.later hf)
    · exact ihq caps hr.2 hrest (hexp.later hf) (hgo.later hf)
  | fork p q ihp ihq =>
    rw [visit]
    split
    · next hf => exact .of_hit hf
    have hpexp : Explores tie marks c _ f (visit true c p rest go caps f) :=
      visit_explores hr.1 hrest hexp
    have hq := ihq caps hr.2 hrest (hexp.later hpexp.keeps) (hgo.later hpexp.keeps)
    exact (ihp caps hr.1 hrest hexp hgo).fork hpexp hq ⟨hr.2, hrest⟩
  | star k p greedy ih =>
    rw [visit]
    split
    · next hf => exact .of_hit hf
    refine .mark rfl (fun hk => ?_) fun o hk h => .star hk h
    have hmore (f' : Front) (hf' : ∀ o, (f.reach k).Has o → f'.Has o) :
        Answers c (.seq p (.star k p greedy) :: rest) caps f'
          (visit true c p (.star k p greedy :: rest) (fun _ f => f) caps f') :=
      (ih caps hr.2 ⟨hr, hrest⟩ ((goExplores_star hk).later hf')
        ((goAnswers_star hk).later hf')).imp fun _ h => .seq h
    have hstop (f' : Front) (hf' : ∀ o, (f.reach k).Has o → f'.Has o) :
        Answers c (.done :: rest) caps f' (go caps f') :=
      (hgo.reach hk caps f' hf').imp fun _ h => .done h
    exact .prefer greedy hmore hstop (visit_explores hr.2 ⟨hr, hrest⟩ (goExplores_star hk))
      (hexp.reach hk caps _ fun _ h => h) ⟨⟨hr.2, hr⟩, hrest⟩ ⟨trivial, hrest⟩
  | plus k p greedy ih =>
    rw [visit]
    split
    · next hf => exact .of_hit hf
    exact .mark rfl (fun hk => ih caps hr.2 ⟨hr, hrest⟩ (hexp.again hk) (hgo.again hk))
      fun o hk h => .plus hk h
  | again k p greedy ih =>
    rw [visit]
    split
    · next hf => exact .of_hit hf
    next hf =>
    refine Answers.imp ?_ fun o h => .again h
    have hmore (f' : Front) (hf' : ∀ o, f.Has o → f'.Has o) :
        Answers c (.plus k p greedy :: rest) caps f' (if f'.unmet.testBit k then
          visit true c p (.again k p greedy :: rest) go caps (f'.reach k) else f') :=
      .mark rfl (fun hk => ih caps hr.2 ⟨hr, hrest⟩ ((hexp.later hf').again hk)
        ((hgo.later hf').again hk)) fun o hk h => .plus hk h
    have hstop (f' : Front) (hf' : ∀ o, f.Has o → f'.Has o) :
        Answers c (.done :: rest) caps f' (go caps f') := (hgo caps f' hf').imp fun _ h => .done h
    have hexp' : Explores tie marks c _ f (visit true c (.plus k p greedy) rest go caps f) :=
      visit_explores hr hrest hexp
    rw [visit, if_neg hf] at hexp'
    exact .prefer greedy hmore hstop hexp' (hexp caps f fun _ h => h) ⟨hr, hrest⟩ ⟨trivial, hrest⟩

theorem follow_answers (caps : Captures) {ts : List Route} (hts : TiedAll tie marks ts) :
    Answers c ts caps f (follow true c ts caps f) := by
  induction ts generalizing caps f with
  | nil =>
    rw [follow]
    split
    · next hf => exact .of_hit hf
    next hf =>
    refine ⟨⟨List.suffix_rfl, fun hhit => absurd hhit hf⟩, fun hlost => ?_⟩
    exact ⟨some (caps, c), .ended, none, hlost.1, rfl⟩
  | cons r rest ih =>
    exact visit_answers caps hts.1 hts.2 (fun caps f' _ => follow_explores caps hts.2)
      fun caps f' _ => ih caps hts.2

theorem settle_grows {ts : List Thread} (hts : ∀ t ∈ ts, TiedAll tie marks t.rest) :
    f.Grows (settle true c ts f) := by
  induction ts generalizing f with
  | nil => exact .refl f
  | cons t ts ih =>
    have hfirst := follow_answers (c := c) (f := f) t.caps (hts t List.mem_cons_self)
    exact hfirst.grows.trans (ih fun u hu => hts u (List.mem_cons_of_mem t hu))

/-- Moving threads on, one after another, answers for the first of them that comes to something. -/
theorem settle_comes {ts : List Thread} (hts : ∀ t ∈ ts, TiedAll tie marks t.rest)
    (hlost : f.Lost c) :
    ∃ o, FirstOf (fun t => Tries f.met t.rest c t.caps) ts o ∧ (settle true c ts f).Comes c o := by
  induction ts generalizing f with
  | nil => exact ⟨none, .nil, Front.comes_none.2 hlost⟩
  | cons t ts ih =>
    have htied := hts t List.mem_cons_self
    have htieds : ∀ u ∈ ts, TiedAll tie marks u.rest := fun u hu =>
      hts u (List.mem_cons_of_mem t hu)
    obtain ⟨o, htries, ho⟩ := (follow_answers t.caps htied).comes hlost
    cases o with
    | some m => exact ⟨some m, .here htries, (settle_grows htieds).comes_some ho⟩
    | none =>
      have hlost' := Front.comes_none.1 ho
      have hexp : Explores tie marks c _ f (follow true c t.rest t.caps f) :=
        follow_explores t.caps htied
      have hmet : f.met ⊆ (follow true c t.rest t.caps f).met := fun k hk => hexp.keeps (.met k) hk
      obtain ⟨o, hfirst, ho⟩ := ih htieds hlost'
      refine ⟨o, .later htries (hfirst.mono fun u hu o h => ?_), ho⟩
      exact h.unblock hmet (hexp.barren hlost') (htieds u hu)

end Visit

/-! ### Walks -/

namespace Matcher

variable {m : Matcher} {tie : Nat → List Route} {marks : Nat} {c : Cursor} {ts : List Thread}
  {ahead : List Char}

theorem lost_start (n : Nat) : (Front.start n).Lost c := ⟨.nil, rfl⟩

/-- Before threads are moved on, no mark of the route has been reached. -/
theorem barren_start (hm : m.marks = 2 ^ marks - 1) :
    Barren tie marks c ∅ (Front.start m.marks).met := by
  refine barren_of_le fun k hk => .inr ?_
  have hk : m.marks.testBit k = false := hk
  rw [hm, Nat.testBit_two_pow_sub_one] at hk
  simpa using hk

/-- What the threads of a place come to is what comes of trying them one after another. -/
theorem settle_start_comes (hm : m.marks = 2 ^ marks - 1)
    (hts : ∀ t ∈ ts, TiedAll tie marks t.rest) :
    ∃ o, FirstOf (fun t => Tries ∅ t.rest c t.caps) ts o ∧
      (settle true c ts (.start m.marks)).Comes c o := by
  obtain ⟨o, hfirst, ho⟩ := settle_comes hts (lost_start m.marks)
  refine ⟨o, hfirst.mono fun t ht o h => ?_, ho⟩
  exact h.unblock (Set.empty_subset _) (barren_start hm) (hts t ht)

theorem walk_nil (best : Option (Captures × Cursor)) :
    m.walk none [] c ts best =
      ((settle true c ts (.start m.marks)).hit.map (·, c)).or best := by
  rw [walk]
  cases (settle true c ts (.start m.marks)).hit <;> rfl

theorem walk_cons (ch : Char) (best : Option (Captures × Cursor)) :
    m.walk none (ch :: ahead) c ts best =
      if (settle true c ts (.start m.marks)).live.isEmpty then
        ((settle true c ts (.start m.marks)).hit.map (·, c)).or best
      else m.walk none ahead (c.past ch ahead) (settle true c ts (.start m.marks)).live.reverse
        (((settle true c ts (.start m.marks)).hit.map (·, c)).or best) := by
  rw [walk]
  cases (settle true c ts (.start m.marks)).hit <;> simp

/-- A walk finds what comes of trying its threads one after another. -/
theorem walk_eq_or (hm : m.marks = 2 ^ marks - 1) (hc : c.ahead = ahead)
    (hts : ∀ t ∈ ts, TiedAll tie marks t.rest) (best : Option (Captures × Cursor)) :
    ∃ o, FirstOf (fun t => Tries ∅ t.rest c t.caps) ts o ∧
      m.walk none ahead c ts best = o.or best := by
  induction ahead generalizing c ts best with
  | nil =>
    obtain ⟨o, hfirst, o', hlive, rfl⟩ := settle_start_comes (c := c) hm hts
    rw [Thread.comes_nil hc] at hlive
    obtain rfl := hlive.eq_none fun _ _ h => h
    exact ⟨_, hfirst, walk_nil best⟩
  | cons ch rest ih =>
    obtain ⟨o, hfirst, o', hlive, rfl⟩ := settle_start_comes (c := c) hm hts
    rw [Thread.comes_cons hc] at hlive
    refine ⟨_, hfirst, ?_⟩
    rw [walk_cons, Option.or_assoc]
    split
    · next hempty =>
      rw [List.isEmpty_iff.1 hempty] at hlive
      cases hlive
      rfl
    · have htied := (settle_explores (c := c) (f := .start m.marks) hts).tied
        (by simp [Front.start])
      obtain ⟨o, hfirst', hwalk⟩ := @ih (c.past ch rest)
        (settle true c ts (.start m.marks)).live.reverse rfl
        (fun t ht => htied t (List.mem_reverse.1 ht))
        (((settle true c ts (.start m.marks)).hit.map (·, c)).or best)
      rw [hwalk, hfirst'.unique (fun _ _ _ h h' => h.unique h') hlive]

/-- A matcher finds what comes of trying its route. -/
theorem tries_matchFrom? (htied : m.IsTied) (hidle : m.idleLook = false) (wantsGroups : Bool)
    (c : Cursor) : Tries ∅ [m.route] c [] (m.matchFrom? wantsGroups c) := by
  obtain ⟨tie, marks, hm, hroute⟩ := htied
  have hts : ∀ t ∈ [m.firstThread], TiedAll tie marks t.rest :=
    List.forall_mem_singleton.2 ⟨hroute, trivial⟩
  obtain ⟨o, hfirst, hwalk⟩ := walk_eq_or hm rfl hts none
  rw [matchFrom?]
  simp only [hidle, Bool.false_and, Bool.false_eq_true, if_false]
  rw [hwalk, Option.or_none]
  exact hfirst.of_singleton

end Matcher

end Highlighting

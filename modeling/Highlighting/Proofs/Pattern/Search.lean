import Mathlib.Algebra.Group.Nat.Defs
import Highlighting.Proofs.Pattern.Route

/-!
# Walks find what routes lead to

A walk drops a thread that comes to a mark that another thread has reached at the same place.
Nothing is lost by that: where a thread at a mark goes on depends on the mark alone (`Tied`), so
when the threads of a place are settled, every outcome of a mark that was reached has been met
(`Explores.closed`).  Hence a walk has a match wherever the route leads somewhere
(`Matcher.find?_isSome`).

An outcome is the next thing that may happen to a thread at a place: it ends, it reads the character
ahead, or it meets a mark.
-/

namespace Highlighting

theorem testBit_sub_two_pow {x k : Nat} (h : x.testBit k = true) (j : Nat) :
    (x - 2 ^ k).testBit j = (x.testBit j && decide (j ≠ k)) := by
  have hk : (x % 2 ^ (k + 1)).testBit k = true := by simp [h]
  have hge := Nat.ge_two_pow_of_testBit hk
  have hlt : x % 2 ^ (k + 1) < 2 ^ (k + 1) := Nat.mod_lt _ (Nat.two_pow_pos _)
  obtain ⟨b, hb⟩ : ∃ b, x % 2 ^ (k + 1) = 2 ^ k + b := ⟨_, (Nat.add_sub_of_le hge).symm⟩
  have hblt : b < 2 ^ k := by rw [hb, Nat.pow_succ] at hlt; omega
  have hx : x = 2 ^ (k + 1) * (x / 2 ^ (k + 1)) + (2 ^ k + b) := by
    rw [← hb]
    exact (Nat.div_add_mod x _).symm
  generalize x / 2 ^ (k + 1) = a at hx
  have hsub : x - 2 ^ k = 2 ^ (k + 1) * a + b := by omega
  have hsum : 2 ^ k + b < 2 ^ (k + 1) := by rw [Nat.pow_succ]; omega
  rw [hsub, hx, Nat.testBit_two_pow_mul_add a (by omega), Nat.testBit_two_pow_mul_add a hsum]
  rcases Nat.lt_trichotomy j k with hj | rfl | hj
  · rw [if_pos (by omega), if_pos (by omega), Nat.testBit_two_pow_add_gt hj]
    simp [Nat.ne_of_lt hj]
  · simp [Nat.testBit_lt_two_pow hblt]
  · rw [if_neg (by omega), if_neg (by omega)]
    simp [Nat.ne_of_gt hj]

/-! ### Findings at a place -/

/-- What may happen next to a thread at a place. -/
inductive Finding where
  /-- it has come to the end of its routes -/
  | ended
  /-- it reads the character ahead, and these routes are left -/
  | kept (rest : List Route)
  /-- it meets a mark -/
  | met (mark : Nat)

namespace Route

/-- What may happen next to a thread with given routes. -/
inductive Next (c : Cursor) : List Route → Finding → Prop where
  | nil : Next c [] .ended
  | done {rest o} (h : Next c rest o) : Next c (.done :: rest) o
  | last {x rest} (h : c.ahead.head? = some x) : Next c (.text [x] :: rest) (.kept rest)
  | text {x y xs rest} (h : c.ahead.head? = some x) :
      Next c (.text (x :: y :: xs) :: rest) (.kept (.text (y :: xs) :: rest))
  | one {s x rest} (h : c.ahead.head? = some x) (hx : s.has x = true) :
      Next c (.one s :: rest) (.kept rest)
  | look {mark l rest} : Next c (.look mark l :: rest) (.met mark)
  | record {slot rest o} (h : Next c rest o) : Next c (.record slot :: rest) o
  | meet {mark rest} : Next c (.meet mark :: rest) (.met mark)
  | seq {p q rest o} (h : Next c (p :: q :: rest) o) : Next c (.seq p q :: rest) o
  | left {p q rest o} (h : Next c (p :: rest) o) : Next c (.fork p q :: rest) o
  | right {p q rest o} (h : Next c (q :: rest) o) : Next c (.fork p q :: rest) o
  | star {mark p greedy rest} : Next c (.star mark p greedy :: rest) (.met mark)
  | plus {mark p greedy rest} : Next c (.plus mark p greedy :: rest) (.met mark)
  | more {mark p greedy rest} : Next c (.again mark p greedy :: rest) (.met mark)
  | stop {mark p greedy rest o} (h : Next c rest o) : Next c (.again mark p greedy :: rest) o

/-- What may happen next to a thread that has met a mark at the head of its routes. -/
def Behind (c : Cursor) (rs : List Route) (o : Finding) : Prop :=
  match rs with
  | .look _ l :: rest => l.holds c = true ∧ Next c rest o
  | .meet _ :: rest => Next c rest o
  | .star mark p greedy :: rest => Next c (p :: .star mark p greedy :: rest) o ∨ Next c rest o
  | .again mark p greedy :: rest => Next c (p :: .again mark p greedy :: rest) o
  | _ => False

/-- The marks of a route are below a number, and each of them stands for the routes that are left
there. -/
def Tied (tie : Nat → List Route) (marks : Nat) : Route → List Route → Prop
  | .done, _ | .one _, _ | .record _, _ => True
  | .text cs, _ => cs ≠ []
  | .look mark l, rest => mark < marks ∧ tie mark = .look mark l :: rest
  | .meet mark, rest => mark < marks ∧ tie mark = .meet mark :: rest
  | .seq p q, rest => Tied tie marks p (q :: rest) ∧ Tied tie marks q rest
  | .fork p q, rest => Tied tie marks p rest ∧ Tied tie marks q rest
  | .star mark p greedy, rest =>
    (mark < marks ∧ tie mark = .star mark p greedy :: rest) ∧
      Tied tie marks p (.star mark p greedy :: rest)
  | .plus mark p greedy, rest | .again mark p greedy, rest =>
    (mark < marks ∧ tie mark = .again mark p greedy :: rest) ∧
      Tied tie marks p (.again mark p greedy :: rest)

/-- The routes that are left to a thread are tied. -/
def TiedAll (tie : Nat → List Route) (marks : Nat) : List Route → Prop
  | [] => True
  | r :: rest => Tied tie marks r rest ∧ TiedAll tie marks rest

end Route

namespace Front

variable {f : Front} {k : Nat} {o : Finding}

/-- An outcome has been met. -/
def Has (f : Front) : Finding → Prop
  | .ended => f.hit.isSome = true
  | .kept rest => ∃ caps, ⟨rest, caps⟩ ∈ f.live
  | .met mark => f.unmet.testBit mark = false

theorem has_reach (hk : f.unmet.testBit k = true) :
    (f.reach k).Has o ↔ f.Has o ∨ o = .met k := by
  cases o with
  | ended | kept rest => simp [Has, reach]
  | met mark =>
    simp only [Has, reach, Nat.one_shiftLeft, testBit_sub_two_pow hk, Finding.met.injEq,
      Bool.and_eq_false_iff, decide_eq_false_iff_not, not_not]

theorem has_keepIf {goesOn : Bool} {rest : List Route} {caps : Captures} :
    (f.keepIf goesOn rest caps).Has o ↔ f.Has o ∨ goesOn = true ∧ o = .kept rest := by
  cases goesOn with
  | false => simp [keepIf]
  | true =>
    cases o with
    | ended | met mark => simp [Has, keepIf]
    | kept rest' =>
      simp only [Has, keepIf, if_true, List.mem_cons, Thread.mk.injEq, Finding.kept.injEq,
        true_and]
      constructor
      · rintro ⟨caps', ⟨rfl, rfl⟩ | h⟩
        · exact .inr rfl
        · exact .inl ⟨caps', h⟩
      · rintro (⟨caps', h⟩ | rfl)
        · exact ⟨caps', .inr h⟩
        · exact ⟨caps, .inl ⟨rfl, rfl⟩⟩

end Front

/-! ### Exploring a place -/

open Route

/-- From one front to another, outcomes are met: none is lost, those of the newly reached marks are
met, and so are given ones; an end makes up for what is missing. -/
structure Explores (tie : Nat → List Route) (marks : Nat) (c : Cursor) (goal : Finding → Prop)
    (f f' : Front) : Prop where
  keeps : ∀ o, f.Has o → f'.Has o
  tied : (∀ t ∈ f.live, TiedAll tie marks t.rest) → ∀ t ∈ f'.live, TiedAll tie marks t.rest
  closed : f'.hit = none → ∀ k, ¬ f.Has (.met k) → f'.Has (.met k) → ∀ o, Behind c (tie k) o →
    f'.Has o
  finds : f'.hit = none → ∀ o, goal o → f'.Has o

namespace Explores

variable {tie : Nat → List Route} {marks : Nat} {c : Cursor} {goal goal' : Finding → Prop}
  {f f' f'' : Front} {k : Nat}

theorem hit_none (h : Explores tie marks c goal f f') (hf : f'.hit = none) : f.hit = none := by
  by_contra hne
  have := h.keeps .ended (by rwa [Front.Has, Option.isSome_iff_ne_none])
  rw [Front.Has, hf] at this
  cases this

theorem refl (f : Front) (h : f.hit = none → ∀ o, goal o → f.Has o) :
    Explores tie marks c goal f f :=
  ⟨fun _ h => h, fun h => h, fun _ _ hk hk' => absurd hk' hk, h⟩

theorem mono (h : Explores tie marks c goal f f') (hg : ∀ o, goal' o → f'.Has o ∨ goal o) :
    Explores tie marks c goal' f f' :=
  ⟨h.keeps, h.tied, h.closed, fun hf o ho => (hg o ho).elim id (h.finds hf o)⟩

theorem trans (h : Explores tie marks c goal f f') (h' : Explores tie marks c goal' f' f'') :
    Explores tie marks c (fun o => goal o ∨ goal' o) f f'' := by
  refine ⟨fun o ho => h'.keeps o (h.keeps o ho), fun ht => h'.tied (h.tied ht), ?_, ?_⟩
  · intro hf k hk hk'' o ho
    by_cases hk' : f'.Has (.met k)
    · exact h'.keeps o (h.closed (h'.hit_none hf) k hk hk' o ho)
    · exact h'.closed hf k hk' hk'' o ho
  · rintro hf o (ho | ho)
    · exact h'.keeps o (h.finds (h'.hit_none hf) o ho)
    · exact h'.finds hf o ho

/-- Two ways are explored one after the other, in either order. -/
theorem either {first second : Front → Front} (greedy : Bool)
    (hfirst : ∀ f', (∀ o, f.Has o → f'.Has o) → Explores tie marks c goal f' (first f'))
    (hsecond : ∀ f', (∀ o, f.Has o → f'.Has o) → Explores tie marks c goal' f' (second f')) :
    Explores tie marks c (fun o => goal o ∨ goal' o) f
      (if greedy then second (first f) else first (second f)) := by
  cases greedy with
  | true =>
    have h := hfirst f fun _ h => h
    exact h.trans (hsecond _ h.keeps)
  | false =>
    have h := hsecond f fun _ h => h
    exact (h.trans (hfirst _ h.keeps)).mono fun o ho => .inr ho.symm

/-- A mark is reached, and what is behind it is met. -/
theorem reach (hk : f.unmet.testBit k = true)
    (h : Explores tie marks c (Behind c (tie k)) (f.reach k) f') :
    Explores tie marks c (· = .met k) f f' := by
  refine ⟨fun o ho => h.keeps o ((Front.has_reach hk).2 (.inl ho)), h.tied, ?_, ?_⟩
  · intro hf j hj hj' o ho
    by_cases hjk : j = k
    · exact h.finds hf o (hjk ▸ ho)
    · refine h.closed hf j (fun hr => ?_) hj' o ho
      rcases (Front.has_reach hk).1 hr with hr | hr
      · exact hj hr
      · exact hjk (Finding.met.inj hr)
  · rintro - o rfl
    exact h.keeps _ ((Front.has_reach hk).2 (.inr rfl))

theorem keepIf {goesOn : Bool} {rest : List Route} {caps : Captures}
    (ht : TiedAll tie marks rest) :
    Explores tie marks c (fun o => goesOn = true ∧ o = .kept rest) f
      (f.keepIf goesOn rest caps) := by
  refine ⟨fun o ho => Front.has_keepIf.2 (.inl ho), fun hf t hmem => ?_, fun _ k hk hk' => ?_,
    fun _ o ho => Front.has_keepIf.2 (.inr ho)⟩
  · cases goesOn with
    | false => exact hf t hmem
    | true =>
      rcases List.mem_cons.1 hmem with rfl | hmem
      · exact ht
      · exact hf t hmem
  · rcases Front.has_keepIf.1 hk' with hr | ⟨-, hr⟩
    · exact absurd hr hk
    · cases hr

end Explores

section Visit

variable {tie : Nat → List Route} {marks : Nat} {c : Cursor} {f : Front} {r : Route}
  {rest : List Route} {caps : Captures} {go : Captures → Front → Front}

/-- What moves a thread on from the end of a route explores the routes behind it, from every front
that has met at least what a given one has. -/
def GoExplores (tie : Nat → List Route) (marks : Nat) (c : Cursor) (rest : List Route) (f : Front)
    (go : Captures → Front → Front) : Prop :=
  ∀ caps f', (∀ o, f.Has o → f'.Has o) → Explores tie marks c (Next c rest) f' (go caps f')

theorem GoExplores.later {f' : Front} (h : GoExplores tie marks c rest f go)
    (hf : ∀ o, f.Has o → f'.Has o) : GoExplores tie marks c rest f' go := fun caps f'' hf' =>
  h caps f'' fun o ho => hf' o (hf o ho)

theorem GoExplores.reach {k : Nat} (h : GoExplores tie marks c rest f go)
    (hk : f.unmet.testBit k = true) : GoExplores tie marks c rest (f.reach k) go :=
  h.later fun _ ho => (Front.has_reach hk).2 (.inl ho)

/-- Behind a round of `plus` its mark has been reached, so the routes behind the loop are left. -/
theorem GoExplores.again {k : Nat} {p : Route} {greedy : Bool}
    (h : GoExplores tie marks c rest f go) (hk : f.unmet.testBit k = true) :
    GoExplores tie marks c (.again k p greedy :: rest) (f.reach k) go := by
  intro caps f' hf
  refine ((h.reach hk) caps f' hf).mono fun o ho => ?_
  cases ho with
  | more => exact .inl ((h.reach hk caps f' hf).keeps _ (hf _ ((Front.has_reach hk).2 (.inr rfl))))
  | stop ho => exact .inr ho

/-- A round of `star` that has come to its end meets the mark of the loop again. -/
theorem goExplores_star {k : Nat} {p : Route} {greedy : Bool} (hk : f.unmet.testBit k = true) :
    GoExplores tie marks c (.star k p greedy :: rest) (f.reach k) (fun _ f => f) := by
  intro _ f' hf
  refine .refl f' fun _ o ho => ?_
  cases ho
  exact hf _ ((Front.has_reach hk).2 (.inr rfl))

theorem explores_hit (hf : f.hit.isSome = true) {goal : Finding → Prop} :
    Explores tie marks c goal f f :=
  .refl f fun hnone => by rw [hnone] at hf; cases hf

/-- A mark that may be reached already. -/
theorem explores_mark {k : Nat} {f' : Front}
    (h : f.unmet.testBit k = true →
      Explores tie marks c (Behind c (tie k)) (f.reach k) f') :
    Explores tie marks c (· = .met k) f (if f.unmet.testBit k then f' else f) := by
  split
  · next hk => exact .reach hk (h hk)
  · next hk =>
    refine .refl f fun _ o ho => ?_
    rw [ho]
    exact Bool.eq_false_iff.2 hk

/-- A thread that is to read a text goes on behind its first character. -/
theorem visit_text_explores {cs : List Char} (hrest : TiedAll tie marks rest) :
    Explores tie marks c (Next c (.text cs :: rest)) f
      (visit true c (.text cs) rest go caps f) := by
  unfold visit
  split
  · next hf => exact explores_hit hf
  dsimp only
  rw [if_pos rfl]
  split
  · next x ch hch =>
    refine (Explores.keepIf hrest).mono fun o ho => ?_
    cases ho with
    | last h => exact .inr ⟨by simpa using Option.some.inj (h.symm.trans hch), rfl⟩
  · next x xs ch hxs hch =>
    have htied : TiedAll tie marks (.text xs :: rest) := ⟨hxs, hrest⟩
    refine (Explores.keepIf htied).mono fun o ho => ?_
    cases ho with
    | last h => exact absurd rfl hxs
    | text h => exact .inr ⟨by simpa using Option.some.inj (h.symm.trans hch), rfl⟩
  · next h1 h2 =>
    refine .refl f fun _ o ho => ?_
    cases ho with
    | last h => exact absurd h (h1 _ _ rfl)
    | text h => exact absurd h (h2 _ _ _ rfl)

theorem visit_one_explores {s : CharSet} (hrest : TiedAll tie marks rest) :
    Explores tie marks c (Next c (.one s :: rest)) f (visit true c (.one s) rest go caps f) := by
  rw [visit]
  split
  · next hf => exact explores_hit hf
  rw [if_pos rfl]
  split
  · next ch hch =>
    refine (Explores.keepIf hrest).mono fun o ho => ?_
    cases ho with
    | one h hx => exact .inr ⟨Option.some.inj (h.symm.trans hch) ▸ hx, rfl⟩
  · next hch =>
    refine .refl f fun _ o ho => ?_
    cases ho with
    | one h hx => rw [hch] at h; cases h

/-- Moving a thread on through a tied route explores its routes. -/
theorem visit_explores (hr : Tied tie marks r rest) (hrest : TiedAll tie marks rest)
    (hgo : GoExplores tie marks c rest f go) :
    Explores tie marks c (Next c (r :: rest)) f (visit true c r rest go caps f) := by
  induction r generalizing rest go caps f with
  | done =>
    rw [visit]
    split
    · next hf => exact explores_hit hf
    · exact (hgo caps f fun _ h => h).mono fun o ho => by cases ho with | done ho => exact .inr ho
  | text cs => exact visit_text_explores hrest
  | one s => exact visit_one_explores hrest
  | look k l =>
    rw [visit]
    split
    · next hf => exact explores_hit hf
    refine (explores_mark fun hk => ?_).mono fun o ho => by cases ho; exact .inr rfl
    rw [hr.2]
    simp only [Bool.not_true, Bool.false_and, Bool.false_eq_true, if_false]
    split
    · next hl => exact (hgo.reach hk caps _ fun _ h => h).mono fun o ho => .inr ho.2
    · next hl => exact .refl _ fun _ o ho => absurd ho.1 hl
  | record slot =>
    rw [visit]
    split
    · next hf => exact explores_hit hf
    · exact (hgo _ f fun _ h => h).mono fun o ho => by cases ho with | record ho => exact .inr ho
  | meet k =>
    rw [visit]
    split
    · next hf => exact explores_hit hf
    refine (explores_mark fun hk => ?_).mono fun o ho => by cases ho; exact .inr rfl
    rw [hr.2]
    exact hgo.reach hk caps _ fun _ h => h
  | seq p q ihp ihq =>
    rw [visit]
    split
    · next hf => exact explores_hit hf
    · refine (ihp hr.1 ⟨hr.2, hrest⟩ fun caps f' hf => ?_).mono fun o ho => by
        cases ho with | seq ho => exact .inr ho
      exact ihq hr.2 hrest (hgo.later hf)
  | fork p q ihp ihq =>
    rw [visit]
    split
    · next hf => exact explores_hit hf
    · have hp := @ihp _ _ caps _ hr.1 hrest hgo
      refine (hp.trans (ihq hr.2 hrest (hgo.later hp.keeps))).mono fun o ho => ?_
      cases ho with
      | left ho => exact .inr (.inl ho)
      | right ho => exact .inr (.inr ho)
  | star k p greedy ih =>
    rw [visit]
    split
    · next hf => exact explores_hit hf
    refine (explores_mark fun hk => ?_).mono fun o ho => by cases ho; exact .inr rfl
    have hmore : ∀ f', (∀ o, (f.reach k).Has o → f'.Has o) →
        Explores tie marks c (Next c (p :: .star k p greedy :: rest)) f'
          (visit true c p (.star k p greedy :: rest) (fun _ f => f) caps f') := fun f' hf' =>
      ih hr.2 ⟨hr, hrest⟩ ((goExplores_star hk).later hf')
    rw [hr.1.2]
    exact .either greedy hmore (hgo.reach hk caps)
  | plus k p greedy ih =>
    rw [visit]
    split
    · next hf => exact explores_hit hf
    refine (explores_mark fun hk => ?_).mono fun o ho => by cases ho; exact .inr rfl
    rw [hr.1.2]
    exact ih hr.2 ⟨hr, hrest⟩ (hgo.again hk)
  | again k p greedy ih =>
    rw [visit]
    split
    · next hf => exact explores_hit hf
    have hmore : ∀ f', (∀ o, f.Has o → f'.Has o) →
        Explores tie marks c (· = .met k) f'
          (if f'.unmet.testBit k then
            visit true c p (.again k p greedy :: rest) go caps (f'.reach k)
          else f') := by
      intro f' hf'
      refine explores_mark fun hk => ?_
      rw [hr.1.2]
      exact ih hr.2 ⟨hr, hrest⟩ ((hgo.later hf').again hk)
    refine (Explores.either greedy hmore (hgo caps)).mono fun o ho => ?_
    cases ho with
    | more => exact .inr (.inl rfl)
    | stop ho => exact .inr (.inr ho)

theorem follow_explores (caps : Captures) {ts : List Route} (hts : TiedAll tie marks ts) :
    Explores tie marks c (Next c ts) f (follow true c ts caps f) := by
  induction ts generalizing caps f with
  | nil =>
    rw [follow]
    split
    · next hf => exact explores_hit hf
    · rw [if_pos rfl]
      refine ⟨fun o ho => ?_, fun h => h, ?_, ?_⟩
      · cases o with
        | ended => rfl
        | kept rest | met k => exact ho
      · simp
      · simp
  | cons r rest ih => exact visit_explores hts.1 hts.2 fun caps f' _ => ih caps hts.2

theorem settle_explores {ts : List Thread} (hts : ∀ t ∈ ts, TiedAll tie marks t.rest) :
    Explores tie marks c (fun o => ∃ t ∈ ts, Next c t.rest o) f (settle true c ts f) := by
  induction ts generalizing f with
  | nil => exact .refl f fun _ o ⟨t, ht, _⟩ => absurd ht List.not_mem_nil
  | cons t ts ih =>
    have hfirst := follow_explores (c := c) (f := f) t.caps (hts t List.mem_cons_self)
    refine (hfirst.trans (ih fun u hu => hts u (List.mem_cons_of_mem t hu))).mono fun o ho => ?_
    obtain ⟨u, hu, ho⟩ := ho
    rcases List.mem_cons.1 hu with rfl | hu
    · exact .inr (.inl ho)
    · exact .inr (.inr ⟨u, hu, ho⟩)

end Visit

/-! ### Arriving -/

section Arrives

variable {tie : Nat → List Route} {marks : Nat} {c d e : Cursor} {met : Finding → Prop}
  {r p : Route} {rest : List Route}

/-- The outcomes that have been met at a place are enough to come to another: an end when it is the
same, or else a thread that reads the character ahead and whose routes lead there. -/
def Arrives (tie : Nat → List Route) (marks : Nat) (c : Cursor) (met : Finding → Prop)
    (d : Cursor) : Prop :=
  (met .ended ∧ c = d) ∨ ∃ rest c', met (.kept rest) ∧ TiedAll tie marks rest ∧
    (∃ ch, c.Reads [ch] c') ∧ LeadAll rest c' d

/-- Rounds that start at a place: none is left to go, or a first one goes somewhere. -/
theorem rounds_induction {x : Cursor} {goal : Prop} (h : Relation.ReflTransGen p.Leads x e)
    (hstop : e = c → goal)
    (hmore : ∀ y, p.Leads c y → Relation.ReflTransGen p.Leads y e → (y = c → goal) → goal) :
    x = c → goal := by
  induction h using Relation.ReflTransGen.head_induction_on with
  | refl => exact hstop
  | head hxy hye ih =>
    rintro rfl
    exact hmore _ hxy hye ih

/-- Where a route leads, the outcomes that may happen next to a thread on it are enough to come,
provided those behind the marks are met with the marks. -/
theorem arrives_of_leads
    (hmet : ∀ k, k < marks → met (.met k) → ∀ o, Behind c (tie k) o → met o)
    (hr : Tied tie marks r rest) (hrest : TiedAll tie marks rest)
    (hnext : ∀ o, Next c (r :: rest) o → met o) (hre : r.Leads c e) (hed : LeadAll rest e d)
    (hend : e = c → (∀ o, Next c rest o → met o) → Arrives tie marks c met d) :
    Arrives tie marks c met d := by
  induction r generalizing rest e with
  | done => exact hend hre.symm fun o ho => hnext o (.done ho)
  | text cs =>
    match cs, hr, hre with
    | [x], _, hre =>
      have hreads : c.Reads [x] e := hre
      have hx : c.ahead.head? = some x := by rw [hreads.ahead]; rfl
      exact .inr ⟨rest, e, hnext _ (.last hx), hrest, ⟨x, hreads⟩, hed⟩
    | x :: y :: xs, _, hre =>
      obtain ⟨ahead, hahead, hxs⟩ := hre
      have hx : c.ahead.head? = some x := by rw [hahead]; rfl
      exact .inr ⟨.text (y :: xs) :: rest, _, hnext _ (.text hx), ⟨List.cons_ne_nil y xs, hrest⟩,
        ⟨x, Cursor.reads_past hahead⟩, e, hxs, hed⟩
  | one s =>
    obtain ⟨x, hx, hre⟩ := hre
    have hhead : c.ahead.head? = some x := by rw [hre.ahead]; rfl
    exact .inr ⟨rest, e, hnext _ (.one hhead hx), hrest, ⟨x, hre⟩, hed⟩
  | look k l =>
    have hk := hmet k hr.1 (hnext _ .look)
    rw [hr.2] at hk
    exact hend hre.2.symm fun o ho => hk o ⟨hre.1, ho⟩
  | record slot => exact hend hre.symm fun o ho => hnext o (.record ho)
  | meet k =>
    have hk := hmet k hr.1 (hnext _ .meet)
    rw [hr.2] at hk
    exact hend hre.symm hk
  | seq p q ihp ihq =>
    obtain ⟨e', hp, hq⟩ := hre
    refine ihp hr.1 ⟨hr.2, hrest⟩ (fun o ho => hnext o (.seq ho)) hp ⟨e, hq, hed⟩ ?_
    rintro rfl hnext'
    exact ihq hr.2 hrest hnext' hq hed hend
  | fork p q ihp ihq =>
    rcases hre with hp | hq
    · exact ihp hr.1 hrest (fun o ho => hnext o (.left ho)) hp hed hend
    · exact ihq hr.2 hrest (fun o ho => hnext o (.right ho)) hq hed hend
  | star k p greedy ih =>
    have hk := hmet k hr.1.1 (hnext _ .star)
    rw [hr.1.2] at hk
    refine rounds_induction hre (fun he => hend he fun o ho => hk o (.inr ho)) ?_ rfl
    intro y hy hye hyc
    exact ih hr.2 ⟨hr, hrest⟩ (fun o ho => hk o (.inl ho)) hy ⟨e, hye, hed⟩ fun h _ => hyc h
  | plus k p greedy ih =>
    have hk := hmet k hr.1.1 (hnext _ .plus)
    rw [hr.1.2] at hk
    obtain ⟨e', hp, hre⟩ := hre
    refine ih hr.2 ⟨hr, hrest⟩ hk hp ⟨e, hre, hed⟩ ?_
    rintro rfl hnext'
    refine rounds_induction hre (fun he => hend he fun o ho => hnext' o (.stop ho)) ?_ rfl
    intro y hy hye hyc
    exact ih hr.2 ⟨hr, hrest⟩ hk hy ⟨e, hye, hed⟩ fun h _ => hyc h
  | again k p greedy ih =>
    have hk := hmet k hr.1.1 (hnext _ .more)
    rw [hr.1.2] at hk
    refine rounds_induction hre (fun he => hend he fun o ho => hnext o (.stop ho)) ?_ rfl
    intro y hy hye hyc
    exact ih hr.2 ⟨hr, hrest⟩ hk hy ⟨e, hye, hed⟩ fun h _ => hyc h

theorem arrives_of_leadAll
    (hmet : ∀ k, k < marks → met (.met k) → ∀ o, Behind c (tie k) o → met o)
    (hrest : TiedAll tie marks rest) (hnext : ∀ o, Next c rest o → met o)
    (h : LeadAll rest c d) : Arrives tie marks c met d := by
  induction rest with
  | nil => exact .inl ⟨hnext _ .nil, h⟩
  | cons r rest ih =>
    obtain ⟨e, hre, hed⟩ := h
    refine arrives_of_leads hmet hrest.1 hrest.2 hnext hre hed ?_
    rintro rfl hnext'
    exact ih hrest.2 hnext' hed

end Arrives

namespace Matcher

variable {m : Matcher} {tie : Nat → List Route} {marks : Nat} {c d : Cursor}

/-- The marks of a matcher are numbered, and each stands for the routes that are left there. -/
def IsTied (m : Matcher) : Prop :=
  ∃ tie marks, m.marks = 2 ^ marks - 1 ∧ Tied tie marks m.route []

theorem settle_arrives {threads : List Thread} (hm : m.marks = 2 ^ marks - 1)
    (hts : ∀ t ∈ threads, TiedAll tie marks t.rest) {t : Thread} (ht : t ∈ threads)
    (hd : LeadAll t.rest c d)
    (hhit : (settle true c threads (.start m.marks)).hit = none) :
    Arrives tie marks c (settle true c threads (.start m.marks)).Has d := by
  have hexp := settle_explores (c := c) (f := .start m.marks) hts
  refine arrives_of_leadAll (fun k hk hmet => ?_) (hts t ht)
    (fun o ho => hexp.finds hhit o ⟨t, ht, ho⟩) hd
  refine hexp.closed hhit k ?_ hmet
  simp [Front.Has, Front.start, hm, hk]

theorem walk_isSome (hm : m.marks = 2 ^ marks - 1) {ahead : List Char} (hc : c.ahead = ahead)
    {threads : List Thread} (hts : ∀ t ∈ threads, TiedAll tie marks t.rest)
    {best : Option (Captures × Cursor)}
    (h : best.isSome = true ∨ ∃ t ∈ threads, ∃ d, LeadAll t.rest c d) :
    (m.walk none ahead c threads best).isSome = true := by
  induction ahead generalizing c threads best with
  | nil =>
    rw [walk]
    cases hhit : (settle true c threads (.start m.marks)).hit with
    | some caps => rfl
    | none =>
      rcases h with hbest | ⟨t, ht, d, hd⟩
      · exact hbest
      rcases settle_arrives hm hts ht hd hhit with ⟨hended, -⟩ | ⟨rest, c', -, -, ⟨x, hx⟩, -⟩
      · rw [Front.Has, hhit] at hended
        cases hended
      · rw [hx.ahead] at hc
        cases hc
  | cons ch rest ih =>
    have htied := (settle_explores (c := c) (f := .start m.marks) hts).tied
      (by simp [Front.start])
    have htied' : ∀ t ∈ (settle true c threads (.start m.marks)).live.reverse,
        TiedAll tie marks t.rest := fun t ht => htied t (List.mem_reverse.1 ht)
    rw [walk]
    simp only [Bool.or_eq_true, List.isEmpty_iff, beq_iff_eq, reduceCtorEq, or_false]
    cases hhit : (settle true c threads (.start m.marks)).hit with
    | some caps =>
      dsimp only
      split
      · rfl
      · exact ih rfl htied' (.inl rfl)
    | none =>
      dsimp only
      rcases h with hbest | ⟨t, ht, d, hd⟩
      · split
        · exact hbest
        · exact ih rfl htied' (.inl hbest)
      rcases settle_arrives hm hts ht hd hhit with
        ⟨hended, -⟩ | ⟨left, c', ⟨caps, hlive⟩, -, ⟨x, hx⟩, hlead⟩
      · rw [Front.Has, hhit] at hended
        cases hended
      rw [if_neg (List.ne_nil_of_mem hlive)]
      obtain ⟨ahead, hahead, hpast⟩ := hx
      obtain ⟨rfl, rfl⟩ := List.cons.inj (hahead.symm.trans hc)
      refine ih rfl htied' (.inr ⟨_, List.mem_reverse.2 hlive, d, ?_⟩)
      rwa [Cursor.reads_nil.1 hpast]

theorem matchFrom?_isSome (htied : m.IsTied) (hidle : m.idleLook = false) (wantsGroups : Bool)
    (h : m.route.Leads c d) : (m.matchFrom? wantsGroups c).isSome = true := by
  obtain ⟨tie, marks, hm, hroute⟩ := htied
  rw [matchFrom?]
  simp only [hidle, Bool.false_and, Bool.false_eq_true, if_false]
  refine walk_isSome hm rfl (?_ : ∀ t : Thread, t ∈ _ → TiedAll tie _ t.rest)
    (.inr ⟨m.firstThread, by simp, d, ?_⟩)
  · intro t ht
    obtain rfl := List.mem_singleton.1 ht
    exact ⟨hroute, trivial⟩
  · exact leadAll_singleton.2 h

/-- A search finds something when the route leads somewhere from the place of the search. -/
theorem find?_isSome (htied : m.IsTied) (hidle : m.idleLook = false) (wantsGroups : Bool)
    (h : m.route.Leads c d) : (m.find? wantsGroups c).isSome = true := by
  have hfrom := matchFrom?_isSome htied hidle wantsGroups h
  rw [find?]
  split
  · exact hfrom
  · cases c.ahead with
    | nil => exact hfrom
    | cons ch rest =>
      rw [findFrom?]
      split
      · rfl
      · next hnone => rw [hnone] at hfrom; cases hfrom

end Matcher

end Highlighting

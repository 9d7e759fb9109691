import Highlighting.Proofs.Pattern.Spellings

/-!
# Characters in what routes read

`Route.needs` says that all a route reads has one of some characters in it, and `Route.wordsWith?`
lists the texts with a certain character that a route may read, if there are finitely many.
`Route.takenRanges` are ranges of characters over each of which a route leads wherever it stands.
-/

namespace Highlighting

namespace Route

variable {r p q : Route} {c d : Cursor} {ch : Char} {u : List Char} {wanted : List Char}

/-- Whether all that a route reads has one of some characters. -/
def needs (wanted : List Char) : Route → Bool
  | .text cs => cs.any wanted.contains
  | .seq p q => p.needs wanted || q.needs wanted
  | .fork p q => p.needs wanted && q.needs wanted
  | .plus _ p _ => p.needs wanted
  | _ => false

theorem Leads.reads_needed (h : r.Leads c d) (hr : r.needs wanted = true) :
    ∃ u, c.Reads u d ∧ ∃ ch ∈ u, wanted.contains ch = true := by
  induction r generalizing c d with
  | done | one _ | look _ _ | record _ | meet _ => cases hr
  | star _ _ _ | again _ _ _ => cases hr
  | text cs => exact ⟨cs, h, List.any_eq_true.1 hr⟩
  | seq p q ihp ihq =>
    obtain ⟨e, hp, hq⟩ := h
    obtain ⟨u, hu⟩ := hp.reads
    obtain ⟨v, hv⟩ := hq.reads
    rcases Bool.or_eq_true_iff.1 hr with hr | hr
    · obtain ⟨u, hu, ch, hch, hwanted⟩ := ihp hp hr
      exact ⟨u ++ v, hu.trans hv, ch, List.mem_append_left v hch, hwanted⟩
    · obtain ⟨v, hv, ch, hch, hwanted⟩ := ihq hq hr
      exact ⟨u ++ v, hu.trans hv, ch, List.mem_append_right u hch, hwanted⟩
  | fork p q ihp ihq =>
    obtain ⟨hp, hq⟩ := Bool.and_eq_true_iff.1 hr
    exact h.elim (ihp · hp) (ihq · hq)
  | plus _ p _ ih =>
    obtain ⟨e, hp, hs⟩ := h
    obtain ⟨u, hu, ch, hch, hwanted⟩ := ih hp hr
    obtain ⟨v, hv⟩ := (show (Route.star 0 p true).Leads e d from hs).reads
    exact ⟨u ++ v, hu.trans hv, ch, List.mem_append_left v hch, hwanted⟩

/-! ### The texts with a character -/

/-- All of some texts followed by all of others. -/
def joined (us vs : List (List Char)) : List (List Char) := us.flatMap fun u => vs.map (u ++ ·)

theorem mem_joined {us vs : List (List Char)} {u v : List Char} (hu : u ∈ us) (hv : v ∈ vs) :
    u ++ v ∈ joined us vs := List.mem_flatMap.2 ⟨u, hu, List.mem_map_of_mem hv⟩

/-- The texts with a character that a route may read, if finitely many are found. -/
def wordsWith? (ch : Char) : Route → Option (List (List Char))
  | .text cs => some (if cs.contains ch then [cs] else [])
  | .one s => some (if s.has ch then [[ch]] else [])
  | .seq p q =>
    if p.avoids [ch] then
      if q.avoids [ch] then some []
      else p.spellings?.bind fun us => (q.wordsWith? ch).map (joined us)
    else if q.avoids [ch] then (p.wordsWith? ch).bind fun us => q.spellings?.map (joined us)
    else none
  | .fork p q => (p.wordsWith? ch).bind fun us => (q.wordsWith? ch).map (us ++ ·)
  | .star _ p _ | .plus _ p _ | .again _ p _ => if p.avoids [ch] then some [] else none
  | _ => some []

/-- What avoids a character is not read with it. -/
theorem Leads.not_mem_of_avoids (h : r.Leads c d) (hr : r.avoids [ch] = true)
    (hu : c.Reads u d) : ch ∉ u := by
  obtain ⟨v, hv, havoids⟩ := h.reads_avoiding hr
  obtain rfl := hu.text_unique hv
  intro hmem
  simpa using havoids ch hmem

/-- A text with a character that a route reads is one of those that are found. -/
theorem Leads.mem_wordsWith (h : r.Leads c d) (hu : c.Reads u d) (hch : ch ∈ u)
    {ws : List (List Char)} (hr : r.wordsWith? ch = some ws) : u ∈ ws := by
  induction r generalizing c d u ws with
  | done | record _ | meet _ =>
    obtain rfl := hu.text_unique (show c.Reads [] d from h)
    cases hch
  | look _ _ =>
    obtain rfl := hu.text_unique (show c.Reads [] d from h.2)
    cases hch
  | text cs =>
    obtain rfl := hu.text_unique (show c.Reads cs d from h)
    rw [wordsWith?, if_pos (List.contains_iff_mem.2 hch)] at hr
    obtain rfl := Option.some.inj hr
    exact List.mem_singleton_self u
  | one s =>
    obtain ⟨x, hx, hread⟩ := h
    obtain rfl := hu.text_unique hread
    obtain rfl := List.mem_singleton.1 hch
    rw [wordsWith?, if_pos hx] at hr
    obtain rfl := Option.some.inj hr
    exact List.mem_singleton_self [ch]
  | seq p q ihp ihq =>
    obtain ⟨e, hp, hq⟩ := h
    obtain ⟨v, hv⟩ := hp.reads
    obtain ⟨w, hw⟩ := hq.reads
    obtain rfl := hu.text_unique (hv.trans hw)
    rw [wordsWith?] at hr
    by_cases hpa : p.avoids [ch] = true
    · have hmem : ch ∈ w := (List.mem_append.1 hch).resolve_left (hp.not_mem_of_avoids hpa hv)
      rw [if_pos hpa] at hr
      split at hr
      · next hqa => exact absurd hmem (hq.not_mem_of_avoids hqa hw)
      · obtain ⟨us, hus, hr⟩ := Option.bind_eq_some_iff.1 hr
        obtain ⟨vs, hvs, rfl⟩ := Option.map_eq_some_iff.1 hr
        exact mem_joined (hp.mem_spellings hus hv) (ihq hq hw hmem hvs)
    · rw [if_neg hpa] at hr
      split at hr
      · next hqa =>
        have hmem : ch ∈ v := (List.mem_append.1 hch).resolve_right (hq.not_mem_of_avoids hqa hw)
        obtain ⟨us, hus, hr⟩ := Option.bind_eq_some_iff.1 hr
        obtain ⟨vs, hvs, rfl⟩ := Option.map_eq_some_iff.1 hr
        exact mem_joined (ihp hp hv hmem hus) (hq.mem_spellings hvs hw)
      · cases hr
  | fork p q ihp ihq =>
    obtain ⟨us, hus, hr⟩ := Option.bind_eq_some_iff.1 hr
    obtain ⟨vs, hvs, rfl⟩ := Option.map_eq_some_iff.1 hr
    rcases h with h | h
    · exact List.mem_append_left vs (ihp h hu hch hus)
    · exact List.mem_append_right us (ihq h hu hch hvs)
  | star k p greedy _ | plus k p greedy _ | again k p greedy _ =>
    rw [wordsWith?] at hr
    split at hr
    · next hpa => exact absurd hch (h.not_mem_of_avoids hpa hu)
    · cases hr

/-! ### Ranges of characters that a route takes -/

instance (rs : Intervals) : Decidable (CharSet.Ordered rs) :=
  inferInstanceAs (Decidable (List.Pairwise _ rs))

/-- Ranges of characters over each of which a route leads wherever it stands. -/
def takenRanges : Route → Intervals
  | .text [ch] => [(ch.toNat, ch.toNat)]
  | .one s => if CharSet.Ordered s.ranges then s.ranges else []
  | .seq p q =>
    (if q.idles then p.takenRanges else []) ++ if p.idles then q.takenRanges else []
  | .fork p q => p.takenRanges ++ q.takenRanges
  | .star _ p _ | .plus _ p _ | .again _ p _ => p.takenRanges
  | _ => []

theorem meets_append {n : Nat} {rs rs' : Intervals} :
    CharSet.Meets n (rs ++ rs') ↔ CharSet.Meets n rs ∨ CharSet.Meets n rs' := by
  simp [CharSet.Meets, or_and_right, exists_or]

theorem not_meets_nil {n : Nat} : ¬ CharSet.Meets n [] := by
  simp [CharSet.Meets]

theorem takes_of_meets (h : CharSet.Meets ch.toNat r.takenRanges) : r.takes ch = true := by
  fun_induction takenRanges r with
  | case1 x =>
    obtain ⟨range, hrange, hlo, hhi⟩ := h
    obtain rfl := List.mem_singleton.1 hrange
    obtain rfl : x = ch := Char.toNat_inj.1 (Nat.le_antisymm hlo hhi)
    exact beq_self_eq_true [x]
  | case2 s hordered => exact (CharSet.covers_iff hordered).2 h
  | case4 p q ihp ihq =>
    simp only [takes, Bool.or_eq_true, Bool.and_eq_true]
    rcases meets_append.1 h with h | h
    · split at h
      · next hidles => exact .inl ⟨ihp h, hidles⟩
      · exact absurd h not_meets_nil
    · split at h
      · next hidles => exact .inr ⟨hidles, ihq h⟩
      · exact absurd h not_meets_nil
  | case5 p q ihp ihq =>
    simp only [takes, Bool.or_eq_true]
    exact (meets_append.1 h).imp ihp ihq
  | case6 _ p _ ih | case7 _ p _ ih | case8 _ p _ ih => exact ih h
  | _ => exact absurd h not_meets_nil

end Route

end Highlighting

import Mathlib.Data.List.Nodup
import Highlighting.Render.Theme

/-!
# Inherited styles

The style of a category is that of the nearest category with a style of its own, on the way up from
it (`Theme.IsNearest`).  To give a category a style changes the styles of just those categories
whose nearest one it then is, and the style sheet of a theme has one rule for each category with a
class and something to declare, in listing order (`Theme.styles_inherited`).
-/

namespace Highlighting

namespace Category

/-- The way up from a category goes on with the way up from the category above it. -/
theorem lineage_eq (c : Category) :
    c.lineage = c :: (c.parent?.map lineage).getD [] := by
  cases c <;> rfl

/-- What holds of a category as soon as it holds of the category above it holds of every one. -/
theorem induction_up {motive : Category → Prop}
    (step : ∀ c, (∀ p, c.parent? = some p → motive p) → motive c) (c : Category) : motive c := by
  induction h : c.lineage generalizing c with
  | nil =>
    rw [lineage_eq] at h
    cases h
  | cons a above ih =>
    refine step c fun p hp => ih p ?_
    rw [lineage_eq, hp] at h
    exact (List.cons.inj h).2

end Category

namespace Theme

variable {t : Theme} {a b c d : Category} {s : Style}

/-- The first category with a style of its own, on the way up from a category. -/
inductive IsNearest (t : Theme) : Category → Category → Prop where
  | self {c : Category} (h : (t.own? c).isSome) : IsNearest t c c
  | above {c p a : Category} (h : t.own? c = none) (hp : c.parent? = some p)
      (ha : IsNearest t p a) : IsNearest t c a

/-! ### The nearest style -/

theorem styleFor?_eq (t : Theme) (c : Category) :
    t.styleFor? c = (t.own? c).or (c.parent?.bind t.styleFor?) := by
  rw [styleFor?, Category.lineage_eq, List.findSome?_cons]
  cases t.own? c with
  | some s => rfl
  | none => cases c.parent? <;> rfl

theorem isNearest_of_isSome (h : (t.own? c).isSome) : t.IsNearest c a ↔ a = c := by
  refine ⟨fun ha => ?_, ?_⟩
  · cases ha with
    | self => rfl
    | above hnone =>
      rw [hnone] at h
      cases h
  · rintro rfl
    exact .self h

theorem isNearest_of_none (h : t.own? c = none) :
    t.IsNearest c a ↔ ∃ p, c.parent? = some p ∧ t.IsNearest p a := by
  refine ⟨fun ha => ?_, fun ⟨p, hp, ha⟩ => .above h hp ha⟩
  cases ha with
  | self hsome =>
    rw [h] at hsome
    cases hsome
  | above _ hp ha => exact ⟨_, hp, ha⟩

/-- The style of a category is the own style of the nearest category that has one. -/
theorem styleFor?_eq_some_iff : t.styleFor? c = some s ↔
    ∃ a, t.IsNearest c a ∧ t.own? a = some s := by
  induction c using Category.induction_up with
  | step c ih =>
    rw [styleFor?_eq]
    cases hown : t.own? c with
    | some s' =>
      have hsome : (t.own? c).isSome := by rw [hown]; rfl
      simp [isNearest_of_isSome hsome, hown]
    | none =>
      simp only [isNearest_of_none hown]
      cases hp : c.parent? with
      | none => simp
      | some p => simpa using ih p hp

/-! ### One more style -/

theorem own?_withStyle (t : Theme) (c : Category) (s : Style) (d : Category) :
    (t.withStyle c s).own? d = if d = c then some s else t.own? d := by
  rw [own?, withStyle, List.find?_cons]
  by_cases h : d = c
  · simp [h]
  · have hne : (c == d) = false := by simpa using Ne.symm h
    have hfilter : (fun e : Category × Style => decide ((e.1 != c) = true ∧ (e.1 == d) = true)) =
        fun e => e.1 == d := by
      funext e
      by_cases he : e.1 = d <;> simp [he, h]
    simp only [hne, List.find?_filter, hfilter, if_neg h]
    rfl

/-- The categories whose nearest one has been given a style have this style, and all others are
styled as before. -/
theorem styleFor?_withStyle (t : Theme) (c : Category) (s : Style) (d : Category) :
    ((t.withStyle c s).IsNearest d c → (t.withStyle c s).styleFor? d = some s) ∧
      (¬ (t.withStyle c s).IsNearest d c →
        (t.withStyle c s).styleFor? d = t.styleFor? d) := by
  refine ⟨fun h => styleFor?_eq_some_iff.2 ⟨c, h, by rw [own?_withStyle, if_pos rfl]⟩, ?_⟩
  induction d using Category.induction_up with
  | step d ih =>
    intro h
    have hd : d ≠ c := by
      rintro rfl
      exact h (.self (by rw [own?_withStyle, if_pos rfl]; rfl))
    have hown : (t.withStyle c s).own? d = t.own? d := by rw [own?_withStyle, if_neg hd]
    rw [styleFor?_eq, styleFor?_eq t, hown]
    cases hnone : t.own? d with
    | some s' => rfl
    | none =>
      cases hp : d.parent? with
      | none => rfl
      | some p => exact ih p hp fun hnear => h (.above (hown.trans hnone) hp hnear)

/-! ### The rules of a style sheet -/

/-- The text of a rule for the elements of a class within a scope. -/
def ruleText (scope : String) (c : Category) (s : Style) : String :=
  scope ++ " ." ++ c.cssClass ++ " \x7b " ++ "; ".intercalate s.declarations ++ "; \x7d\n"

/-- The style that a style sheet shows for a category with a class. -/
def shown? (t : Theme) (c : Category) : Option (Category × Style) :=
  ((t.styleFor? c).filter fun s => c.cssClass ≠ "" ∧ s.declarations ≠ []).map (c, ·)

theorem shown?_eq_some_iff {r : Category × Style} : t.shown? c = some r ↔
    r.1 = c ∧ c.cssClass ≠ "" ∧ t.styleFor? c = some r.2 ∧ r.2.declarations ≠ [] := by
  obtain ⟨d, s⟩ := r
  rw [shown?, Option.map_eq_some_iff]
  constructor
  · rintro ⟨s', hs', heq⟩
    obtain ⟨rfl, rfl⟩ := Prod.mk.inj heq
    obtain ⟨hstyle, hshown⟩ := Option.filter_eq_some_iff.1 hs'
    obtain ⟨hclass, hdeclares⟩ := of_decide_eq_true hshown
    exact ⟨rfl, hclass, hstyle, hdeclares⟩
  · rintro ⟨rfl, hclass, hstyle, hdeclares⟩
    exact ⟨s, Option.filter_eq_some_iff.2 ⟨hstyle, decide_eq_true ⟨hclass, hdeclares⟩⟩, rfl⟩

theorem rule?_eq (t : Theme) (scope : String) (c : Category) :
    t.rule? scope c = (t.shown? c).map fun r => ruleText scope r.1 r.2 := by
  rw [rule?, shown?]
  by_cases hclass : c.cssClass = ""
  · cases t.styleFor? c <;> simp [hclass, Option.filter]
  · cases t.styleFor? c with
    | none => simp [hclass]
    | some s =>
      cases hdeclares : s.declarations <;> simp [hclass, hdeclares, Option.filter, ruleText]

theorem css_eq (t : Theme) (scope : String) :
    t.css scope =
      String.join ((Category.all.filterMap t.shown?).map fun r => ruleText scope r.1 r.2) := by
  rw [css, List.map_filterMap]
  exact congrArg String.join (congrArg (List.filterMap · Category.all) (funext (t.rule?_eq scope)))

theorem sublist_shown (t : Theme) (cs : List Category) :
    ((cs.filterMap t.shown?).map Prod.fst).Sublist cs := by
  induction cs with
  | nil => exact .slnil
  | cons c cs ih =>
    rw [List.filterMap_cons]
    cases h : t.shown? c with
    | none => exact ih.cons c
    | some r =>
      rw [← (shown?_eq_some_iff.1 h).1]
      exact ih.cons_cons r.1

/-- When a category is given a style, the categories whose nearest one it then is have this style,
and all others are styled as before.  The style sheet of a theme consists of one rule for each
category that has a class and whose style declares something, in listing order, with what this style
declares. -/
theorem styles_inherited (t : Theme) :
    (∀ c s d, ((t.withStyle c s).IsNearest d c → (t.withStyle c s).styleFor? d = some s) ∧
      (¬ (t.withStyle c s).IsNearest d c → (t.withStyle c s).styleFor? d = t.styleFor? d)) ∧
    ∀ scope, ∃ rules : List (Category × Style),
      t.css scope = String.join (rules.map fun r => ruleText scope r.1 r.2) ∧
      (rules.map Prod.fst).Sublist Category.all ∧ (rules.map fun r => r.1.cssClass).Nodup ∧
      ∀ c s, (c, s) ∈ rules ↔
        c.cssClass ≠ "" ∧ t.styleFor? c = some s ∧ s.declarations ≠ [] := by
  refine ⟨t.styleFor?_withStyle, fun scope => ⟨_, t.css_eq scope, t.sublist_shown _, ?_, ?_⟩⟩
  · have hnodup := Category.nodup_all.sublist (t.sublist_shown Category.all)
    have hclasses := List.Nodup.map (fun _ _ => Category.cssClass_injective) hnodup
    rw [List.map_map] at hclasses
    exact hclasses
  · intro c s
    rw [List.mem_filterMap]
    constructor
    · rintro ⟨c', -, hc'⟩
      obtain ⟨rfl, hrest⟩ := shown?_eq_some_iff.1 hc'
      exact hrest
    · exact fun h => ⟨c, Category.mem_all c, shown?_eq_some_iff.2 ⟨rfl, h⟩⟩

/-- An empty style for comments hides the style of comments to the end of a line, which have none of
their own, from the style sheet.  The names of included files keep theirs. -/
theorem styles_inherited_comment :
    (github.withStyle .comment {}).styleFor? .commentSingle = some {} ∧
      (github.withStyle .comment {}).styleFor? .commentPreprocFile =
        github.styleFor? .commentPreprocFile ∧
      ∃ rules : List (Category × Style),
        (github.withStyle .comment {}).css "pre" =
          String.join (rules.map fun r => ruleText "pre" r.1 r.2) ∧
        (.commentSingle, {}) ∉ rules := by
  have hnear : (github.withStyle .comment {}).IsNearest .commentSingle .comment :=
    .above rfl rfl (.self rfl)
  have hfar : ¬ (github.withStyle .comment {}).IsNearest .commentPreprocFile .comment :=
    fun h => by cases (isNearest_of_isSome rfl).1 h
  have hstyles := (styles_inherited github).1 .comment {}
  obtain ⟨rules, hcss, -, -, hrules⟩ := (styles_inherited (github.withStyle .comment {})).2 "pre"
  refine ⟨(hstyles .commentSingle).1 hnear, (hstyles .commentPreprocFile).2 hfar, rules, hcss, ?_⟩
  exact fun h => ((hrules _ _).1 h).2.2 rfl

end Theme

end Highlighting

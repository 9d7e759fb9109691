import Highlighting.Glob
import Highlighting.Proofs.LowerCase

/-!
# What file name patterns match

A pattern of literal characters matches the names that differ from it in the case of ASCII letters
only, and a star in front of it lets the name begin with anything; so a pattern of the form `*.ext`
matches names that end in a point and `ext` (`Glob.exists_of_isMatch_extension`).
-/

namespace Highlighting

namespace Glob

variable {cs : List Char}

/-- A character that stands for itself in patterns. -/
def isLiteral (c : Char) : Bool := c != '*' && c != '?' && c != '['

/-! ### Reading patterns -/

theorem parseFrom_literal {c : Char} (hc : isLiteral c = true) (n : Nat) (before : Option Char)
    (found : List GlobPart) (cs : List Char) :
    parseFrom (n + 1) before found (c :: cs) = parseFrom n (some c) (.char c :: found) cs := by
  simp only [isLiteral, Bool.and_eq_true, bne_iff_ne] at hc
  obtain ⟨⟨hstar, hany⟩, hbracket⟩ := hc
  rw [parseFrom]
  · exact hany
  · exact hbracket
  · exact hstar

theorem parseFrom_literals (hcs : ∀ c ∈ cs, isLiteral c = true) {n : Nat} (hn : cs.length ≤ n)
    (before : Option Char) (found : List GlobPart) :
    parseFrom n before found cs = some (found.reverse ++ cs.map .char) := by
  induction cs generalizing n before found with
  | nil => simp [parseFrom]
  | cons c cs ih =>
    obtain ⟨hc, hcs⟩ := List.forall_mem_cons.1 hcs
    obtain ⟨n, rfl⟩ : ∃ k, n = k + 1 := ⟨n - 1, by rw [List.length_cons] at hn; omega⟩
    rw [parseFrom_literal hc, ih hcs (Nat.le_of_succ_le_succ hn)]
    simp

/-- What a pattern of the form `*.ext` is read as. -/
theorem parse?_extension {ext : List Char} (h : ∀ c ∈ ext, isLiteral c = true) :
    parse? (String.ofList ('*' :: '.' :: ext)) = some (.anyText :: ('.' :: ext).map .char) := by
  have hall : ∀ c ∈ '.' :: ext, isLiteral c = true := List.forall_mem_cons.2 ⟨by decide, h⟩
  have hlength : ('.' :: ext).length ≤ ext.length + 1 := Nat.le_refl _
  have hstar : parse? (String.ofList ('*' :: '.' :: ext)) =
      parseFrom (ext.length + 1) (some '*') [.anyText] ('.' :: ext) := by
    rw [parse?, String.toList_ofList, String.length_ofList]
    rfl
  rw [hstar, parseFrom_literals hall hlength]
  rfl

/-! ### Comparing with names -/

theorem compare_char (c d : Char) (parts : Glob) (after : Bool) (name : List Char) :
    compare (.char c :: parts) after (d :: name) =
      if sameChar c d then compare parts (d == '/') name else .differs := by
  rw [compare, accepts]
  · exact nofun
  · exact nofun

theorem compare_literals {after : Bool} {name : List Char}
    (h : compare (cs.map .char) after name = .matched) :
    name.map Char.toLower = cs.map Char.toLower := by
  induction cs generalizing after name with
  | nil =>
    cases name with
    | nil => rfl
    | cons d ds => cases h
  | cons c cs ih =>
    cases name with
    | nil => cases h
    | cons d ds =>
      rw [List.map_cons, compare_char] at h
      split at h
      · next hsame =>
        have hchar : d.toLower = c.toLower := (beq_iff_eq.1 hsame).symm
        rw [List.map_cons, List.map_cons, hchar, ih h]
      · cases h

/-- Where something is found behind longer and longer beginnings, it is behind one of them. -/
theorem exists_of_tryAfter {rest : Bool → List Char → Outcome} {onlyDirs after : Bool}
    (h : tryAfter rest onlyDirs after cs = .matched) :
    ∃ u v b, cs = u ++ v ∧ rest b v = .matched := by
  induction cs generalizing after with
  | nil => exact ⟨[], [], after, rfl, h⟩
  | cons c cs ih =>
    have hlater : ∀ {after}, tryAfter rest onlyDirs after cs = .matched →
        ∃ u v b, c :: cs = u ++ v ∧ rest b v = .matched := fun h => by
      obtain ⟨u, v, b, rfl, hrest⟩ := ih h
      exact ⟨c :: u, v, b, rfl, hrest⟩
    rw [tryAfter] at h
    split at h
    · exact hlater h
    · split at h
      · exact hlater h
      · exact ⟨[c], cs, _, rfl, h⟩

/-- What is behind a star matches behind some beginning of the name. -/
theorem exists_of_compare_anyText {parts : Glob} {after : Bool} {name : List Char}
    (h : compare (.anyText :: parts) after name = .matched) :
    ∃ u v b, name = u ++ v ∧ compare parts b v = .matched := by
  rw [compare] at h
  split at h
  · exact exists_of_tryAfter h
  · exact ⟨[], name, after, rfl, h⟩

/-- A name that a pattern of the form `*.ext` matches ends in a point and `ext`, up to the case of
ASCII letters. -/
theorem exists_of_isMatch_extension {ext : List Char} (h : ∀ c ∈ ext, isLiteral c = true) {g : Glob}
    (hg : parse? (String.ofList ('*' :: '.' :: ext)) = some g) {name : String}
    (hname : g.isMatch name = true) :
    ∃ u v, name.toList = u ++ '.' :: v ∧ v.map Char.toLower = ext.map Char.toLower := by
  rw [parse?_extension h] at hg
  obtain rfl := Option.some.inj hg
  obtain ⟨u, v, b, hsplit, hcompare⟩ := exists_of_compare_anyText (beq_iff_eq.1 hname)
  have hlower := compare_literals hcompare
  cases v with
  | nil => cases hlower
  | cons c v =>
    rw [List.map_cons, List.map_cons, List.cons.injEq] at hlower
    have hpoint : c = '.' := toLower_eq_point.1 hlower.1
    exact ⟨u, v, hpoint ▸ hsplit, hlower.2⟩

end Glob

end Highlighting

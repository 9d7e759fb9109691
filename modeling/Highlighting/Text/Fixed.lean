/-!
# Quotients with a fixed number of decimals

`roundDiv` is the whole number nearest to a quotient, the even one of two that are equally near,
and `fixed` writes a quotient with a fixed number of decimals.
-/

namespace Highlighting

/-- The whole number nearest to a quotient; a tie goes to the even one. -/
def roundDiv (n d : Nat) : Nat :=
  let q := n / d
  let twice := 2 * (n % d)
  if twice < d then q else if d < twice then q + 1 else q + q % 2

/-- A whole number rounded to so many binary digits. -/
def roundToBits (bits n : Nat) : Nat :=
  let unit := Nat.pow 2 (n.log2 + 1 - bits)
  roundDiv n unit * unit

/-- A quotient with so many decimals. -/
def fixed (places n d : Nat) : String :=
  let units := Nat.pow 10 places
  let scaled := roundDiv (n * units) d
  let fraction := toString (scaled % units)
  toString (scaled / units) ++ "." ++
    String.ofList (List.replicate (places - fraction.length) '0') ++ fraction

theorem roundDiv_exact {n d : Nat} (h : 0 < d) : roundDiv (n * d) d = n := by
  simp [roundDiv, h]

/-- The nearest whole number is at most half a unit away. -/
theorem roundDiv_near {n d : Nat} (h : 0 < d) :
    2 * n ≤ 2 * (roundDiv n d * d) + d ∧ 2 * (roundDiv n d * d) ≤ 2 * n + d := by
  have hd : n / d * d + n % d = n := by rw [Nat.mul_comm]; exact Nat.div_add_mod n d
  have hm : n % d < d := Nat.mod_lt _ h
  unfold roundDiv
  dsimp only
  split
  · omega
  · split
    · rw [Nat.add_mul]; omega
    · rcases Nat.mod_two_eq_zero_or_one (n / d) with h2 | h2 <;> rw [h2, Nat.add_mul] <;> omega

end Highlighting

import Mathlib.Data.List.Basic
import Highlighting.Pattern.Match
import Highlighting.Text.Bytes

/-!
# Reading a text

`c.Reads cs d` says that a cursor `c` has the characters `cs` ahead and stands at `d` once they are
read.  The cursors of one text are those that its start reads to; two of them are ordered by their
offsets, because every character takes a byte at least.
-/

namespace Highlighting

theorem length_le_byteSize (cs : List Char) : cs.length ≤ byteSize cs := by
  induction cs with
  | nil => simp
  | cons c cs ih =>
    have := c.utf8Size_pos
    simp only [List.length_cons, byteSize_cons]
    omega

theorem byteSize_pos {cs : List Char} (h : cs ≠ []) : 0 < byteSize cs :=
  Nat.lt_of_lt_of_le (List.length_pos_iff.2 h) (length_le_byteSize cs)

theorem utf8ByteSize_ofList (cs : List Char) : (String.ofList cs).utf8ByteSize = byteSize cs := by
  induction cs with
  | nil => rfl
  | cons c cs ih =>
    have h : String.ofList (c :: cs) = String.singleton c ++ String.ofList cs := by
      rw [String.singleton_eq_ofList, ← String.ofList_append, List.singleton_append]
    rw [h, String.utf8ByteSize_append, String.utf8ByteSize_singleton, ih, byteSize_cons]

theorem utf8ByteSize_eq (s : String) : s.utf8ByteSize = byteSize s.toList := by
  rw [← utf8ByteSize_ofList, String.ofList_toList]

namespace Cursor

/-- A cursor has characters ahead, and stands at another once they are read. -/
def Reads (c : Cursor) : List Char → Cursor → Prop
  | [], d => c = d
  | x :: xs, d => ∃ rest, c.ahead = x :: rest ∧ (c.past x rest).Reads xs d

variable {c d e : Cursor} {u v : List Char}

@[simp] theorem reads_nil : c.Reads [] d ↔ c = d := Iff.rfl

theorem reads_cons {x : Char} :
    c.Reads (x :: u) d ↔ ∃ rest, c.ahead = x :: rest ∧ (c.past x rest).Reads u d := Iff.rfl

theorem Reads.refl (c : Cursor) : c.Reads [] c := rfl

theorem reads_past {x : Char} {rest : List Char} (h : c.ahead = x :: rest) :
    c.Reads [x] (c.past x rest) := ⟨rest, h, rfl⟩

theorem reads_append : c.Reads (u ++ v) e ↔ ∃ d, c.Reads u d ∧ d.Reads v e := by
  induction u generalizing c with
  | nil => simp
  | cons x u ih =>
    simp only [List.cons_append, reads_cons, ih]
    constructor
    · rintro ⟨rest, h, d, hu, hv⟩
      exact ⟨d, ⟨rest, h, hu⟩, hv⟩
    · rintro ⟨d, ⟨rest, h, hu⟩, hv⟩
      exact ⟨rest, h, d, hu, hv⟩

theorem Reads.trans (hu : c.Reads u d) (hv : d.Reads v e) : c.Reads (u ++ v) e :=
  reads_append.2 ⟨d, hu, hv⟩

theorem Reads.ahead (h : c.Reads u d) : c.ahead = u ++ d.ahead := by
  induction u generalizing c with
  | nil => rw [reads_nil.1 h, List.nil_append]
  | cons x u ih =>
    obtain ⟨rest, hc, hu⟩ := h
    rw [hc, List.cons_append, ← ih hu, ahead_past]

theorem Reads.length_lt (h : c.Reads u d) (hu : u ≠ []) : d.ahead.length < c.ahead.length := by
  have := List.length_pos_iff.2 hu
  rw [h.ahead, List.length_append]
  omega

theorem Reads.offset (h : c.Reads u d) : d.offset = c.offset + byteSize u := by
  induction u generalizing c with
  | nil => rw [reads_nil.1 h, byteSize_nil, Nat.add_zero]
  | cons x u ih =>
    obtain ⟨rest, -, hu⟩ := h
    rw [ih hu, offset_past, byteSize_cons, Nat.add_assoc]

theorem Reads.before (h : c.Reads u d) : d.before = u.getLast?.or c.before := by
  induction u generalizing c with
  | nil => rw [reads_nil.1 h]; rfl
  | cons x u ih =>
    obtain ⟨rest, -, hu⟩ := h
    rw [ih hu, before_past, List.getLast?_cons]
    cases u.getLast? <;> rfl

theorem Reads.unique (hd : c.Reads u d) (he : c.Reads u e) : d = e := by
  induction u generalizing c with
  | nil => rw [← reads_nil.1 hd, ← reads_nil.1 he]
  | cons x u ih =>
    obtain ⟨rest, h, hd⟩ := hd
    obtain ⟨rest', h', he⟩ := he
    obtain rfl : rest = rest' := by rw [h] at h'; exact (List.cons.inj h').2
    exact ih hd he

theorem exists_reads (h : c.ahead = u ++ v) : ∃ d, c.Reads u d ∧ d.ahead = v := by
  induction u generalizing c with
  | nil => exact ⟨c, rfl, h⟩
  | cons x u ih =>
    obtain ⟨d, hd, hv⟩ := ih (c := c.past x (u ++ v)) rfl
    exact ⟨d, ⟨u ++ v, h, hd⟩, hv⟩

/-- Of two places that one cursor reads to, the one with the smaller offset reads to the other. -/
theorem Reads.split (hd : c.Reads u d) (he : c.Reads v e) (h : d.offset ≤ e.offset) :
    ∃ w, v = u ++ w ∧ d.Reads w e := by
  induction u generalizing c v with
  | nil => exact ⟨v, rfl, reads_nil.1 hd ▸ he⟩
  | cons x u ih =>
    cases v with
    | nil =>
      have hx := x.utf8Size_pos
      have := hd.offset
      rw [← reads_nil.1 he, this, byteSize_cons] at h
      omega
    | cons y v =>
      obtain ⟨rest, hc, hd⟩ := hd
      obtain ⟨rest', hc', he⟩ := he
      obtain ⟨rfl, rfl⟩ := List.cons.inj (hc.symm.trans hc')
      obtain ⟨w, rfl, hw⟩ := ih hd he
      exact ⟨w, rfl, hw⟩

theorem Reads.eq_of_offset_eq (hd : c.Reads u d) (he : c.Reads v e) (h : d.offset = e.offset) :
    u = v ∧ d = e := by
  obtain ⟨w, rfl, hw⟩ := hd.split he (Nat.le_of_eq h)
  cases w with
  | nil => exact ⟨(List.append_nil u).symm, reads_nil.1 hw⟩
  | cons x w =>
    have := hw.offset
    have hx := x.utf8Size_pos
    rw [byteSize_cons] at this
    omega

theorem Reads.text_unique (h : c.Reads u d) (h' : c.Reads v d) : u = v :=
  (h.eq_of_offset_eq h' rfl).1

theorem Reads.ne_nil (h : c.Reads u d) (hlt : c.offset < d.offset) : u ≠ [] := by
  rintro rfl
  rw [reads_nil.1 h] at hlt
  exact absurd hlt (Nat.lt_irrefl _)

theorem Reads.offset_le (h : c.Reads u d) : c.offset ≤ d.offset := by
  rw [h.offset]
  exact Nat.le_add_right _ _

/-- A cursor stands at another once some characters are read. -/
def Reaches (c d : Cursor) : Prop := ∃ u, c.Reads u d

theorem Reads.reaches (h : c.Reads u d) : c.Reaches d := ⟨u, h⟩

theorem Reaches.refl (c : Cursor) : c.Reaches c := ⟨[], rfl⟩

theorem Reaches.trans (hd : c.Reaches d) (he : d.Reaches e) : c.Reaches e := by
  obtain ⟨u, hu⟩ := hd
  obtain ⟨v, hv⟩ := he
  exact ⟨u ++ v, hu.trans hv⟩

theorem reaches_past {x : Char} {rest : List Char} (h : c.ahead = x :: rest) :
    c.Reaches (c.past x rest) := (reads_past h).reaches

/-- All places of a text have one end ahead. -/
theorem Reaches.end_eq (h : c.Reaches d) :
    d.offset + byteSize d.ahead = c.offset + byteSize c.ahead := by
  obtain ⟨u, hu⟩ := h
  rw [hu.offset, hu.ahead, byteSize_append, Nat.add_assoc]

theorem Reaches.offset_le (h : c.Reaches d) : c.offset ≤ d.offset := by
  obtain ⟨u, hu⟩ := h
  exact hu.offset_le

/-- Of two places that one cursor reaches, the one with the smaller offset reaches the other. -/
theorem Reaches.split (hd : c.Reaches d) (he : c.Reaches e) (h : d.offset ≤ e.offset) :
    d.Reaches e := by
  obtain ⟨u, hu⟩ := hd
  obtain ⟨v, hv⟩ := he
  obtain ⟨w, -, hw⟩ := hu.split hv h
  exact ⟨w, hw⟩

theorem Reaches.eq_of_offset_eq (hd : c.Reaches d) (he : c.Reaches e)
    (h : d.offset = e.offset) : d = e := by
  obtain ⟨u, hu⟩ := hd
  obtain ⟨v, hv⟩ := he
  exact (hu.eq_of_offset_eq hv h).2

end Cursor

end Highlighting

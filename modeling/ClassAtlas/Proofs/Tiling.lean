import ClassAtlas.Datum

/-! # Values without a gap

Values that follow each other from one offset to another: none starts before the one before it ends, and
no byte between them belongs to none of them.

* `Tiles pos ds stop`: the values `ds` follow each other from `pos` to `stop`.
* `Tiles.filter`: values of no width may be left out.
* `Tiles.head_offset`, `Tiles.next_offset`, `Tiles.last_stop`: where the values start and end.
* `Tiles.apart`: each value ends before the ones after it start.
-/

namespace ClassAtlas
set_option autoImplicit false

/-- The values follow each other from one offset to the other. -/
def Tiles : Nat → List Datum → Nat → Prop
  | pos, [], stop => pos = stop
  | pos, d :: ds, stop => d.offset = pos ∧ Tiles d.stop ds stop

namespace Tiles

variable {pos stop : Nat} {xs : List Datum}

theorem pos_le_offset (h : Tiles pos xs stop) : ∀ d ∈ xs, pos ≤ d.offset := by
  induction xs generalizing pos with
  | nil => simp
  | cons d ds ih =>
    have hoff := h.1
    have hrest := ih h.2
    intro e he
    rcases List.mem_cons.1 he with rfl | he
    · omega
    · have hle := hrest e he
      unfold Datum.stop at hle
      omega

theorem pairwise (h : Tiles pos xs stop) : xs.Pairwise fun a b => a.offset ≤ b.offset := by
  induction xs generalizing pos with
  | nil => exact .nil
  | cons d ds ih =>
    refine .cons ?_ (ih h.2)
    intro e he
    have hle := h.2.pos_le_offset e he
    unfold Datum.stop at hle
    omega

/-- Values of no width may be left out. -/
theorem filter (h : Tiles pos xs stop) : Tiles pos (xs.filter fun d => 0 < d.width) stop := by
  induction xs generalizing pos with
  | nil => exact h
  | cons d ds ih =>
    have hrest := ih h.2
    by_cases hd : 0 < d.width
    · rw [List.filter_cons_of_pos (by simpa using hd)]
      exact ⟨h.1, hrest⟩
    · have hstop : d.stop = pos := by
        have hoff := h.1
        unfold Datum.stop
        omega
      rw [List.filter_cons_of_neg (by simpa using hd)]
      rwa [hstop] at hrest

theorem ne_nil (h : Tiles pos xs stop) (hlt : pos < stop) : xs ≠ [] := by
  rintro rfl
  exact Nat.ne_of_lt hlt h

theorem head_offset (h : Tiles pos xs stop) (hne : xs ≠ []) :
    xs.head?.map (·.offset) = some pos := by
  cases xs with
  | nil => exact (hne rfl).elim
  | cons d ds => exact congrArg some h.1

theorem last_stop (h : Tiles pos xs stop) (hne : xs ≠ []) :
    xs.getLast?.map (·.stop) = some stop := by
  induction xs generalizing pos with
  | nil => exact (hne rfl).elim
  | cons d ds ih =>
    cases ds with
    | nil => exact congrArg some h.2
    | cons e es =>
      rw [List.getLast?_cons_cons]
      exact ih h.2 (List.cons_ne_nil e es)

theorem next_offset (h : Tiles pos xs stop) (i : Nat) (hi : i + 1 < xs.length) :
    xs[i + 1].offset = xs[i].stop := by
  induction xs generalizing pos i with
  | nil => cases hi
  | cons d ds ih =>
    cases i with
    | zero =>
      cases ds with
      | nil => simp at hi
      | cons e es => exact h.2.1
    | succ i => exact ih h.2 i (by simpa using hi)

theorem pos_le_stop (h : Tiles pos xs stop) : pos ≤ stop := by
  induction xs generalizing pos with
  | nil => exact Nat.le_of_eq h
  | cons d ds ih =>
    have hoff := h.1
    have hle := ih h.2
    unfold Datum.stop at hle
    omega

theorem stop_le (h : Tiles pos xs stop) : ∀ d ∈ xs, d.stop ≤ stop := by
  induction xs generalizing pos with
  | nil => simp
  | cons d ds ih =>
    intro e he
    rcases List.mem_cons.1 he with rfl | he
    · exact h.2.pos_le_stop
    · exact ih h.2 e he

theorem apart (h : Tiles pos xs stop) : xs.Pairwise fun a b => a.stop ≤ b.offset := by
  induction xs generalizing pos with
  | nil => exact .nil
  | cons d ds ih => exact .cons h.2.pos_le_offset (ih h.2)

theorem ascending (h : Tiles pos xs stop) (hwidth : ∀ d ∈ xs, 0 < d.width) :
    xs.Pairwise fun a b => a.offset < b.offset := by
  refine h.apart.imp_of_mem ?_
  intro a b ha _ hle
  have hpos := hwidth a ha
  unfold Datum.stop at hle
  omega

end Tiles

end ClassAtlas

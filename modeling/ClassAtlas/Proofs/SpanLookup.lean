import ClassAtlas.Proofs.Partition
import ClassAtlas.Proofs.ProgramCounters

/-! # The span that covers an offset

The spans of a decoded class file leave no gap and do not overlap, so that a byte of the file belongs
to one of them. Bisection finds it: what it gives covers the offset, whatever the spans are, and among
spans that stand apart from each other it loses none that does.

* `Datum.Covers`: the bytes of a value reach over an offset.
* `Apart`: no span reaches into one that stands behind it; then one at most covers an offset.
* `ClassFile.bisect_covers`, `ClassFile.bisect_finds`: what bisection gives, and that it gives it.
* `ClassFile.spanAt_covers`: the lookup in a decoded file.
-/

namespace ClassAtlas
set_option autoImplicit false

/-- The byte at the offset is one of those of the value. -/
def Datum.Covers (d : Datum) (offset : Int) : Prop :=
  (d.offset : Int) ≤ offset ∧ offset < d.stop

theorem Tiles.exists_covers {pos stop : Nat} {xs : List Datum} {offset : Int}
    (h : Tiles pos xs stop) (hlo : (pos : Int) ≤ offset) (hhi : offset < stop) :
    ∃ (i : Nat) (hi : i < xs.length), xs[i].Covers offset := by
  induction xs generalizing pos with
  | nil =>
    obtain rfl : pos = stop := h
    omega
  | cons d ds ih =>
    by_cases hstop : offset < d.stop
    · have hoff : (d.offset : Int) ≤ offset := by
        rw [h.1]
        exact hlo
      exact ⟨0, Nat.succ_pos _, hoff, hstop⟩
    · obtain ⟨i, hi, hcovers⟩ := ih h.2 (by omega)
      exact ⟨i + 1, Nat.succ_lt_succ hi, hcovers⟩

/-! ## Spans that do not overlap -/

/-- No span reaches into one that stands behind it. -/
def Apart (spans : Array Datum) : Prop :=
  ∀ (i j : Nat) (d e : Datum), spans[i]? = some d → spans[j]? = some e → i < j → d.stop ≤ e.offset

theorem Tiles.toArray_apart {pos stop : Nat} {xs : List Datum} (h : Tiles pos xs stop) :
    Apart xs.toArray := by
  intro i j d e hd he hij
  rw [List.getElem?_toArray] at hd he
  obtain ⟨hi, rfl⟩ := List.getElem?_eq_some_iff.1 hd
  obtain ⟨hj, rfl⟩ := List.getElem?_eq_some_iff.1 he
  exact List.pairwise_iff_getElem.1 h.apart i j hi hj hij

namespace Apart

variable {spans : Array Datum} {offset : Int} {i j : Nat} {d e : Datum}

/-- A span that starts before the end of another one does not stand behind it. -/
theorem le (h : Apart spans) (hi : spans[i]? = some d) (hj : spans[j]? = some e)
    (hlt : d.offset < e.stop) : i ≤ j := by
  by_contra hnot
  have hstop := h j i e d hj hi (Nat.lt_of_not_le hnot)
  omega

/-- A span that starts past the offset stands behind the one that covers it. -/
theorem before (h : Apart spans) (hi : spans[i]? = some d) (hj : spans[j]? = some e)
    (hcovers : d.Covers offset) (hpast : offset < e.offset) : i < j := by
  have hlo := hcovers.1
  have hle := h.le hi hj (by unfold Datum.stop; omega)
  refine Nat.lt_of_le_of_ne hle ?_
  rintro rfl
  cases hi.symm.trans hj
  omega

/-- A span that ends before the offset stands in front of the one that covers it. -/
theorem after (h : Apart spans) (hi : spans[i]? = some d) (hj : spans[j]? = some e)
    (hcovers : d.Covers offset) (hshort : (e.stop : Int) ≤ offset) : j < i := by
  have hhi := hcovers.2
  have hle := h.le hj hi (by unfold Datum.stop at hshort; omega)
  refine Nat.lt_of_le_of_ne hle ?_
  rintro rfl
  cases hi.symm.trans hj
  omega

theorem eq (h : Apart spans) (hi : spans[i]? = some d) (hj : spans[j]? = some e)
    (hcovers : d.Covers offset) (hcovers' : e.Covers offset) : j = i := by
  obtain ⟨hlo, hhi⟩ := hcovers
  obtain ⟨hlo', hhi'⟩ := hcovers'
  exact Nat.le_antisymm (h.le hj hi (by omega)) (h.le hi hj (by omega))

end Apart

namespace ClassFile

/-! ## Bisection -/

section

variable {spans : Array Datum} {offset : Int} {lo hi : Nat} {d : Datum}

theorem bisect_covers (h : bisect spans offset lo hi = some d) : d ∈ spans ∧ d.Covers offset := by
  fun_induction bisect spans offset lo hi with
  | case1 lo hi hlt mid e he hpast ih => exact ih h
  | case2 lo hi hlt mid e he hpast hshort ih => exact ih h
  | case3 lo hi hlt mid e he hpast hshort =>
    cases h
    exact ⟨Array.mem_of_getElem? he, Int.not_lt.1 hpast, Int.not_le.1 hshort⟩
  | case4 | case5 => cases h

/-- The span that covers the offset stays between the bounds: a middle that does not cover it lies on
one side of the offset, and so do all spans on that side. -/
theorem bisect_finds (h : Apart spans) {i : Nat} (hi' : spans[i]? = some d)
    (hcovers : d.Covers offset) (hlo : lo ≤ i) (hhi : i < hi) (hsize : hi ≤ spans.size) :
    bisect spans offset lo hi = some d := by
  fun_induction bisect spans offset lo hi with
  | case1 lo hi hlt mid e he hpast ih =>
    exact ih hlo (h.before hi' he hcovers hpast) (by omega)
  | case2 lo hi hlt mid e he hpast hshort ih =>
    exact ih (h.after hi' he hcovers hshort) hhi hsize
  | case3 lo hi hlt mid e he hpast hshort =>
    obtain rfl := h.eq hi' he hcovers ⟨Int.not_lt.1 hpast, Int.not_le.1 hshort⟩
    exact he.symm.trans hi'
  | case4 lo hi hlt mid he =>
    have hmid := Array.getElem?_eq_none_iff.1 he
    omega
  | case5 lo hi hlt => omega

end

/-! ## Lookup -/

/-- **Looking up an offset.** In a decoded file each offset within the file belongs to exactly one span,
and the lookup gives that span. For every other offset, a negative one or one past the end, it gives
nothing. -/
theorem spanAt_covers {bytes : List UInt8} {cf : ClassFile} (h : decode bytes = .ok cf)
    (offset : Int) :
    (0 ≤ offset ∧ offset < bytes.length →
        ∃ (i : Nat) (hi : i < cf.spans.length), cf.spanAt? offset = some cf.spans[i]
          ∧ cf.spans[i].Covers offset
          ∧ ∀ (j : Nat) (hj : j < cf.spans.length), cf.spans[j].Covers offset → j = i)
      ∧ (¬ (0 ≤ offset ∧ offset < bytes.length) → cf.spanAt? offset = none) := by
  have htiles := spans_tile h
  have hapart := htiles.toArray_apart
  have hslot : ∀ (i : Nat) (hi : i < cf.spans.length), cf.spans.toArray[i]? = some cf.spans[i] := by
    intro i hi
    rw [List.getElem?_toArray, List.getElem?_eq_getElem hi]
  constructor
  · rintro ⟨hlo, hhi⟩
    obtain ⟨i, hi, hcovers⟩ := htiles.exists_covers hlo hhi
    refine ⟨i, hi, ?_, hcovers, fun j hj hcovers' => ?_⟩
    · exact bisect_finds hapart (hslot i hi) hcovers (Nat.zero_le i) hi (Nat.le_refl _)
    · exact hapart.eq (hslot i hi) (hslot j hj) hcovers hcovers'
  · intro hout
    refine Option.eq_none_iff_forall_ne_some.2 fun d hd => hout ?_
    obtain ⟨hmem, hlo, hhi⟩ := bisect_covers hd
    have hstop := htiles.stop_le d (List.mem_toArray.1 hmem)
    omega

/-- The second byte of a switch's padding, and the offsets next to the file. -/
theorem spanAt_covers_switching :
    let bytes := ClassForm.switching.bytes ++ [1, 2]
    let cf := ClassForm.switching.tree ClassForm.nestedPool [1, 2]
    decode bytes = .ok cf
      ∧ (∃ (i : Nat) (hi : i < cf.spans.length), cf.spanAt? 68 = some cf.spans[i]
          ∧ cf.spans[i].Covers 68
          ∧ ∀ (j : Nat) (hj : j < cf.spans.length), cf.spans[j].Covers 68 → j = i)
      ∧ cf.spanAt? (-1) = none ∧ cf.spanAt? bytes.length = none := by
  intro bytes cf
  have h : decode bytes = .ok cf := decode_eq_ok.2 ⟨_, _, _, ClassForm.switching_legal, rfl, rfl⟩
  refine ⟨h, (spanAt_covers h 68).1 ?_, (spanAt_covers h (-1)).2 (by omega),
    (spanAt_covers h bytes.length).2 (by omega)⟩
  exact ⟨by omega, by decide +kernel⟩

end ClassFile

end ClassAtlas

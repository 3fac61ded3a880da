import Mathlib.Algebra.Group.Int.Defs
import ClassAtlas.Proofs.Families

/-! # Alignment

A window passes over the fewest bytes that bring it to a multiple of a boundary, counted from a base
before or behind it. Their number comes from two remainders that go towards zero, of which the first is
negative where the base lies ahead; it is the residue all the same, as long as no difference leaves 64
bits.

* `Fewest pos base boundary pad`: what the number of bytes has to be.
* `Window.paddingFrom_eq`: the number as a residue.
* `Window.paddingFrom_fewest`: the number is the right one.
* `Family.align_exact`: what a request for alignment does to a family.
-/

namespace ClassAtlas
set_option autoImplicit false

/-! ## The number of bytes -/

/-- After `pad` bytes, and after no fewer, an offset is a multiple of the boundary, counted from the
base. -/
structure Fewest (pos : Nat) (base boundary : Int) (pad : Nat) : Prop where
  aligned : boundary ∣ pos + pad - base
  least : ∀ n : Nat, boundary ∣ pos + n - base → pad ≤ n

namespace Window

theorem wrap64_of_fits {n : Int} (hlow : -2 ^ 63 ≤ n) (hhigh : n < 2 ^ 63) : wrap64 n = n := by
  apply Int.bmod_eq_of_le_mul_two
  · simp only [Nat.pow_eq]
    omega
  · simp only [Nat.pow_eq]
    omega

/-- The remainder may be negative, but the boundary less the remainder is not. -/
theorem paddingFrom_eq {pos base boundary : Int} (hlow : -2 ^ 63 ≤ pos - base)
    (hhigh : pos - base < 2 ^ 63) (hboundary : 0 < boundary) (hsmall : boundary ≤ 2 ^ 62) :
    paddingFrom pos base boundary = (base - pos) % boundary := by
  have hr := Int.lt_tmod_of_pos (pos - base) hboundary
  have hr' := Int.tmod_lt_of_pos (pos - base) hboundary
  have hdiv := Int.tmod_add_mul_tdiv (pos - base) boundary
  rw [paddingFrom, wrap64_of_fits hlow hhigh]
  generalize (pos - base).tmod boundary = r at hr hr' hdiv ⊢
  rw [wrap64_of_fits (by omega) (by omega), Int.tmod_eq_emod_of_nonneg (by omega)]
  have hsame : boundary - r = base - pos + boundary * ((pos - base).tdiv boundary + 1) := by
    rw [Int.mul_add, Int.mul_one]
    omega
  rw [hsame, Int.add_mul_emod_self_left]

/-- The residue of the distance is the fewest bytes. -/
theorem fewest_residue (pos : Nat) (base : Int) {boundary : Int} (hboundary : 0 < boundary) :
    Fewest pos base boundary ((base - pos) % boundary).toNat := by
  have hcast : (((base - pos) % boundary).toNat : Int) = (base - pos) % boundary :=
    Int.toNat_of_nonneg (Int.emod_nonneg _ (by omega))
  constructor
  · have hdvd : boundary ∣ base - pos - (base - pos) % boundary := Int.dvd_self_sub_emod
    have hflip : pos + (base - pos) % boundary - base = -(base - pos - (base - pos) % boundary) := by
      omega
    rw [hcast, hflip]
    exact Int.dvd_neg.2 hdvd
  · intro n hn
    have hsum : (n : Int) - (base - pos) = pos + n - base := by omega
    have hsame : (n : Int) % boundary = (base - pos) % boundary := by
      rw [Int.emod_eq_emod_iff_emod_sub_eq_zero, hsum]
      exact Int.emod_eq_zero_of_dvd hn
    have hquot : 0 ≤ boundary * ((n : Int) / boundary) :=
      Int.mul_nonneg (by omega) (Int.ediv_nonneg (by omega) (by omega))
    have hsplit := Int.emod_add_mul_ediv n boundary
    omega

/-- The padding is the fewest bytes, as long as the distance fits in 64 bits. -/
theorem paddingFrom_fewest {pos : Nat} {base boundary : Int} (hbase : base < 2 ^ 62)
    (hfits : pos - base < 2 ^ 63) (hboundary : 0 < boundary) (hsmall : boundary < 2 ^ 62) :
    ∃ pad : Nat, Fewest pos base boundary pad ∧ (pad : Int) < boundary
      ∧ paddingFrom pos base boundary = pad := by
  have hnonneg := Int.emod_nonneg (base - pos) (show boundary ≠ 0 by omega)
  have hcast := Int.toNat_of_nonneg hnonneg
  refine ⟨_, fewest_residue pos base hboundary, ?_, ?_⟩
  · rw [hcast]
    exact Int.emod_lt_of_pos _ hboundary
  · rw [hcast, paddingFrom_eq (by omega) (by omega) hboundary (by omega)]

end Window

/-! ## Requests -/

namespace Family

/-- A request for alignment, by the number of bytes that it asks for. -/
theorem ask_align {family : Family} {i : Nat} {w : Window} (h : family[i]? = some w)
    {base boundary : Int} (hboundary : 0 < boundary) {pad : Nat}
    (hpad : Window.paddingFrom w.pos base boundary = pad) :
    family.ask (.align base boundary) i =
      if pad ≤ w.remaining then
        (family.set i ((Request.align base boundary).passed w pad), some (.ok (.padding pad)))
      else (family, some (.error (w.endOfInput pad))) := by
  have hdemand : (Request.align base boundary).demand w = some (pad : Int) := by
    rw [Request.demand, if_pos hboundary, hpad]
  rw [ask_of_getElem? h, Request.reading_eq, Request.outcome, hdemand]
  by_cases hroom : pad ≤ w.remaining
  · have hlength : (w.rest.take pad).length = pad := by
      rw [List.length_take]
      exact Nat.min_eq_left hroom
    have hanswer : (Request.align base boundary).answer w (w.rest.take pad) = .padding pad := by
      rw [Request.answer, hlength]
    have hfits : (0 : Int) ≤ pad ∧ (pad : Int) ≤ w.remaining := by omega
    simp only [if_pos hroom, if_pos hfits, Int.toNat_natCast, hanswer, Reply.opened?,
      Option.toList_none, List.append_nil]
  · have hshort : ¬ ((0 : Int) ≤ pad ∧ (pad : Int) ≤ w.remaining) := by omega
    simp only [if_neg hroom, if_neg hshort]

/-- Every window of a family is at an offset of the input or at its end. -/
theorem pos_le_length {bytes : List UInt8} {requests : List (Nat × Request)} {i : Nat} {w : Window}
    (h : (run bytes requests)[i]? = some w) : w.pos + w.remaining ≤ bytes.length := by
  obtain ⟨p, c, -, hkept⟩ := run_kept bytes requests i w h
  have hstop := hkept.stopped
  have hbounded := hkept.bounded
  unfold Window.stop at hstop hbounded
  omega

/-- **Alignment.** Let a window on an input be asked to align itself to a boundary, counted from a base
before or behind it. The distance from the base to the end of the input has a place in 64 bits, as that
of every input has that is no longer than 2^62 bytes. There is a least number of bytes after which the
offset is a multiple of the boundary from the base, and it is less than the boundary. If the window has
so many bytes left, then it passes over them and replies with their number, no other window changes,
and asked again it passes over nothing. Otherwise bytes are missing, and no window changes. -/
theorem align_exact {bytes : List UInt8} {requests : List (Nat × Request)} {i : Nat} {w : Window}
    (hw : (run bytes requests)[i]? = some w) {base boundary : Int}
    (hbase : -2 ^ 62 < base ∧ base < 2 ^ 62) (hfits : bytes.length - base < 2 ^ 63)
    (hboundary : 0 < boundary) (hsmall : boundary < 2 ^ 62) :
    ∃ pad : Nat, Fewest w.pos base boundary pad ∧ (pad : Int) < boundary ∧
      let family := run bytes requests
      let request := Request.align base boundary
      if pad ≤ w.remaining then
        let aligned : Family := family.set i (request.passed w pad)
        family.ask request i = (aligned, some (.ok (.padding pad)))
          ∧ aligned.ask request i = (aligned, some (.ok (.padding 0)))
      else family.ask request i = (family, some (.error (w.endOfInput pad))) := by
  have hend := pos_le_length hw
  obtain ⟨pad, hpad, hlt, hask⟩ :=
    Window.paddingFrom_fewest hbase.2 (show w.pos - base < 2 ^ 63 by omega) hboundary hsmall
  refine ⟨pad, hpad, hlt, ?_⟩
  intro family request
  have hfirst := ask_align hw hboundary hask
  split
  · rename_i hroom
    rw [if_pos hroom] at hfirst
    refine ⟨hfirst, ?_⟩
    have hi : i < family.length := (List.getElem?_eq_some_iff.1 hw).1
    have hget : (family.set i (request.passed w pad))[i]? = some (request.passed w pad) :=
      List.getElem?_set_self hi
    obtain ⟨again, hagain, -, hask'⟩ := Window.paddingFrom_fewest hbase.2
      (show ((w.pos + pad : Nat) : Int) - base < 2 ^ 63 by omega) hboundary hsmall
    obtain rfl : again = 0 := by
      have hzero := hagain.least 0 (by simpa using hpad.aligned)
      omega
    have hset : (family.set i (request.passed w pad)).set i (request.passed (request.passed w pad) 0) =
        family.set i (request.passed w pad) := by
      rw [List.set_set]
      rfl
    rw [ask_align hget hboundary hask', if_pos (Nat.zero_le _), hset]
  · rename_i hroom
    rwa [if_neg hroom] at hfirst

/-- A base that lies ahead, and one from which there are too few bytes left. -/
theorem align_exact_ahead :
    let family := run [1, 2, 3, 4, 5] [(0, .byte)]
    Fewest 1 6 4 1
      ∧ family.ask (.align 6 4) 0 = ([⟨.decode, 2, [3, 4, 5]⟩], some (.ok (.padding 1)))
      ∧ Fewest 1 (-3) 9 5
      ∧ family.ask (.align (-3) 9) 0 = (family, some (.error (Window.endOfInput
        ⟨.decode, 1, [2, 3, 4, 5]⟩ 5))) := by
  intro family
  have hw : family[0]? = some ⟨.decode, 1, [2, 3, 4, 5]⟩ := rfl
  obtain ⟨pad, hpad, hlt, hask⟩ := align_exact hw
    (show -2 ^ 62 < (6 : Int) ∧ (6 : Int) < 2 ^ 62 by decide) (by decide)
    (show (0 : Int) < 4 by decide) (by decide)
  obtain ⟨pad', hpad', hlt', hask'⟩ := align_exact hw
    (show -2 ^ 62 < (-3 : Int) ∧ (-3 : Int) < 2 ^ 62 by decide) (by decide)
    (show (0 : Int) < 9 by decide) (by decide)
  obtain rfl : pad = 1 := by
    have haligned : (4 : Int) ∣ 1 + pad - 6 := hpad.aligned
    omega
  obtain rfl : pad' = 5 := by
    have haligned : (9 : Int) ∣ 1 + pad' - -3 := hpad'.aligned
    omega
  exact ⟨hpad, hask.1, hpad', hask'⟩

end Family

end ClassAtlas

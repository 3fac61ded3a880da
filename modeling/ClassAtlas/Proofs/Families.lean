import Mathlib.Data.List.Induction
import ClassAtlas.Proofs.Format
import ClassAtlas.Window.Family

/-! # Families of windows keep to their bounds

However often and in whatever order the windows on one input are asked, each of them stays in the part
of the input on which it was opened, and is on the bytes of that part which it has not passed. A request
moves one window, forward and by the bytes that it was given; a request that fails moves none.

* `Request.demand`, `Request.answer`, `Request.passed`: the bytes that a request asks for, the reply that
  is made of them, and the window after them.
* `Request.reading_eq`: what becomes of a request.
* `Family.run`: a family after requests in turn.
* `Family.Opened`, `Family.Kept`: how a window was opened, and what it keeps from then on.
* `Family.Disciplined`: what one request may do to a family.
* `Family.run_disciplined`: what holds after any requests.
-/

namespace ClassAtlas
set_option autoImplicit false

/-! ## One request -/

theorem Window.take_eq (n : Int) (w : Window) :
    take n w = if 0 ≤ n ∧ n ≤ w.remaining then
        .ok (w.rest.take n.toNat, { w with pos := w.pos + n.toNat, rest := w.rest.drop n.toNat })
      else .error (w.endOfInput n) := by
  have hholds : (0 ≤ n ∧ w.holds n.toNat = true) ↔ 0 ≤ n ∧ n ≤ w.remaining := by
    rw [holds_iff]
    omega
  unfold take
  simp only [hholds]

namespace Request

/-- The number of bytes that the request asks for; none where no word has the width, or no bytes have
the boundary. -/
def demand (w : Window) : Request → Option Int
  | byte => some 1
  | bytes n | text n | skip n | child n => some n
  | unsigned width => if width = 1 ∨ width = 2 ∨ width = 4 ∨ width = 8 then some width else none
  | signed width => if width = 1 ∨ width = 2 ∨ width = 4 then some width else none
  | align base boundary =>
    if 0 < boundary then some (Window.paddingFrom w.pos base boundary) else none
  | setPhase _ => some 0

/-- Why a request is refused that asks for no number of bytes. -/
def refusal : Request → Cause
  | signed _ => .signedWidth
  | align _ _ => .boundary
  | _ => .unsignedWidth

/-- The reply to a request that is given the bytes it asks for. -/
def answer (w : Window) (bs : List UInt8) : Request → Reply
  | byte => .byte (bs.headD 0)
  | bytes _ => .bytes bs
  | unsigned _ => .word (Window.bigEndian bs)
  | signed width => .word (Window.twosComplement (8 * width.toNat) (Window.bigEndian bs))
  | text _ => .text (Text.Modified.decode bs)
  | align _ _ => .padding bs.length
  | child _ => .opened { w with rest := bs }
  | skip _ | setPhase _ => .done

def phaseAfter (w : Window) : Request → Phase
  | setPhase phase => phase
  | _ => w.phase

/-- The window after a request that is given `n` bytes. -/
def passed (w : Window) (n : Nat) (request : Request) : Window :=
  { phase := request.phaseAfter w, pos := w.pos + n, rest := w.rest.drop n }

/-- What becomes of a request, by the number of bytes that it asks for. -/
def outcome (request : Request) (w : Window) : Except Fault (Reply × Window) :=
  match request.demand w with
  | none => .error { phase := w.phase, cause := request.refusal }
  | some n =>
    if 0 ≤ n ∧ n ≤ w.remaining then
      .ok (request.answer w (w.rest.take n.toNat), request.passed w n.toNat)
    else .error (w.endOfInput n)

variable {request : Request} {w : Window}

theorem outcome_of_none (h : request.demand w = none) :
    request.outcome w = .error { phase := w.phase, cause := request.refusal } := by
  simp only [outcome, h]

/-- A request that takes its bytes and makes its reply of them. -/
theorem outcome_of_take {n : Int} (h : request.demand w = some n)
    (hphase : request.phaseAfter w = w.phase) :
    request.outcome w = (Window.take n w).map fun r => (request.answer w r.1, r.2) := by
  simp only [outcome, h, Window.take_eq, passed, hphase]
  split <;> rfl

theorem reading_byte (w : Window) : byte.reading w = byte.outcome w := by
  have htake := Window.take_eq 1 w
  rw [outcome_of_take rfl rfl]
  show (Window.byte >>= fun b => pure (Reply.byte b)) w = _
  cases hrest : w.rest with
  | nil =>
    have hshort : ¬ (1 : Int) ≤ w.remaining := by simp [Window.remaining, hrest]
    rw [if_neg (by omega)] at htake
    simp only [htake, bind, StateT.bind, Window.byte, hrest]
    rfl
  | cons b bs =>
    have hlong : (1 : Int) ≤ w.remaining := by
      rw [Window.remaining, hrest, List.length_cons]
      omega
    rw [if_pos ⟨by decide, hlong⟩] at htake
    simp only [htake, bind, StateT.bind, Window.byte, hrest]
    rfl

theorem reading_align (w : Window) (base boundary : Int) :
    (align base boundary).reading w = (align base boundary).outcome w := by
  show (Window.align base boundary >>= fun n => pure (Reply.padding n)) w = _
  by_cases hboundary : 0 < boundary
  · have hdemand : (align base boundary).demand w =
        some (Window.paddingFrom w.pos base boundary) := if_pos hboundary
    rw [outcome_of_take hdemand rfl]
    simp only [bind, StateT.bind, Window.align, if_neg (Int.not_le.2 hboundary), Window.skip]
    cases htake : Window.take (Window.paddingFrom w.pos base boundary) w with
    | error f => rfl
    | ok r =>
      have hlength := (Window.take_eq_ok.1 htake).1
      show Except.ok (Reply.padding _, r.2) = Except.ok (Reply.padding _, r.2)
      rw [← hlength, Int.toNat_natCast]
  · have hdemand : (align base boundary).demand w = none := if_neg hboundary
    rw [outcome_of_none hdemand]
    simp only [bind, StateT.bind, Window.align, if_pos (Int.not_lt.1 hboundary)]
    rfl

theorem reading_unsigned (w : Window) (width : Int) :
    (unsigned width).reading w = (unsigned width).outcome w := by
  show (Window.unsigned width >>= fun n => pure (Reply.word n)) w = _
  unfold Window.unsigned
  by_cases hwidth : width = 1 ∨ width = 2 ∨ width = 4 ∨ width = 8
  · have hdemand : (unsigned width).demand w = some width := if_pos hwidth
    rw [outcome_of_take hdemand rfl, if_pos hwidth]
    simp only [bind, StateT.bind]
    cases Window.take width w <;> rfl
  · have hdemand : (unsigned width).demand w = none := if_neg hwidth
    rw [outcome_of_none hdemand, if_neg hwidth]
    rfl

theorem reading_signed (w : Window) (width : Int) :
    (signed width).reading w = (signed width).outcome w := by
  show (Window.signed width >>= fun n => pure (Reply.word n)) w = _
  unfold Window.signed Window.signedBits
  by_cases hwidth : width = 1 ∨ width = 2 ∨ width = 4
  · have hunsigned : width = 1 ∨ width = 2 ∨ width = 4 ∨ width = 8 := by omega
    have hdemand : (signed width).demand w = some width := if_pos hwidth
    rw [outcome_of_take hdemand rfl, if_pos hwidth, Window.unsigned, if_pos hunsigned]
    simp only [bind, StateT.bind]
    cases Window.take width w <;> rfl
  · have hdemand : (signed width).demand w = none := if_neg hwidth
    rw [outcome_of_none hdemand, if_neg hwidth]
    rfl

/-- A request is refused, or it asks for a number of bytes; it is given them exactly if there are so
many. -/
theorem reading_eq (request : Request) (w : Window) : request.reading w = request.outcome w := by
  cases request with
  | byte => exact reading_byte w
  | unsigned width => exact reading_unsigned w width
  | signed width => exact reading_signed w width
  | align base boundary => exact reading_align w base boundary
  | bytes n =>
    rw [outcome_of_take rfl rfl]
    rfl
  | text n | skip n | child n =>
    rw [outcome_of_take rfl rfl]
    simp only [reading, Window.text, Window.skip, Window.child, bind, StateT.bind]
    cases Window.take n w <;> rfl
  | setPhase phase =>
    have hroom : (0 : Int) ≤ w.remaining := Int.natCast_nonneg _
    simp only [outcome, demand, if_pos (And.intro (Int.le_refl 0) hroom)]
    rfl

/-- A request that succeeds is given the bytes it asks for. -/
theorem reading_eq_ok {r : Reply} {w' : Window} : request.reading w = .ok (r, w') ↔
    ∃ n : Nat, request.demand w = some (n : Int) ∧ n ≤ w.remaining
      ∧ r = request.answer w (w.rest.take n) ∧ w' = request.passed w n := by
  rw [reading_eq, outcome]
  cases hdemand : request.demand w with
  | none => simp
  | some m =>
    dsimp only
    split
    · rename_i hm
      obtain ⟨n, rfl⟩ := Int.eq_ofNat_of_zero_le hm.1
      have hn : n ≤ w.remaining := Int.ofNat_le.1 hm.2
      constructor
      · intro h
        cases h
        exact ⟨n, rfl, hn, rfl, rfl⟩
      · rintro ⟨k, hk, -, rfl, rfl⟩
        obtain rfl : n = k := Int.ofNat_inj.1 (Option.some.inj hk)
        rfl
    · rename_i hm
      refine ⟨nofun, ?_⟩
      rintro ⟨n, hn, hle, -, -⟩
      obtain rfl : m = n := Option.some.inj hn
      omega

/-- A request that fails is refused, or bytes are missing. -/
theorem reading_eq_error {f : Fault} : request.reading w = .error f ↔
    (request.demand w = none ∧ f = { phase := w.phase, cause := request.refusal })
      ∨ ∃ n, request.demand w = some n ∧ (n < 0 ∨ w.remaining < n) ∧ f = w.endOfInput n := by
  rw [reading_eq, outcome]
  cases hdemand : request.demand w with
  | none => simp [eq_comm]
  | some m =>
    dsimp only
    split
    · rename_i hm
      refine ⟨nofun, ?_⟩
      rintro (⟨hnone, -⟩ | ⟨n, hn, hshort, -⟩)
      · cases hnone
      · obtain rfl : m = n := Option.some.inj hn
        omega
    · rename_i hm
      constructor
      · intro h
        cases h
        exact .inr ⟨m, rfl, by omega, rfl⟩
      · rintro (⟨hnone, -⟩ | ⟨n, hn, -, rfl⟩)
        · cases hnone
        · obtain rfl : m = n := Option.some.inj hn
          rfl

theorem kind_refusal (request : Request) : request.refusal.kind = .invalidInput := by
  cases request <;> rfl

/-- Only a child opens a window: on the bytes it is given. -/
theorem opened?_answer {bs : List UInt8} {c : Window}
    (h : (request.answer w bs).opened? = some c) :
    (∃ n, request = .child n) ∧ c = { w with rest := bs } := by
  cases request with
  | child n => exact ⟨⟨n, rfl⟩, (Option.some.inj h).symm⟩
  | _ => cases h

end Request

/-! ## One step of a family -/

namespace Family

theorem ask_of_getElem? {family : Family} {i : Nat} {w : Window} (h : family[i]? = some w)
    (request : Request) : family.ask request i = match request.reading w with
      | .ok (r, w') => (family.set i w' ++ r.opened?.toList, some (.ok r))
      | .error f => (family, some (.error f)) := by
  simp only [ask, perform, h]
  cases request.reading w <;> rfl

/-- What a request to the window `w`, which has the index `i` in the family, may do: `result` is the
family after it, with the reply. -/
structure Disciplined (family : Family) (i : Nat) (w : Window) (request : Request)
    (result : Family × Option (Except Fault Reply)) : Prop where
  /-- The other windows stay as they are. -/
  others : ∀ j, j < family.length → j ≠ i → result.1[j]? = family[j]?
  /-- After a failure this one does too, and the fault has its phase. -/
  failed : ∀ f, result.2 = some (.error f) → result.1 = family ∧ f.phase = w.phase
  /-- After a success it has passed the bytes that were asked for, of which the reply is made, and ends
  where it ended. -/
  moved : ∀ r, result.2 = some (.ok r) → ∃ (n : Nat) (w' : Window),
    request.demand w = some (n : Int) ∧ r = request.answer w (w.rest.take n)
      ∧ result.1[i]? = some w' ∧ w'.pos = w.pos + n ∧ w'.rest = w.rest.drop n ∧ w'.stop = w.stop
      ∧ w'.phase = request.phaseAfter w
  /-- Bytes are missing exactly if fewer than none are asked for, or more than there are. -/
  short : (∃ f, result.2 = some (.error f) ∧ f.kind = .endOfInput) ↔
    ∃ n, request.demand w = some n ∧ (n < 0 ∨ w.remaining < n)
  /-- Such a fault has the offset of the window. -/
  offset : ∀ f, result.2 = some (.error f) → f.kind = .endOfInput → f.offset = w.pos
  /-- Any other failure is a refusal. -/
  refused : (∃ f, result.2 = some (.error f) ∧ f.kind ≠ .endOfInput) ↔ request.demand w = none

theorem stop_passed {w : Window} {n : Nat} (h : n ≤ w.remaining) (request : Request) :
    (request.passed w n).stop = w.stop := by
  have hlength : (w.rest.drop n).length = w.remaining - n := List.length_drop ..
  show w.pos + n + (w.rest.drop n).length = w.pos + w.remaining
  omega

section

variable {family : Family} {i : Nat} {w : Window} {request : Request}

theorem disciplined_of_ok (h : family[i]? = some w) {r : Reply} {w' : Window}
    (hread : request.reading w = .ok (r, w')) :
    Disciplined family i w request (family.set i w' ++ r.opened?.toList, some (.ok r)) := by
  obtain ⟨n, hdemand, hn, rfl, rfl⟩ := Request.reading_eq_ok.1 hread
  have hi : i < family.length := (List.getElem?_eq_some_iff.1 h).1
  have hset : ∀ j, j < family.length → j < (family.set i (request.passed w n)).length := by
    intro j hj
    rwa [List.length_set]
  refine ⟨fun j hj hne => ?_, fun f hf => ?_, fun r hr => ?_, ?_, fun f hf => ?_, ?_⟩
  · rw [List.getElem?_append_left (hset j hj), List.getElem?_set_ne hne.symm]
  · cases hf
  · cases hr
    refine ⟨n, request.passed w n, hdemand, rfl, ?_, rfl, rfl, stop_passed hn request, rfl⟩
    rw [List.getElem?_append_left (hset i hi), List.getElem?_set_self hi]
  · constructor
    · rintro ⟨f, hf, -⟩
      cases hf
    · rintro ⟨m, hm, hshort⟩
      obtain rfl : m = n := Option.some.inj (hm.symm.trans hdemand)
      omega
  · cases hf
  · constructor
    · rintro ⟨f, hf, -⟩
      cases hf
    · intro hnone
      rw [hdemand] at hnone
      cases hnone

/-- A request that is refused, whatever bytes there are. -/
theorem disciplined_of_refusal (hnone : request.demand w = none) :
    Disciplined family i w request
      (family, some (.error { phase := w.phase, cause := request.refusal })) := by
  have hkind : request.refusal.kind ≠ .endOfInput := by
    rw [Request.kind_refusal]
    decide
  refine ⟨fun _ _ _ => rfl, fun f hf => ?_, nofun, ?_, fun f hf h => ?_, ?_⟩
  · cases hf
    exact ⟨rfl, rfl⟩
  · constructor
    · rintro ⟨f, hf, h⟩
      cases hf
      exact absurd h hkind
    · rintro ⟨n, hn, -⟩
      rw [hnone] at hn
      cases hn
  · cases hf
    exact absurd h hkind
  · exact ⟨fun _ => hnone, fun _ => ⟨_, rfl, hkind⟩⟩

theorem disciplined_of_short {n : Int} (hn : request.demand w = some n)
    (hshort : n < 0 ∨ w.remaining < n) :
    Disciplined family i w request (family, some (.error (w.endOfInput n))) := by
  refine ⟨fun _ _ _ => rfl, fun f hf => ?_, nofun, ?_, fun f hf _ => ?_, ?_⟩
  · cases hf
    exact ⟨rfl, rfl⟩
  · exact ⟨fun _ => ⟨n, hn, hshort⟩, fun _ => ⟨_, rfl, rfl⟩⟩
  · cases hf
    rfl
  · constructor
    · rintro ⟨f, hf, h⟩
      cases hf
      exact absurd rfl h
    · intro hnone
      rw [hn] at hnone
      cases hnone

theorem ask_disciplined (h : family[i]? = some w) (request : Request) :
    Disciplined family i w request (family.ask request i) := by
  rw [ask_of_getElem? h]
  cases hread : request.reading w with
  | ok r => exact disciplined_of_ok h hread
  | error f =>
    obtain ⟨hnone, rfl⟩ | ⟨n, hn, hshort, rfl⟩ := Request.reading_eq_error.1 hread
    · exact disciplined_of_refusal hnone
    · exact disciplined_of_short hn hshort

/-- What can be in a family after a request: a window that was there before, the window that was asked
and has moved on, and a window that was opened. -/
theorem ask_cases {j : Nat} {w' : Window} (h : (family.ask request i).1[j]? = some w') :
    family[j]? = some w'
      ∨ (j = i ∧ ∃ (v : Window) (n : Nat), family[i]? = some v ∧ n ≤ v.remaining
        ∧ w' = request.passed v n)
      ∨ (j = family.length ∧ ∃ (v : Window) (n : Nat), request = .child n ∧ family[i]? = some v
        ∧ n ≤ v.remaining ∧ w' = { v with rest := v.rest.take n }) := by
  cases hi : family[i]? with
  | none =>
    simp only [ask, perform, hi] at h
    exact .inl h
  | some v =>
    rw [ask_of_getElem? hi] at h
    cases hread : request.reading v with
    | error f =>
      rw [hread] at h
      exact .inl h
    | ok r =>
      obtain ⟨n, hdemand, hn, hr, hv'⟩ := Request.reading_eq_ok.1 hread
      have h' : (family.set i r.2 ++ r.1.opened?.toList)[j]? = some w' := by
        rwa [hread] at h
      have hlength : (family.set i r.2).length = family.length := List.length_set ..
      rcases Nat.lt_or_ge j family.length with hj | hj
      · rw [List.getElem?_append_left (hlength ▸ hj)] at h'
        by_cases hji : j = i
        · subst hji
          rw [List.getElem?_set_self hj] at h'
          exact .inr (.inl ⟨rfl, v, n, rfl, hn, (Option.some.inj h').symm.trans hv'⟩)
        · rw [List.getElem?_set_ne (Ne.symm hji)] at h'
          exact .inl h'
      · rw [List.getElem?_append_right (hlength ▸ hj), hlength] at h'
        cases hopened : r.1.opened? with
        | none =>
          rw [hopened] at h'
          cases h'
        | some c =>
          rw [hopened] at h'
          obtain ⟨hzero, hc⟩ : j - family.length = 0 ∧ c = w' := by
            simpa [List.getElem?_singleton] using h'
          rw [hr] at hopened
          obtain ⟨⟨m, rfl⟩, rfl⟩ := Request.opened?_answer hopened
          obtain rfl : m = n := Option.some.inj hdemand
          exact .inr (.inr ⟨by omega, v, n, rfl, rfl, hn, hc.symm⟩)

end

/-! ## Runs -/

/-- The family on an input after requests in turn, each to the window with its index. -/
def run (bytes : List UInt8) (requests : List (Nat × Request)) : Family :=
  requests.foldl (fun family q => (family.ask q.2 q.1).1) (ofBytes bytes)

theorem run_concat (bytes : List UInt8) (requests : List (Nat × Request)) (q : Nat × Request) :
    run bytes (requests ++ [q]) = ((run bytes requests).ask q.2 q.1).1 := by
  simp only [run, List.foldl_append, List.foldl_cons, List.foldl_nil]

/-- In the course of the requests, the window with the index `j` was opened as the window `c`, by a
request to a window that was `p` then. The first window was opened on the whole input. -/
inductive Opened (bytes : List UInt8) : List (Nat × Request) → Nat → Window → Window → Prop
  | whole : Opened bytes [] 0 (Window.ofBytes bytes) (Window.ofBytes bytes)
  | child {requests : List (Nat × Request)} {i : Nat} {n : Int} {p c : Window}
      (asked : (run bytes requests)[i]? = some p)
      (opened : (run bytes (requests ++ [(i, .child n)]))[(run bytes requests).length]? = some c) :
      Opened bytes (requests ++ [(i, .child n)]) (run bytes requests).length p c
  | later {requests : List (Nat × Request)} {q : Nat × Request} {j : Nat} {p c : Window}
      (before : Opened bytes requests j p c) : Opened bytes (requests ++ [q]) j p c

/-- What a window `w` on an input keeps that was opened as `c` on `p`. -/
structure Kept (bytes : List UInt8) (p c w : Window) : Prop where
  inside : p.pos ≤ c.pos ∧ c.stop ≤ p.stop
  started : c.pos ≤ w.pos
  ordered : w.pos ≤ w.stop
  stopped : w.stop = c.stop
  bounded : c.stop ≤ bytes.length
  unread : w.rest = (bytes.take w.stop).drop w.pos

namespace Kept

variable {bytes : List UInt8} {p c w : Window}

theorem whole (bytes : List UInt8) :
    Kept bytes (Window.ofBytes bytes) (Window.ofBytes bytes) (Window.ofBytes bytes) where
  inside := ⟨Nat.le_refl _, Nat.le_refl _⟩
  started := Nat.le_refl _
  ordered := Nat.le_add_right _ _
  stopped := rfl
  bounded := by simp [Window.stop, Window.remaining, Window.ofBytes]
  unread := by simp [Window.stop, Window.remaining, Window.ofBytes]

theorem passed (h : Kept bytes p c w) {n : Nat} (hn : n ≤ w.remaining) (request : Request) :
    Kept bytes p c (request.passed w n) := by
  have hstop := stop_passed hn request
  refine ⟨h.inside, ?_, Nat.le_add_right _ _, hstop.trans h.stopped, h.bounded, ?_⟩
  · exact Nat.le_trans h.started (Nat.le_add_right _ _)
  · rw [hstop]
    show w.rest.drop n = (bytes.take w.stop).drop (w.pos + n)
    rw [h.unread, List.drop_drop]

/-- A child is on the next bytes of the window it is opened on. -/
theorem child (h : Kept bytes p c w) {n : Nat} (hn : n ≤ w.remaining) :
    Kept bytes w { w with rest := w.rest.take n } { w with rest := w.rest.take n } := by
  have hstop : Window.stop { w with rest := w.rest.take n } = w.pos + n := by
    show w.pos + (w.rest.take n).length = w.pos + n
    rw [List.length_take]
    exact congrArg (w.pos + ·) (Nat.min_eq_left hn)
  have hle : w.pos + n ≤ w.stop := Nat.add_le_add_left hn _
  refine ⟨⟨Nat.le_refl _, by rwa [hstop]⟩, Nat.le_refl _, Nat.le_add_right _ _, rfl, ?_, ?_⟩
  · rw [hstop]
    exact Nat.le_trans hle (h.stopped ▸ h.bounded)
  · rw [hstop]
    show w.rest.take n = (bytes.take (w.pos + n)).drop w.pos
    rw [h.unread, List.take_drop, List.take_take, Nat.min_eq_left hle]

end Kept

/-- Each window of the family was opened in the course of the requests and keeps its part of the
input. -/
theorem run_kept (bytes : List UInt8) (requests : List (Nat × Request)) :
    ∀ (j : Nat) (w : Window), (run bytes requests)[j]? = some w →
      ∃ p c, Opened bytes requests j p c ∧ Kept bytes p c w := by
  induction requests using List.reverseRecOn with
  | nil =>
    intro j w hw
    cases j with
    | zero =>
      obtain rfl : Window.ofBytes bytes = w := Option.some.inj hw
      exact ⟨_, _, .whole, .whole bytes⟩
    | succ j => cases hw
  | append_singleton requests q ih =>
    obtain ⟨i, request⟩ := q
    intro j w hw
    have hask := hw
    rw [run_concat] at hask
    obtain hsame | ⟨rfl, v, n, hv, hn, rfl⟩ | ⟨rfl, v, n, rfl, hv, hn, rfl⟩ := ask_cases hask
    · obtain ⟨p, c, hopened, hkept⟩ := ih j w hsame
      exact ⟨p, c, .later hopened, hkept⟩
    · obtain ⟨p, c, hopened, hkept⟩ := ih j v hv
      exact ⟨p, c, .later hopened, hkept.passed hn request⟩
    · obtain ⟨p, c, -, hkept⟩ := ih i v hv
      exact ⟨v, _, .child hv hw, hkept.child hn⟩

/-- **Windows keep to their bounds.** After any requests to the windows on an input, each window was
opened in the course of them, inside the window it was opened on as that was then; it still ends where
it ended when it was opened, within the input, has not gone back behind its start, and is on the bytes
of the input from its offset to its end. Whatever is asked next of whichever window, no other window
changes; a failure changes no window at all and has the phase of the window that was asked; a success
moves that window by the bytes that were asked for, of which the reply is made. Bytes are missing
exactly if their number is negative or exceeds what the window has left, and the fault then has the
offset of the window; only a width that no word has and a boundary that is not positive are refused
before any bytes are asked for. -/
theorem run_disciplined (bytes : List UInt8) (requests : List (Nat × Request)) :
    (∀ (j : Nat) (w : Window), (run bytes requests)[j]? = some w →
        ∃ p c, Opened bytes requests j p c ∧ Kept bytes p c w)
      ∧ ∀ (i : Nat) (w : Window) (request : Request), (run bytes requests)[i]? = some w →
        Disciplined (run bytes requests) i w request ((run bytes requests).ask request i) :=
  ⟨run_kept bytes requests, fun _ _ request h => ask_disciplined h request⟩

/-- A word of -1 bytes is refused for its width, and not because fewer than no bytes are asked for. -/
theorem negative_width_refused :
    let result := (run [] []).ask (.unsigned (-1)) 0
    result.2 = some (.error { phase := .decode, cause := .unsignedWidth })
      ∧ ¬ ((∃ f, result.2 = some (.error f) ∧ f.kind = .endOfInput) ↔
        ((-1 : Int) < 0 ∨ ((Window.ofBytes []).remaining : Int) < -1)) := by
  intro result
  have hrefused : result.2 = some (.error { phase := .decode, cause := .unsignedWidth }) := rfl
  refine ⟨hrefused, fun h => ?_⟩
  obtain ⟨f, hf, hkind⟩ := h.2 (.inl (by decide))
  rw [hrefused] at hf
  cases hf
  exact absurd hkind (by decide)

end Family

end ClassAtlas

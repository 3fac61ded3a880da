import ClassAtlas.Pool.Naming
import ClassAtlas.Proofs.Delimiting

/-! # Sessions

A step that fails gives a fault and no window. What becomes of the window all the same is told by a
session: the same reads on a window that is kept in either case. A single read that fails does not move
the window, a session of several reads leaves it where the failing one found it, and a phase that was
entered is left again however the session ends. Without the window of failed runs, a session is a step.

* `Session`, `Session.ofReading`, `Session.stepping`: sessions, a single read as one, and readings
  taken step by step.
* `Session.outcome`: the step that a session is when nobody looks at the window of a failed run.
* `Session.Advances`: every run leaves the window further on, in its own phase.
* `Pool.session`, `Pool.outcome_session`: the whole work on the pool, from the count to the names.
-/

namespace ClassAtlas
set_option autoImplicit false

variable {α β : Type}

/-- A step that leaves a window also when it fails. -/
def Session (α : Type) : Type :=
  Window → Except Fault α × Window

namespace Session

instance : Monad Session where
  pure a := fun w => (.ok a, w)
  bind s k := fun w =>
    match s w with
    | (.ok a, v) => k a v
    | (.error f, v) => (.error f, v)

/-- A single read; if it fails, the window stays as it is. -/
def ofReading (step : Reading α) : Session α := fun w =>
  match step w with
  | .ok (a, w') => (.ok a, w')
  | .error f => (.error f, w)

def settled (result : Except Fault α) : Session α := fun w =>
  (result, w)

def within (segment : String) (s : Session α) : Session α := fun w =>
  ((s w).1.mapError (Fault.within segment), (s w).2)

/-- Every step is a read of its own. -/
def stepping : Stepping Session where
  step := ofReading
  within := within

/-- The session in a phase of its own; afterwards the window has its old phase back. -/
def inPhase (phase : Phase) (s : Session α) : Session α := fun w =>
  let run := s { w with phase := phase }
  (run.1, { run.2 with phase := w.phase })

/-- The session without the window of failed runs. -/
def outcome (s : Session α) : Reading α := fun w =>
  (s w).1.map (·, (s w).2)

/-! ## Sessions as steps -/

theorem outcome_pure (a : α) : outcome (pure a : Session α) = pure a := rfl

theorem outcome_settled (r : Except Fault α) : outcome (settled r) = ClassAtlas.settled r := rfl

theorem outcome_step (step : Reading α) : (stepping.step step).outcome = step := by
  funext w
  simp only [outcome, stepping, ofReading]
  cases step w <;> rfl

theorem outcome_bind (s : Session α) (k : α → Session β) :
    (s >>= k).outcome = s.outcome >>= fun a => (k a).outcome := by
  funext w
  simp only [outcome, Bind.bind, StateT.bind]
  rcases s w with ⟨f | a, v⟩ <;> rfl

theorem outcome_within (segment : String) (s : Session α) :
    (stepping.within segment s).outcome = ClassAtlas.within segment s.outcome := by
  funext w
  simp only [outcome, stepping, within, ClassAtlas.within]
  rcases s w with ⟨f | a, v⟩ <;> rfl

theorem outcome_inPhase (phase : Phase) (s : Session α) :
    (s.inPhase phase).outcome = ClassAtlas.inPhase phase s.outcome := by
  funext w
  simp only [outcome, inPhase, ClassAtlas.inPhase]
  rcases s { w with phase := phase } with ⟨f | a, v⟩ <;> rfl

theorem outcome_eq_ok {s : Session α} {w w' : Window} {a : α} :
    s.outcome w = .ok (a, w') ↔ (s w).1 = .ok a ∧ (s w).2 = w' := by
  unfold outcome
  rcases s w with ⟨f | b, v⟩ <;> simp [Except.map]

/-! ## Where sessions leave the window -/

/-- Whether it fails or not, the session leaves the window after some of its bytes, in the phase it
had. -/
def Advances (s : Session α) : Prop :=
  ∀ w : Window, ∃ bs, w.After bs (s w).2

namespace Advances

theorem pure (a : α) : Advances (pure a : Session α) :=
  fun _ => ⟨[], Window.after_nil.2 rfl⟩

theorem settled (r : Except Fault α) : Advances (settled r) :=
  fun _ => ⟨[], Window.after_nil.2 rfl⟩

theorem ofReading {step : Reading α} (h : Delimits step) : Advances (ofReading step) := by
  intro w
  unfold Session.ofReading
  cases hstep : step w with
  | error f => exact ⟨[], Window.after_nil.2 rfl⟩
  | ok r =>
    obtain ⟨bs, hafter, -⟩ := h w r.1 r.2 hstep
    exact ⟨bs, hafter⟩

theorem bind {s : Session α} {k : α → Session β} (hs : s.Advances) (hk : ∀ a, (k a).Advances) :
    Advances (s >>= k) := by
  intro w
  obtain ⟨bs, hafter⟩ := hs w
  simp only [Bind.bind]
  generalize s w = run at hafter ⊢
  obtain ⟨f | a, v⟩ := run
  · exact ⟨bs, hafter⟩
  · obtain ⟨cs, hafter'⟩ := hk a v
    exact ⟨bs ++ cs, hafter.trans hafter'⟩

theorem within {s : Session α} (h : s.Advances) (segment : String) :
    (s.within segment).Advances := h

theorem inPhase {s : Session α} (h : s.Advances) (phase : Phase) :
    (s.inPhase phase).Advances := by
  intro w
  obtain ⟨bs, hafter⟩ := h { w with phase := phase }
  exact ⟨bs, hafter.rest, hafter.pos, rfl⟩

end Advances

end Session

/-! ## The pool -/

open Session

theorem Payload.outcome_steps (tag : Tag) : (steps stepping tag).outcome = read tag := by
  cases tag <;>
    simp only [steps, oneStep, twoSteps, outcome_bind, outcome_step, outcome_pure] <;> rfl

theorem Payload.steps_advances (tag : Tag) : (steps stepping tag).Advances := by
  have hu2 := Advances.ofReading Datum.u2_delimits
  have hword : ∀ width, Advances (ofReading (Datum.unsigned width .structural)) :=
    fun width => .ofReading (Datum.unsigned_delimits width _)
  cases tag with
  | utf8 =>
    exact hu2.bind fun length => (Advances.ofReading (Datum.text_delimits _)).bind fun _ => .pure _
  | integer => exact (Advances.ofReading (Datum.signed_delimits _ _)).bind fun _ => .pure _
  | float | long | double => exact (hword _).bind fun _ => .pure _
  | methodHandle => exact (hword 1).bind fun _ => hu2.bind fun _ => .pure _
  | classInfo | string | methodType | moduleInfo | packageInfo => exact hu2.bind fun _ => .pure _
  | fieldref | methodref | interfaceMethodref | nameAndType | dynamic | invokeDynamic =>
    exact hu2.bind fun _ => hu2.bind fun _ => .pure _

namespace Constant

theorem outcome_tagSteps : (tagSteps stepping).outcome = readTag := by
  unfold readTag tagSteps
  rw [outcome_bind, outcome_step]
  congr 1
  funext d
  cases Tag.ofCode? d.raw.toUInt8 with
  | none => exact outcome_step _
  | some tag => rfl

theorem outcome_steps (index : Nat) : (steps stepping index).outcome = read index := by
  unfold read steps
  rw [outcome_bind, outcome_tagSteps]
  congr 1
  funext r
  rw [outcome_bind, Payload.outcome_steps]
  rfl

theorem steps_advances (index : Nat) : (steps stepping index).Advances := by
  have htag : (tagSteps stepping).Advances := by
    refine (Advances.ofReading (Datum.unsigned_delimits 1 _)).bind fun d => ?_
    split
    · exact .pure _
    · exact .ofReading (.throw _)
  exact htag.bind fun r => (Payload.steps_advances r.2).bind fun _ => .pure _

end Constant

namespace Pool

/-- The pool with every entry named, all of it in the phase of the pool. -/
def session : Session Pool := Session.inPhase .constantPool do
  let pool ← entrySteps stepping
  Session.settled pool.resolve

theorem outcome_slotSteps (count : Nat) : ∀ index,
    (slotSteps stepping index count).outcome = readSlots index count := by
  induction count using Nat.strongRecOn with
  | _ count ih =>
    intro index
    cases count with
    | zero => rfl
    | succ count =>
      unfold readSlots slotSteps
      rw [outcome_bind, outcome_within, Constant.outcome_steps]
      congr 1
      funext c
      split
      · split
        · rfl
        · rename_i count
          rw [outcome_bind, ih count (by omega)]
          rfl
      · rw [outcome_bind, ih count (by omega)]
        rfl

theorem slotSteps_advances (count : Nat) : ∀ index, (slotSteps stepping index count).Advances := by
  induction count using Nat.strongRecOn with
  | _ count ih =>
    intro index
    cases count with
    | zero => exact .pure _
    | succ count =>
      unfold slotSteps
      refine ((Constant.steps_advances index).within _).bind fun c => ?_
      split
      · split
        · exact .pure _
        · rename_i count
          exact (ih count (by omega) _).bind fun _ => .pure _
      · exact (ih count (by omega) _).bind fun _ => .pure _

theorem outcome_entrySteps :
    ClassAtlas.inPhase .constantPool (entrySteps stepping).outcome = read := by
  unfold read entrySteps
  rw [outcome_bind, outcome_within, outcome_step]
  congr 2
  funext count
  cases count.num.toNat with
  | zero => rfl
  | succ n =>
    simp only [outcome_bind, outcome_slotSteps]
    rfl

/-- Naming the entries does not read, so that it may stand after the phase of the pool. -/
theorem outcome_session : session.outcome = read >>= fun pool => settled pool.resolve := by
  unfold session
  rw [outcome_inPhase, outcome_bind, ← outcome_entrySteps]
  funext w
  simp only [outcome_settled, ClassAtlas.inPhase, Bind.bind, StateT.bind]
  rcases (entrySteps stepping).outcome { w with phase := .constantPool } with f | ⟨pool, v⟩
  · rfl
  · simp only [Except.bind, Except.map, ClassAtlas.settled]
    cases pool.resolve <;> rfl

theorem session_advances : session.Advances := by
  refine Advances.inPhase (.bind (.bind ?_ fun count => ?_) fun pool => .settled _) _
  · exact (Advances.ofReading Datum.u2_delimits).within _
  · split
    · exact .pure _
    · exact (slotSteps_advances _ 1).bind fun _ => .pure _

end Pool

end ClassAtlas

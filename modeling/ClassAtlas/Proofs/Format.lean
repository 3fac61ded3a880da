import ClassAtlas.Window

/-! # Formats

A format says how a part of the file is written: which contents are legal, the bytes of each, and the
value that stands for it at an offset. A step reads a format when its successful runs are exactly the
written contents, each of them followed by anything at all.

* `Window.After`: a window after some bytes of it.
* `Format`, `Format.times`: a format, and so many contents of it in a row.
* `Reads step F`: the step reads the format.
* `Fills step F`: the step reads the format in a window that holds nothing else.
* `Runs step R`: the successful runs of a step as a relation, from which formats of several parts are
  put together.
-/

namespace ClassAtlas
set_option autoImplicit false

/-! ## Steps that succeed -/

namespace Reading

variable {α β : Type}

theorem bind_eq_ok {x : Reading α} {f : α → Reading β} {w w' : Window} {b : β} :
    (x >>= f) w = .ok (b, w') ↔ ∃ a v, x w = .ok (a, v) ∧ f a v = .ok (b, w') := by
  simp only [bind, StateT.bind]
  cases x w with
  | error e => simp [Except.bind]
  | ok r =>
    constructor
    · intro h
      exact ⟨r.1, r.2, rfl, h⟩
    · rintro ⟨a, v, hr, h⟩
      cases hr
      exact h

theorem bind_of_ok {x : Reading α} {k : α → Reading β} {w v : Window} {a : α}
    (h : x w = .ok (a, v)) : (x >>= k) w = k a v := by
  simp only [bind, StateT.bind, h, Except.bind]

theorem pure_eq_ok {a b : α} {w w' : Window} :
    (pure a : Reading α) w = .ok (b, w') ↔ a = b ∧ w = w' := by
  show Except.ok (a, w) = Except.ok (b, w') ↔ a = b ∧ w = w'
  simp

theorem get_eq_ok {w v w' : Window} :
    (get : Reading Window) w = .ok (v, w') ↔ w = v ∧ w = w' := by
  simp [get, getThe, MonadStateOf.get, StateT.get, pure, Except.pure]

theorem throw_eq_ok {f : Fault} {a : α} {w w' : Window} :
    (throw f : Reading α) w = .ok (a, w') ↔ False := by
  simp [throw, throwThe, MonadExceptOf.throw, StateT.lift, bind, Except.bind]

theorem map_eq_ok {x : Except Fault (α × Window)} {f : α × Window → β × Window} {b : β}
    {w' : Window} : x.map f = .ok (b, w') ↔ ∃ a v, x = .ok (a, v) ∧ f (a, v) = (b, w') := by
  cases x with
  | error e => simp [Except.map]
  | ok r =>
    constructor
    · intro h
      exact ⟨r.1, r.2, rfl, Except.ok.inj h⟩
    · rintro ⟨a, v, hr, h⟩
      cases hr
      exact congrArg Except.ok h

theorem mapError_eq_ok {x : Except Fault α} {g : Fault → Fault} {a : α} :
    x.mapError g = .ok a ↔ x = .ok a := by
  cases x with
  | error e => exact ⟨nofun, nofun⟩
  | ok b => exact Iff.rfl

theorem within_eq_ok {segment : String} {x : Reading α} {w w' : Window} {a : α} :
    within segment x w = .ok (a, w') ↔ x w = .ok (a, w') := by
  unfold within
  exact mapError_eq_ok

theorem settled_eq_ok {r : Except Fault α} {w w' : Window} {a : α} :
    settled r w = .ok (a, w') ↔ r = .ok a ∧ w = w' := by
  unfold settled
  cases r <;> simp [Except.map]

theorem inPhase_eq_ok {phase : Phase} {x : Reading α} {w w' : Window} {a : α} :
    inPhase phase x w = .ok (a, w') ↔
      ∃ v, x { w with phase := phase } = .ok (a, v) ∧ { v with phase := w.phase } = w' := by
  unfold inPhase
  rw [map_eq_ok]
  constructor
  · rintro ⟨b, v, hx, he⟩
    simp only [Prod.mk.injEq] at he
    exact ⟨v, he.1 ▸ hx, he.2⟩
  · rintro ⟨v, hx, rfl⟩
    exact ⟨a, v, hx, rfl⟩

end Reading

/-! ## A window after some bytes -/

/-- The window `w'` is what is left of `w` after the bytes `bs`. -/
structure Window.After (w : Window) (bs : List UInt8) (w' : Window) : Prop where
  rest : w.rest = bs ++ w'.rest
  pos : w'.pos = w.pos + bs.length
  phase : w'.phase = w.phase

namespace Window

theorem After.eq_mk {w w' : Window} {bs : List UInt8} (h : w.After bs w') :
    w' = ⟨w.phase, w.pos + bs.length, w'.rest⟩ := by
  obtain ⟨phase, pos, rest⟩ := w'
  rw [← h.pos, ← h.phase]

theorem after_nil {w w' : Window} : w.After [] w' ↔ w = w' := by
  constructor
  · intro h
    rw [h.eq_mk, List.length_nil, Nat.add_zero, ← List.nil_append w'.rest, ← h.rest]
  · rintro rfl
    exact ⟨rfl, rfl, rfl⟩

theorem After.trans {w v w' : Window} {as bs : List UInt8} (h : w.After as v) (h' : v.After bs w') :
    w.After (as ++ bs) w' := by
  refine ⟨?_, ?_, h'.phase.trans h.phase⟩
  · rw [h.rest, h'.rest, List.append_assoc]
  · rw [h'.pos, h.pos, List.length_append, Nat.add_assoc]

theorem After.split {w w' : Window} {as bs : List UInt8} (h : w.After (as ++ bs) w') :
    ∃ v, w.After as v ∧ v.After bs w' := by
  refine ⟨⟨w.phase, w.pos + as.length, bs ++ w'.rest⟩, ⟨?_, rfl, rfl⟩, ⟨rfl, ?_, h.phase⟩⟩
  · rw [h.rest, List.append_assoc]
  · rw [h.pos, List.length_append, Nat.add_assoc]

theorem After.remaining {w w' : Window} {bs : List UInt8} (h : w.After bs w') :
    w.remaining = bs.length + w'.remaining := by
  rw [Window.remaining, h.rest, List.length_append, Window.remaining]

theorem take_eq_ok {n : Int} {w w' : Window} {bs : List UInt8} :
    take n w = .ok (bs, w') ↔ (bs.length : Int) = n ∧ w.After bs w' := by
  unfold take
  constructor
  · intro h
    split at h
    · rename_i hn
      have hle := (holds_iff w n.toNat).1 hn.2
      simp only [Except.ok.injEq, Prod.mk.injEq] at h
      obtain ⟨rfl, rfl⟩ := h
      have hlen : (w.rest.take n.toNat).length = n.toNat := by
        rw [List.length_take]
        exact Nat.min_eq_left hle
      refine ⟨by omega, ?_, ?_, rfl⟩
      · exact (List.take_append_drop _ _).symm
      · rw [hlen]
    · cases h
  · rintro ⟨rfl, h⟩
    have hle : bs.length ≤ w.remaining := by
      rw [h.remaining]
      exact Nat.le_add_right _ _
    rw [if_pos ⟨Int.natCast_nonneg _, (holds_iff w _).2 hle⟩, Int.toNat_natCast, h.rest,
      List.take_left, List.drop_left, ← h.pos, ← h.phase]

theorem skip_eq_ok {n : Int} {w w' : Window} {u : Unit} :
    skip n w = .ok (u, w') ↔ ∃ bs, (bs.length : Int) = n ∧ w.After bs w' := by
  simp only [skip, Reading.bind_eq_ok, Reading.pure_eq_ok, take_eq_ok, true_and]
  constructor
  · rintro ⟨bs, v, hv, rfl⟩
    exact ⟨bs, hv⟩
  · rintro ⟨bs, h⟩
    exact ⟨bs, w', h, rfl⟩

theorem child_eq_ok {n : Int} {w c w' : Window} :
    child n w = .ok (c, w') ↔
      ∃ bs, (bs.length : Int) = n ∧ w.After bs w' ∧ c = { w with rest := bs } := by
  simp only [child, Reading.map_eq_ok, take_eq_ok, Prod.mk.injEq]
  constructor
  · rintro ⟨bs, v, ⟨hn, h⟩, rfl, rfl⟩
    exact ⟨bs, hn, h, rfl⟩
  · rintro ⟨bs, hn, h, rfl⟩
    exact ⟨bs, w', ⟨hn, h⟩, rfl, rfl⟩

end Window

/-! ## Formats -/

/-- How contents of type `ι` are written, and the values of type `α` that stand for them. -/
structure Format (ι α : Type) where
  legal : ι → Prop
  bytes : ι → List UInt8
  place : Nat → ι → α

/-- The successful runs of the step are the legal contents of the format, written at the front of the
window. -/
def Reads {ι α : Type} (step : Reading α) (F : Format ι α) : Prop :=
  ∀ w a w', step w = .ok (a, w') ↔
    ∃ x, F.legal x ∧ w.After (F.bytes x) w' ∧ a = F.place w.pos x

/-- The successful runs of the step are the legal contents of the format that fill the window. -/
def Fills {ι α : Type} (step : Reading α) (F : Format ι α) : Prop :=
  ∀ w a w', step w = .ok (a, w') ↔
    ∃ x, F.legal x ∧ w.After (F.bytes x) w' ∧ w'.rest = [] ∧ a = F.place w.pos x

namespace Format

variable {ι α β : Type}

/-- The values of contents that follow each other from an offset on. -/
def placeAll (F : Format ι α) : Nat → List ι → List α
  | _, [] => []
  | pos, x :: xs => F.place pos x :: F.placeAll (pos + (F.bytes x).length) xs

def times (F : Format ι α) (count : Nat) : Format (List ι) (List α) where
  legal xs := xs.length = count ∧ ∀ x ∈ xs, F.legal x
  bytes xs := xs.flatMap F.bytes
  place := F.placeAll

/-- The format with another value for each content. -/
def map (F : Format ι α) (f : α → β) : Format ι β where
  legal := F.legal
  bytes := F.bytes
  place pos x := f (F.place pos x)

theorem length_placeAll (F : Format ι α) (pos : Nat) (xs : List ι) :
    (F.placeAll pos xs).length = xs.length := by
  induction xs generalizing pos with
  | nil => rfl
  | cons x xs ih => rw [placeAll, List.length_cons, ih, List.length_cons]

end Format

namespace Reads

variable {ι α β : Type} {F : Format ι α}

theorem of_eq_ok {step step' : Reading α} (h : Reads step F)
    (heq : ∀ w a w', step' w = .ok (a, w') ↔ step w = .ok (a, w')) : Reads step' F := by
  intro w a w'
  rw [heq, h w a w']

theorem within {step : Reading α} (h : Reads step F) (segment : String) :
    Reads (within segment step) F :=
  h.of_eq_ok fun _ _ _ => Reading.within_eq_ok

theorem inPhase {step : Reading α} (h : Reads step F) (phase : Phase) :
    Reads (inPhase phase step) F := by
  intro w a w'
  rw [Reading.inPhase_eq_ok]
  constructor
  · rintro ⟨v, hv, rfl⟩
    obtain ⟨x, hx, hafter, ha⟩ := (h _ _ _).1 hv
    exact ⟨x, hx, ⟨hafter.rest, hafter.pos, rfl⟩, ha⟩
  · rintro ⟨x, hx, hafter, ha⟩
    refine ⟨{ w' with phase := phase }, (h _ _ _).2 ⟨x, hx, ⟨hafter.rest, hafter.pos, rfl⟩, ha⟩, ?_⟩
    rw [← hafter.phase]

theorem map {step : Reading α} (h : Reads step F) (f : α → β) :
    Reads (do let a ← step; pure (f a)) (F.map f) := by
  intro w b w'
  simp only [Reading.bind_eq_ok, Reading.pure_eq_ok]
  constructor
  · rintro ⟨a, v, hv, rfl, rfl⟩
    obtain ⟨x, hx, hafter, rfl⟩ := (h _ _ _).1 hv
    exact ⟨x, hx, hafter, rfl⟩
  · rintro ⟨x, hx, hafter, rfl⟩
    exact ⟨_, w', (h _ _ _).2 ⟨x, hx, hafter, rfl⟩, rfl, rfl⟩

theorem repeatedFrom {step : Nat → Reading α} (h : ∀ i, Reads (step i) F) (count : Nat) :
    ∀ first, Reads (repeatedFrom step first count) (F.times count) := by
  induction count with
  | zero =>
    intro first w as w'
    rw [ClassAtlas.repeatedFrom, Reading.pure_eq_ok]
    constructor
    · rintro ⟨rfl, rfl⟩
      exact ⟨[], ⟨rfl, by simp⟩, Window.after_nil.2 rfl, rfl⟩
    · rintro ⟨xs, ⟨hlen, -⟩, hafter, rfl⟩
      obtain rfl := List.length_eq_zero_iff.1 hlen
      exact ⟨rfl, Window.after_nil.1 hafter⟩
  | succ count ih =>
    intro first w as w'
    simp only [ClassAtlas.repeatedFrom, Reading.bind_eq_ok, Reading.pure_eq_ok]
    constructor
    · rintro ⟨a, v, hv, as, v', hv', rfl, rfl⟩
      obtain ⟨x, hx, hax, rfl⟩ := (h first _ _ _).1 hv
      obtain ⟨xs, ⟨hlen, hxs⟩, haxs, rfl⟩ := (ih _ _ _ _).1 hv'
      refine ⟨x :: xs, ⟨by rw [List.length_cons, hlen], ?_⟩, ?_, ?_⟩
      · exact List.forall_mem_cons.2 ⟨hx, hxs⟩
      · exact hax.trans haxs
      · rw [hax.pos]
        rfl
    · rintro ⟨xs, ⟨hlen, hxs⟩, hafter, rfl⟩
      obtain ⟨x, xs, rfl⟩ := List.exists_cons_of_length_eq_add_one hlen
      have hafter' : w.After (F.bytes x ++ xs.flatMap F.bytes) w' := hafter
      obtain ⟨v, hax, haxs⟩ := hafter'.split
      have hlegal := List.forall_mem_cons.1 hxs
      refine ⟨_, v, (h first _ _ _).2 ⟨x, hlegal.1, hax, rfl⟩, _, w', (ih _ _ _ _).2
        ⟨xs, ⟨by simpa using hlen, hlegal.2⟩, haxs, rfl⟩, ?_, rfl⟩
      rw [hax.pos]
      rfl

theorem repeated {step : Nat → Reading α} (h : ∀ i, Reads (step i) F) (count : Nat) :
    Reads (repeated count step) (F.times count) :=
  repeatedFrom h count 0

end Reads

/-! ## Steps in a row -/

/-- The successful runs of the step: from which offset it takes which bytes, and what it gives. -/
def Runs {α : Type} (step : Reading α) (R : Nat → List UInt8 → α → Prop) : Prop :=
  ∀ w a w', step w = .ok (a, w') ↔ ∃ bs, w.After bs w' ∧ R w.pos bs a

namespace Runs

variable {α β : Type} {R : Nat → List UInt8 → α → Prop}

theorem pure (a : α) : Runs (pure a) fun _ bs b => bs = [] ∧ b = a := by
  intro w b w'
  rw [Reading.pure_eq_ok]
  constructor
  · rintro ⟨rfl, rfl⟩
    exact ⟨[], Window.after_nil.2 rfl, rfl, rfl⟩
  · rintro ⟨bs, hafter, rfl, rfl⟩
    exact ⟨rfl, Window.after_nil.1 hafter⟩

/-- A step that reads nothing stands before the next one. -/
theorem settled_bind (result : Except Fault α) {k : α → Reading β}
    {K : α → Nat → List UInt8 → β → Prop} (h : ∀ a, Runs (k a) (K a)) :
    Runs (settled result >>= k) fun pos bs b => ∃ a, result = .ok a ∧ K a pos bs b := by
  intro w b w'
  simp only [Reading.bind_eq_ok, Reading.settled_eq_ok]
  constructor
  · rintro ⟨a, v, ⟨ha, rfl⟩, hk⟩
    obtain ⟨bs, hafter, hb⟩ := (h a _ _ _).1 hk
    exact ⟨bs, hafter, a, ha, hb⟩
  · rintro ⟨bs, hafter, a, ha, hb⟩
    exact ⟨a, w, ⟨ha, rfl⟩, (h a _ _ _).2 ⟨bs, hafter, hb⟩⟩

theorem within_settled_bind (segment : String) (result : Except Fault α) {k : α → Reading β}
    {K : α → Nat → List UInt8 → β → Prop} (h : ∀ a, Runs (k a) (K a)) :
    Runs (ClassAtlas.within segment (settled result) >>= k) fun pos bs b =>
      ∃ a, result = .ok a ∧ K a pos bs b := by
  intro w b w'
  rw [← settled_bind result h w b w', Reading.bind_eq_ok, Reading.bind_eq_ok]
  simp only [Reading.within_eq_ok]

theorem reads {ι : Type} {step : Reading α} {F : Format ι α} (h : Runs step R)
    (hR : ∀ pos bs a, R pos bs a ↔ ∃ x, F.legal x ∧ bs = F.bytes x ∧ a = F.place pos x) :
    Reads step F := by
  intro w a w'
  rw [h w a w']
  constructor
  · rintro ⟨bs, hafter, hbs⟩
    obtain ⟨x, hx, rfl, rfl⟩ := (hR _ _ _).1 hbs
    exact ⟨x, hx, hafter, rfl⟩
  · rintro ⟨x, hx, hafter, rfl⟩
    exact ⟨F.bytes x, hafter, (hR _ _ _).2 ⟨x, hx, rfl, rfl⟩⟩

end Runs

namespace Reads

variable {ι α β : Type} {step : Reading α} {F : Format ι α}

/-- The next step stands after the bytes of the content, and may look at its value. -/
theorem bind (h : Reads step F) {k : α → Reading β} {K : α → Nat → List UInt8 → β → Prop}
    (hk : ∀ a, Runs (k a) (K a)) :
    Runs (step >>= k) fun pos bs b => ∃ x, F.legal x ∧ ∃ cs, bs = F.bytes x ++ cs
      ∧ K (F.place pos x) (pos + (F.bytes x).length) cs b := by
  intro w b w'
  rw [Reading.bind_eq_ok]
  constructor
  · rintro ⟨a, v, ha, hb⟩
    obtain ⟨x, hx, hafter, rfl⟩ := (h _ _ _).1 ha
    obtain ⟨cs, hafter', hcs⟩ := (hk _ _ _ _).1 hb
    rw [hafter.pos] at hcs
    exact ⟨_, hafter.trans hafter', x, hx, cs, rfl, hcs⟩
  · rintro ⟨bs, hafter, x, hx, cs, rfl, hcs⟩
    obtain ⟨v, hv, hv'⟩ := hafter.split
    rw [← hv.pos] at hcs
    exact ⟨_, v, (h _ _ _).2 ⟨x, hx, hv, rfl⟩, (hk _ _ _ _).2 ⟨cs, hv', hcs⟩⟩

end Reads

/-! ## Windows of their own -/

/-- A step on a window of its own reads the contents of the declared length. -/
theorem Fills.child_onChild {ι α : Type} {step : Reading α} {F : Format ι α} (h : Fills step F)
    (phase : Phase) (n : Int) (w w' : Window) (a : α) :
    (∃ c v c', Window.child n w = .ok (c, v) ∧ onChild phase c step v = .ok ((a, c'), w')) ↔
      ∃ x, F.legal x ∧ ((F.bytes x).length : Int) = n ∧ w.After (F.bytes x) w'
        ∧ a = F.place w.pos x := by
  simp only [onChild, Window.child_eq_ok, Reading.settled_eq_ok]
  constructor
  · rintro ⟨c, v, c', ⟨bs, hn, hafter, rfl⟩, hstep, rfl⟩
    obtain ⟨x, hx, hx', hrest, rfl⟩ := (h _ _ _).1 hstep
    have hbs : bs = F.bytes x := by
      have := hx'.rest
      rwa [hrest, List.append_nil] at this
    subst hbs
    exact ⟨x, hx, hn, hafter, rfl⟩
  · rintro ⟨x, hx, hn, hafter, rfl⟩
    refine ⟨_, w', ⟨phase, w.pos + (F.bytes x).length, []⟩, ⟨_, hn, hafter, rfl⟩, ?_, rfl⟩
    exact (h _ _ _).2 ⟨x, hx, ⟨(List.append_nil _).symm, rfl, rfl⟩, rfl, rfl⟩

/-- A part that declares its length stands before the next step. -/
theorem Fills.child_bind {ι α β : Type} {step : Reading α} {F : Format ι α} (h : Fills step F)
    (phase : Phase) (n : Int) {k : α → Reading β} {K : α → Nat → List UInt8 → β → Prop}
    (hk : ∀ a, Runs (k a) (K a)) :
    Runs (Window.child n >>= fun c => onChild phase c step >>= fun p => k p.1) fun pos bs b =>
      ∃ x, F.legal x ∧ ((F.bytes x).length : Int) = n ∧ ∃ cs, bs = F.bytes x ++ cs
        ∧ K (F.place pos x) (pos + (F.bytes x).length) cs b := by
  intro w b w'
  have hchild := fun v a => h.child_onChild phase n w v a
  simp only [Reading.bind_eq_ok]
  constructor
  · rintro ⟨c, v, hc, ⟨a, c'⟩, v', ha, hb⟩
    obtain ⟨x, hx, hn, hafter, rfl⟩ := (hchild v' a).1 ⟨c, v, c', hc, ha⟩
    obtain ⟨cs, hafter', hcs⟩ := (hk _ _ _ _).1 hb
    rw [hafter.pos] at hcs
    exact ⟨_, hafter.trans hafter', x, hx, hn, cs, rfl, hcs⟩
  · rintro ⟨bs, hafter, x, hx, hn, cs, rfl, hcs⟩
    obtain ⟨v, hv, hv'⟩ := hafter.split
    obtain ⟨c, u, c', hc, ha⟩ := (hchild v _).2 ⟨x, hx, hn, hv, rfl⟩
    rw [← hv.pos] at hcs
    exact ⟨c, u, hc, _, v, ha, (hk _ _ _ _).2 ⟨cs, hv', hcs⟩⟩

end ClassAtlas

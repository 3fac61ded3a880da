import ClassAtlas.Proofs.Safety
import ClassAtlas.Proofs.Sessions
import ClassAtlas.Proofs.Transcript

/-! # The slots of the constant pool

A pool that was read and named has as many slots as it declares. Which of them are used is settled by
the kinds of the entries alone: slot 0 is not, nor is the slot after an entry of two slots, and every
other one is. The entries know their index and their kind, they follow each other in the file from the
count to where the window stands afterwards, and exactly the used slots can be looked up.

* `PoolForm.Slotted.unused_iff`: which slots of a layout are unused.
* `Pool.Populated pool i c`: slot `i` holds the entry `c`.
* `Pool.LaidOut w pool w'`: the pool that lies between two windows, slot by slot.
* `Pool.session_lays_out`: what the work on the pool gives, and how it leaves the window.
-/

namespace ClassAtlas
set_option autoImplicit false

/-! ## Slots of a layout -/

namespace PoolForm

variable {slots : List (Option ConstantForm)}

theorem Slotted.first_used (h : Slotted slots) : slots[0]? ≠ some none := by
  cases h <;> simp

/-- An unused slot stands after a wide entry, and nowhere else. -/
theorem Slotted.unused_iff (h : Slotted slots) (i : Nat) (hi : i + 1 < slots.length) :
    slots[i + 1]? = some none ↔ ∃ c, slots[i]? = some (some c) ∧ c.tag.isWide = true := by
  induction h generalizing i with
  | nil => simp at hi
  | @narrow c slots legal narrow rest ih =>
    cases i with
    | zero => simpa [narrow] using rest.first_used
    | succ i => simpa using ih i (by simpa using hi)
  | @wide c slots legal wide rest ih =>
    match i with
    | 0 => simp [wide]
    | 1 => simpa using rest.first_used
    | i + 2 =>
      simp only [List.length_cons] at hi
      simpa using ih i (by omega)
  | wideLast legal wide => simp at hi

theorem Legal.unused_iff (h : Legal slots) {i : Nat} (hpos : 1 ≤ i) (hi : i < slots.length) :
    slots[i]? = some none ↔ ∃ c, slots[i - 1]? = some (some c) ∧ c.tag.isWide = true := by
  obtain rfl | ⟨rest, rfl, hrest⟩ := h.2
  · simp at hi
  · match i, hpos with
    | 1, _ => simpa using hrest.first_used
    | i + 2, _ =>
      simp only [List.length_cons] at hi
      simpa using hrest.unused_iff i (by omega)

theorem Legal.first_unused (h : Legal slots) : slots[0]? = none ∨ slots[0]? = some none := by
  obtain rfl | ⟨rest, rfl, -⟩ := h.2
  · exact .inl rfl
  · exact .inr rfl

/-- The entry of each slot is placed under the index of the slot. -/
theorem placeSlots_at (slots : List (Option ConstantForm)) (index pos i : Nat) :
    ∃ pos', (placeSlots index pos slots)[i]? =
      slots[i]?.map (Option.map (ConstantForm.place (index + i) pos')) := by
  induction slots generalizing index pos i with
  | nil => exact ⟨pos, rfl⟩
  | cons slot slots ih =>
    cases slot with
    | none =>
      cases i with
      | zero => exact ⟨pos, rfl⟩
      | succ i =>
        obtain ⟨pos', hpos'⟩ := ih (index + 1) pos i
        refine ⟨pos', ?_⟩
        rw [show index + (i + 1) = index + 1 + i by omega]
        exact hpos'
    | some c =>
      cases i with
      | zero => exact ⟨pos, rfl⟩
      | succ i =>
        obtain ⟨pos', hpos'⟩ := ih (index + 1) (pos + c.bytes.length) i
        refine ⟨pos', ?_⟩
        rw [show index + (i + 1) = index + 1 + i by omega]
        exact hpos'

end PoolForm

/-! ## Slots of a pool -/

namespace Pool

/-- The slot `i` of the pool holds the entry `c`. -/
def Populated (pool : Pool) (i : Int) (c : Constant) : Prop :=
  0 ≤ i ∧ pool.slots[i.toNat]? = some (some c)

/-- The pool is what lies between the windows: its slots, what they hold and what can be looked up. -/
structure LaidOut (w : Window) (pool : Pool) (w' : Window) : Prop where
  /-- The count is the number at the front of the window. -/
  declared : ∃ v, Datum.u2 w = .ok (pool.count, v)
  size : (pool.slots.size : Int) = pool.count.num
  first : 0 < pool.slots.size → pool.slots[0]? = some none
  unused : ∀ i, 1 ≤ i → i < pool.slots.size → (pool.slots[i]? = some none ↔
    ∃ c, pool.slots[i - 1]? = some (some c) ∧ (c.payload.tag = .long ∨ c.payload.tag = .double))
  entries : ∀ (i : Nat) (c : Constant), pool.slots[i]? = some (some c) →
    c.index = i ∧ c.tag.raw = c.payload.tag.code.toNat ∧ c.tag.name = c.payload.tag.name
  tiles : Tiles (w.pos + 2) (pool.constants.flatMap Constant.data) w'.pos
  found : ∀ (i : Int) (c : Constant), pool.get i = .ok c ↔ pool.Populated i c
  missing : ∀ i : Int, (¬ ∃ c, pool.Populated i c) →
    ∃ f, pool.get i = .error f ∧ f.kind = .danglingReference

/-- A pool that was read and named, by the layout that it was read from. -/
structure Renders (w : Window) (slots : List (Option ConstantForm)) (pool : Pool) (w' : Window) :
    Prop where
  legal : PoolForm.Legal slots
  after : w.After (PoolForm.bytes slots) w'
  count : pool.count = Datum.wordAt w.pos slots.length
  size : pool.slots.size = slots.length
  slot : ∃ name, ∀ i, ∃ pos, pool.slots[i]? =
    slots[i]?.map (Option.map fun form => (ConstantForm.place i pos form).under name)
  tiles : Tiles (w.pos + 2) (pool.constants.flatMap Constant.data) w'.pos

theorem renders_of_read {w w' : Window} {raw pool : Pool} (hread : read w = .ok (raw, w'))
    (hresolve : raw.resolve = .ok pool) : ∃ slots, Renders w slots pool w' := by
  obtain ⟨slots, hlegal, hafter, rfl⟩ := (read_reads _ _ _).1 hread
  obtain ⟨name, rfl, hname⟩ := resolve_ok (asRead_place hlegal w.pos) hresolve
  refine ⟨slots, hlegal, hafter, rfl, ?_, ⟨name, fun i => ?_⟩, ?_⟩
  · show (Array.map _ (PoolForm.placeSlots 0 (w.pos + 2) slots).toArray).size = slots.length
    rw [Array.size_map, List.size_toArray, length_placeSlots]
  · obtain ⟨pos, hpos⟩ := PoolForm.placeSlots_at slots 0 (w.pos + 2) i
    refine ⟨pos, ?_⟩
    show (Array.map _ (PoolForm.placeSlots 0 (w.pos + 2) slots).toArray)[i]? = _
    rw [Array.getElem?_map, List.getElem?_toArray, hpos, Nat.zero_add, Option.map_map,
      Option.map_comp_map]
    rfl
  · have hstop : w'.pos = w.pos + 2 + (PoolForm.slotBytes slots).length := by
      rw [hafter.pos]
      show w.pos + (Word.bytes 2 slots.length ++ PoolForm.slotBytes slots).length = _
      rw [List.length_append, Word.length_bytes, Nat.add_assoc]
    have htiles := (PoolForm.constants_spell hlegal hname).tiles
    rwa [Leaf.map_datum_flatMap Constant.map_datum_leaves, ← hstop] at htiles

namespace Renders

variable {w w' : Window} {slots : List (Option ConstantForm)} {pool : Pool}

theorem unused_iff (h : Renders w slots pool w') (i : Nat) :
    pool.slots[i]? = some none ↔ slots[i]? = some none := by
  obtain ⟨name, hslot⟩ := h.slot
  obtain ⟨pos, hpos⟩ := hslot i
  rw [hpos]
  rcases slots[i]? with - | - | form <;> simp

/-- An entry has the index of its slot, and its tag is that of its kind. -/
theorem entry (h : Renders w slots pool w') {i : Nat} {c : Constant}
    (hc : pool.slots[i]? = some (some c)) :
    ∃ form, slots[i]? = some (some form) ∧ c.payload.tag = form.tag ∧ c.index = i
      ∧ c.tag.raw = form.tag.code.toNat ∧ c.tag.name = form.tag.name := by
  obtain ⟨name, hslot⟩ := h.slot
  obtain ⟨pos, hpos⟩ := hslot i
  rw [hpos] at hc
  rcases hform : slots[i]? with - | - | form
  · simp [hform] at hc
  · simp [hform] at hc
  · obtain rfl : (ConstantForm.place i pos form).under name = c := by simpa [hform] using hc
    exact ⟨form, rfl, (Payload.tag_mapReferences _ _).trans (form.tag_payload _), rfl, rfl, rfl⟩

theorem populated_of_form (h : Renders w slots pool w') {i : Nat} {form : ConstantForm}
    (hform : slots[i]? = some (some form)) : ∃ c, pool.slots[i]? = some (some c) := by
  obtain ⟨name, hslot⟩ := h.slot
  obtain ⟨pos, hpos⟩ := hslot i
  exact ⟨(ConstantForm.place i pos form).under name, by rw [hpos, hform]; rfl⟩

theorem first (h : Renders w slots pool w') (c : Constant) : pool.slots[0]? ≠ some (some c) := by
  intro hc
  obtain ⟨form, hform, -⟩ := h.entry hc
  obtain hnone | hnone := h.legal.first_unused <;> rw [hnone] at hform <;> cases hform

theorem wide_iff (h : Renders w slots pool w') (i : Nat) :
    (∃ form, slots[i]? = some (some form) ∧ form.tag.isWide = true) ↔
      ∃ c, pool.slots[i]? = some (some c) ∧ (c.payload.tag = .long ∨ c.payload.tag = .double) := by
  have hwide : ∀ tag : Tag, tag.isWide = true ↔ tag = .long ∨ tag = .double := by
    intro tag
    cases tag <;> simp [Tag.isWide]
  constructor
  · rintro ⟨form, hform, htag⟩
    obtain ⟨c, hc⟩ := h.populated_of_form hform
    obtain ⟨form', hform', hkind, -⟩ := h.entry hc
    obtain rfl : form = form' := by simpa [hform] using hform'
    exact ⟨c, hc, by rwa [hkind, ← hwide]⟩
  · rintro ⟨c, hc, htag⟩
    obtain ⟨form, hform, hkind, -⟩ := h.entry hc
    exact ⟨form, hform, by rwa [hwide, ← hkind]⟩

theorem get_eq_ok (h : Renders w slots pool w') (i : Int) (c : Constant) :
    pool.get i = .ok c ↔ pool.Populated i c := by
  unfold get Populated
  rw [lookup_eq_ok, entry?_eq_some]
  refine and_congr_left fun hc => ⟨fun hpos => by omega, fun hnonneg => ?_⟩
  have hne : i ≠ 0 := by
    rintro rfl
    exact h.first c hc
  omega

theorem laidOut (h : Renders w slots pool w') : LaidOut w pool w' where
  declared := by
    have hafter : w.After (Word.bytes 2 slots.length ++ PoolForm.slotBytes slots) w' := h.after
    obtain ⟨v, hv, -⟩ := hafter.split
    exact ⟨v, (Datum.u2_reads _ _ _).2 ⟨slots.length, h.legal.1, hv, h.count⟩⟩
  size := by rw [h.size, h.count, Datum.num_wordAt _ h.legal.1]
  first := by
    intro hpos
    rw [h.size] at hpos
    rw [h.unused_iff]
    obtain hnone | hunused := h.legal.first_unused
    · simp only [List.getElem?_eq_none_iff] at hnone
      omega
    · exact hunused
  unused := by
    intro i hpos hi
    rw [h.size] at hi
    rw [h.unused_iff, h.legal.unused_iff hpos hi, h.wide_iff]
  entries := by
    intro i c hc
    obtain ⟨form, -, hkind, hindex, hraw, hname⟩ := h.entry hc
    rw [hkind]
    exact ⟨hindex, hraw, hname⟩
  tiles := h.tiles
  found := h.get_eq_ok
  missing := by
    intro i hmissing
    cases hget : pool.get i with
    | ok c => exact absurd ⟨c, (h.get_eq_ok i c).1 hget⟩ hmissing
    | error f =>
      refine ⟨f, rfl, ?_⟩
      unfold get lookup at hget
      split at hget
      · cases hget
      · cases hget
        rfl

end Renders

/-! ## The work on the pool -/

/-- **The pool is laid out slot by slot, and the window keeps its phase.** The work on the pool is
reading it and naming it. However it ends, the window stands after some of its bytes, in the phase it
had. A pool that it gives has a slot for each index below its count: slot 0 is unused, any other slot
is unused exactly when the one before it holds a long or a double, and the entries know their index and
their kind. The values of the entries tile the bytes after the count, and looking up an index finds
what its slot holds, or is a dangling reference. -/
theorem session_lays_out (w : Window) :
    session.outcome w = (read >>= fun pool => settled pool.resolve) w
      ∧ (session w).2.phase = w.phase
      ∧ (∃ bs, w.After bs (session w).2)
      ∧ ∀ pool, (session w).1 = .ok pool → pool.LaidOut w (session w).2 := by
  have hadvances := session_advances w
  refine ⟨by rw [outcome_session], ?_, hadvances, fun pool hpool => ?_⟩
  · obtain ⟨bs, hafter⟩ := hadvances
    exact hafter.phase
  · have hrun := Session.outcome_eq_ok.2 ⟨hpool, rfl⟩
    rw [outcome_session, Reading.bind_eq_ok] at hrun
    obtain ⟨raw, v, hread, hsettled⟩ := hrun
    obtain ⟨hresolve, rfl⟩ := Reading.settled_eq_ok.1 hsettled
    obtain ⟨slots, hrenders⟩ := renders_of_read hread hresolve
    exact hrenders.laidOut

/-- A long, an empty text, and a double in the last slot. -/
def withWide : List (Option ConstantForm) :=
  [none, some (.long 7), none, some (.utf8 []), some (.double 0)]

theorem session_lays_out_withWide :
    let w := Window.ofBytes (PoolForm.bytes withWide)
    ∃ pool, (session w).1 = .ok pool ∧ pool.slots.size = 5 ∧ pool.slots[2]? = some none
      ∧ pool.LaidOut w (session w).2 ∧ (session w).2 = ⟨.decode, 23, []⟩ := by
  intro w
  obtain ⟨-, -, -, hlaidOut⟩ := session_lays_out w
  have hrun : (session w).1.toOption.map (fun pool => (pool.slots.size, pool.slots[2]?)) =
      some (5, some none) ∧ (session w).2 = ⟨.decode, 23, []⟩ := by
    decide +kernel
  obtain ⟨hgives, hleaves⟩ := hrun
  cases hpool : (session w).1 with
  | error f =>
    rw [hpool] at hgives
    cases hgives
  | ok pool =>
    rw [hpool] at hgives
    obtain ⟨hsize, hsecond⟩ := Prod.mk.inj (Option.some.inj hgives)
    exact ⟨pool, rfl, hsize, hsecond, hlaidOut pool hpool, hleaves⟩

end Pool

end ClassAtlas

import ClassAtlas.Proofs.Naming

/-! # Naming with a ledger

Naming the entries in turn, each at most once, against the relation `Pool.Named`. While an entry
waits for the name of its basis it is marked as being visited; the entries so marked are those that
lead to the entry in hand, and meeting one of them again means a cycle of references.

* `Ledger.Sound`: every name in the ledger can be derived.
* `Ledger.Awaits`: every entry that is being visited leads to the entry in hand.
* `Ledger.Gains`: what the naming of one entry does to the ledger.
* `Pool.nameEntry_sound`, `Pool.nameEntry_complete`: a name that is found can be derived, and where
  a name can be derived the naming does not fail.
* `Pool.nameSlots_ok`, `Pool.nameSlots_error`: the same for a run over the slots.
* `Pool.resolve_iff_named`: which pools can be named, the names they get, and where the others fail.
-/

namespace ClassAtlas
set_option autoImplicit false

/-! ## Marks -/

namespace Ledger

theorem size_put (ledger : Ledger) (i : Nat) (m : Mark) : (ledger.put i m).size = ledger.size := by
  simp [put]

theorem mark_put_self {ledger : Ledger} {i : Nat} (m : Mark) (h : i < ledger.size) :
    (ledger.put i m).mark i = m := by
  simp [put, mark, Array.getD, h]

theorem mark_put_of_ne (ledger : Ledger) {i j : Nat} (m : Mark) (h : i ≠ j) :
    (ledger.put i m).mark j = ledger.mark j := by
  simp only [put, mark, Array.getD_eq_getD_getElem?, Array.getElem?_setIfInBounds_ne h]

theorem put_put (ledger : Ledger) (i : Nat) (m n : Mark) :
    (ledger.put i m).put i n = ledger.put i n := by
  simp [put]

theorem mark_blank {size i : Nat} (h : i < size) : (blank size).mark i = .unvisited := by
  simp [blank, mark, Array.getD, h]

/-- The ledger has a mark for each slot, and the names in it can be derived. -/
structure Sound (pool : Pool) (ledger : Ledger) : Prop where
  size : ledger.size = pool.slots.size
  named : ∀ (i : Nat) (s : String), ledger.mark i = .named s → pool.Derived i s

/-- Every entry that is being visited leads to the entry with index `i`. -/
def Awaits (pool : Pool) (ledger : Ledger) (i : Int) : Prop :=
  ∀ j : Nat, j < ledger.size → ledger.mark j = .visiting → Relation.TransGen pool.Refers j i

/-- No entry is being visited. -/
def Idle (ledger : Ledger) : Prop :=
  ∀ i : Nat, i < ledger.size → ledger.mark i ≠ .visiting

/-- What a naming does to a ledger: names stay, and the entries being visited are the same. -/
structure Extends (ledger after : Ledger) : Prop where
  size : after.size = ledger.size
  named : ∀ (i : Nat) (s : String), ledger.mark i = .named s → after.mark i = .named s
  visiting : ∀ i : Nat, after.mark i = .visiting ↔ ledger.mark i = .visiting

theorem Extends.refl (ledger : Ledger) : ledger.Extends ledger :=
  ⟨rfl, fun _ _ h => h, fun _ => Iff.rfl⟩

theorem Extends.trans {a b c : Ledger} (hab : a.Extends b) (hbc : b.Extends c) : a.Extends c :=
  ⟨hbc.size.trans hab.size, fun i s h => hbc.named i s (hab.named i s h),
    fun i => (hbc.visiting i).trans (hab.visiting i)⟩

theorem Sound.put {pool : Pool} {ledger : Ledger} (h : ledger.Sound pool) {i : Nat} {m : Mark}
    (hi : i < ledger.size) (hm : ∀ s, m = .named s → pool.Derived i s) :
    (ledger.put i m).Sound pool := by
  refine ⟨(size_put ledger i m).trans h.size, fun j s hj => ?_⟩
  by_cases he : i = j
  · subst he
    rw [mark_put_self m hi] at hj
    exact hm s hj
  · rw [mark_put_of_ne ledger m he] at hj
    exact h.named j s hj

/-- An entry is visited, its basis is named, and then the entry is named: seen from outside this is one
extension. -/
theorem Sound.visit {pool : Pool} {ledger : Ledger} (h : ledger.Sound pool) {i : Nat}
    (hi : i < ledger.size) : (ledger.put i .visiting).Sound pool :=
  h.put hi fun _ hs => nomatch hs
theorem Extends.put {ledger after : Ledger} {i : Nat} {s : String}
    (h : (ledger.put i .visiting).Extends after) (hi : ledger.mark i = .unvisited) :
    ledger.Extends (after.put i (.named s)) := by
  have hlt : i < after.size := by
    rw [h.size, size_put]
    exact lt_size_of_unvisited hi
  refine ⟨by rw [size_put, h.size, size_put], fun j t hj => ?_, fun j => ?_⟩
  · have hne : i ≠ j := by
      intro he
      rw [← he, hi] at hj
      cases hj
    rw [mark_put_of_ne after _ hne]
    exact h.named j t (by rw [mark_put_of_ne ledger _ hne]; exact hj)
  · by_cases he : i = j
    · subst he
      rw [mark_put_self _ hlt, hi]
      simp
    · rw [mark_put_of_ne after _ he, h.visiting, mark_put_of_ne ledger _ he]

theorem Idle.awaits {ledger : Ledger} (h : ledger.Idle) (pool : Pool) (i : Int) :
    ledger.Awaits pool i :=
  fun j hj hmark => absurd hmark (h j hj)

theorem Extends.idle {ledger after : Ledger} (hgrows : ledger.Extends after) (h : ledger.Idle) :
    after.Idle := by
  intro i hi hmark
  rw [hgrows.size] at hi
  exact h i hi ((hgrows.visiting i).1 hmark)

theorem Awaits.step {pool : Pool} {ledger : Ledger} {i j : Int} (h : ledger.Awaits pool i)
    (hi : (i.toNat : Int) = i) (hj : pool.Refers i j) :
    (ledger.put i.toNat .visiting).Awaits pool j := by
  intro k hk hmark
  by_cases he : i.toNat = k
  · rw [← he, hi]
    exact .single hj
  · rw [size_put] at hk
    rw [mark_put_of_ne ledger _ he] at hmark
    exact (h k hk hmark).tail hj

/-- The ledger `after` is `ledger` after the entry with index `i` has been found to have the name
`s`. -/
structure Gains (pool : Pool) (ledger after : Ledger) (i : Int) (s : String) : Prop where
  sound : after.Sound pool
  grows : ledger.Extends after
  marked : after.mark i.toNat = .named s
  derived : pool.Derived i s

theorem Gains.of_put {pool : Pool} {ledger after : Ledger} {i : Int} {s : String}
    (hi : (i.toNat : Int) = i) (hmark : ledger.mark i.toNat = .unvisited)
    (hsound : after.Sound pool) (hgrows : (ledger.put i.toNat .visiting).Extends after)
    (hs : pool.Derived i s) : Gains pool ledger (after.put i.toNat (.named s)) i s := by
  have hlt : i.toNat < after.size := by
    rw [hgrows.size, size_put]
    exact lt_size_of_unvisited hmark
  refine ⟨hsound.put hlt fun t ht => ?_, hgrows.put hmark, mark_put_self _ hlt, hs⟩
  cases ht
  rw [hi]
  exact hs

end Ledger

/-! ## One entry -/

namespace Pool

theorem lookup_eq_ok {pool : Pool} {i offset : Int} {c : Constant} :
    pool.lookup i offset = .ok c ↔ pool.entry? i = some c := by
  unfold lookup
  cases pool.entry? i with
  | none => simp
  | some c => simp

theorem refers_basis {pool : Pool} {i : Int} {c : Constant} {d : Datum}
    (hc : pool.entry? i = some c) (hd : c.payload.basis? = some d) : pool.Refers i d.num := by
  refine ⟨c, d, hc, ?_, rfl⟩
  unfold Constant.references
  cases hp : c.payload <;> rw [hp] at hd <;> cases hd <;> simp [Payload.references]

theorem toNat_of_populated {pool : Pool} {i : Int} {c : Constant} (h : pool.entry? i = some c) :
    (i.toNat : Int) = i := by
  have := (entry?_eq_some.1 h).1
  omega

theorem nameEntry_sound {pool : Pool} {i offset : Int} {ledger after : Ledger} {s : String}
    (hsound : ledger.Sound pool) (h : pool.nameEntry i offset ledger = .ok (s, after)) :
    ledger.Gains pool after i s := by
  fun_induction nameEntry pool i offset ledger generalizing s after with
  | case1 | case3 | case4 | case6 | case7 => cases h
  | case2 i offset ledger c hc name hmark =>
    cases h
    have hderived := hsound.named i.toNat name hmark
    rw [toNat_of_populated (lookup_eq_ok.1 hc)] at hderived
    exact ⟨hsound, .refl ledger, hmark, hderived⟩
  | case5 i offset ledger c hc hmark hbasis name hname =>
    cases h
    have hentry := lookup_eq_ok.1 hc
    have hvisit := hsound.visit (Ledger.lt_size_of_unvisited hmark)
    rw [← Ledger.put_put ledger i.toNat .visiting]
    exact .of_put (toNat_of_populated hentry) hmark hvisit (.refl _) (.base hentry hbasis hname)
  | case8 i offset ledger c hc hmark d hbasis basis mid hrec name hname ih =>
    cases h
    have hentry := lookup_eq_ok.1 hc
    have hvisit := hsound.visit (Ledger.lt_size_of_unvisited hmark)
    have hgains := ih hvisit hrec
    exact .of_put (toNat_of_populated hentry) hmark hgains.sound hgains.grows
      (.step hentry hbasis hgains.derived hname)

theorem Derived.entry {pool : Pool} {i : Int} {s : String} (h : pool.Derived i s) :
    ∃ c, pool.entry? i = some c := by
  cases h with
  | base entry _ _ | step entry _ _ _ => exact ⟨_, entry⟩

theorem Derived.compose_of_none {pool : Pool} {i : Int} {c : Constant} {s : String}
    (h : pool.Derived i s) (hc : pool.entry? i = some c) (hbasis : c.payload.basis? = none) :
    pool.compose "" c.payload = .ok s := by
  cases h with
  | base entry _ composed =>
    cases hc.symm.trans entry
    exact composed
  | step entry basis _ _ =>
    cases hc.symm.trans entry
    cases hbasis.symm.trans basis

theorem Derived.compose_of_some {pool : Pool} {i : Int} {c : Constant} {d : Datum} {s : String}
    (h : pool.Derived i s) (hc : pool.entry? i = some c) (hbasis : c.payload.basis? = some d) :
    ∃ b, pool.Derived d.num b ∧ pool.compose b c.payload = .ok s := by
  cases h with
  | base entry basis _ =>
    cases hc.symm.trans entry
    cases hbasis.symm.trans basis
  | @step _ _ _ b _ entry basis named composed =>
    cases hc.symm.trans entry
    cases hbasis.symm.trans basis
    exact ⟨b, named, composed⟩

theorem nameEntry_complete {pool : Pool} {i offset : Int} {ledger : Ledger} {f : Fault}
    {s : String} (hs : pool.Derived i s) (hground : pool.Grounded i)
    (hsound : ledger.Sound pool) (hawaits : ledger.Awaits pool i) :
    pool.nameEntry i offset ledger ≠ .error f := by
  intro h
  fun_induction nameEntry pool i offset ledger generalizing s with
  | case2 | case5 | case8 => cases h
  | case1 i offset ledger f' hlookup =>
    obtain ⟨c, hc⟩ := hs.entry
    rw [lookup_eq_ok.2 hc] at hlookup
    cases hlookup
  | case3 i offset ledger c hc hmark =>
    have hentry := lookup_eq_ok.1 hc
    have hlt : i.toNat < ledger.size := by
      rw [hsound.size]
      exact (Array.getElem?_eq_some_iff.1 (entry?_eq_some.1 hentry).2).1
    have hcycle := hawaits i.toNat hlt hmark
    rw [toNat_of_populated hentry] at hcycle
    exact hground.acyclic hcycle
  | case4 i offset ledger c hc hmark hbasis f' hcompose =>
    rw [hs.compose_of_none (lookup_eq_ok.1 hc) hbasis] at hcompose
    cases hcompose
  | case6 i offset ledger c hc hmark d hbasis f' hrec ih =>
    have hentry := lookup_eq_ok.1 hc
    have hrefers := refers_basis hentry hbasis
    obtain ⟨b, hb, -⟩ := hs.compose_of_some hentry hbasis
    have hvisit := hsound.visit (Ledger.lt_size_of_unvisited hmark)
    exact ih hb (hground.of_refers hrefers) hvisit
      (hawaits.step (toNat_of_populated hentry) hrefers) (hrec.trans h)
  | case7 i offset ledger c hc hmark d hbasis basis mid hrec f' hcompose ih =>
    obtain ⟨b, hb, hs'⟩ := hs.compose_of_some (lookup_eq_ok.1 hc) hbasis
    have hvisit := hsound.visit (Ledger.lt_size_of_unvisited hmark)
    have hgains := nameEntry_sound hvisit hrec
    rw [hgains.derived.unique hb, hs'] at hcompose
    cases hcompose

/-! ## Faults of a naming

A fault while an entry is being named does not name a part of the file; that is left to the run over
the slots. -/

def Unplaced {α : Type} (r : Except Fault α) : Prop :=
  ∀ f, r = .error f → f.path = []

theorem unplaced_ok {α : Type} (a : α) : Unplaced (.ok a : Except Fault α) :=
  fun _ h => nomatch h

theorem Unplaced.bind {α β : Type} {r : Except Fault α} {k : α → Except Fault β}
    (hr : Unplaced r) (hk : ∀ a, Unplaced (k a)) : Unplaced (r >>= k) := by
  cases r with
  | error f => exact fun f' h => hr f' (by simpa [Bind.bind, Except.bind] using h)
  | ok a => exact hk a

theorem Unplaced.map {α β : Type} {r : Except Fault α} (hr : Unplaced r) (g : α → β) :
    Unplaced (r.map g) := by
  cases r with
  | error f => exact fun f' h => hr f' (by simpa [Except.map] using h)
  | ok a => exact unplaced_ok (g a)

theorem unplaced_lookup (pool : Pool) (i offset : Int) : Unplaced (pool.lookup i offset) := by
  unfold lookup
  cases pool.entry? i with
  | some c => exact unplaced_ok c
  | none =>
    intro f h
    cases h
    rfl

theorem unplaced_textOf (pool : Pool) (d : Datum) : Unplaced (pool.textOf d) := by
  refine (unplaced_lookup pool _ _).bind fun c f h => ?_
  cases hp : c.payload <;> rw [hp] at h <;> cases h <;> rfl

theorem unplaced_declaration (desc name : String) :
    Unplaced (Descriptor.declaration desc name) := by
  intro f h
  simp only [Descriptor.declaration] at h
  cases hr : Descriptor.format (Text.encode desc) (Text.encode name) with
  | ok r =>
    rw [hr] at h
    cases h
  | error d =>
    rw [hr] at h
    cases h
    rfl

theorem unplaced_memberName (pool : Pool) (owner : String) (d : Datum) :
    Unplaced (pool.memberName owner d) := by
  refine Unplaced.bind ?_ fun r => unplaced_declaration _ _
  refine (unplaced_lookup pool _ _).bind fun c => ?_
  cases hp : c.payload with
  | nameAndType name descriptor =>
    exact (unplaced_textOf pool _).bind fun n => (unplaced_textOf pool _).bind fun _ => unplaced_ok _
  | _ =>
    intro f h
    cases h
    rfl

theorem unplaced_compose (pool : Pool) (basis : String) (p : Payload) :
    Unplaced (pool.compose basis p) := by
  cases p with
  | classInfo d => exact (unplaced_textOf pool d).map Descriptor.dottedName
  | string d | moduleInfo d | packageInfo d => exact unplaced_textOf pool d
  | nameAndType name descriptor =>
    exact (unplaced_textOf pool _).bind fun n =>
      (unplaced_textOf pool _).bind fun t => unplaced_declaration _ _
  | methodType d => exact (unplaced_textOf pool _).bind fun t => unplaced_declaration _ _
  | fieldref | methodref | interfaceMethodref => exact unplaced_memberName pool _ _
  | _ => exact unplaced_ok _

theorem nameEntry_unplaced {pool : Pool} {i offset : Int} {ledger : Ledger} {f : Fault}
    (h : pool.nameEntry i offset ledger = .error f) : f.path = [] := by
  fun_induction nameEntry pool i offset ledger with
  | case2 | case5 | case8 => cases h
  | case1 i offset ledger f' hlookup =>
    cases h
    exact unplaced_lookup pool _ _ _ hlookup
  | case3 =>
    cases h
    rfl
  | case4 i offset ledger c hc hmark hbasis f' hcompose =>
    cases h
    exact unplaced_compose pool _ _ _ hcompose
  | case6 i offset ledger c hc hmark d hbasis f' hrec ih =>
    cases h
    exact ih hrec
  | case7 i offset ledger c hc hmark d hbasis basis mid hrec f' hcompose ih =>
    cases h
    exact unplaced_compose pool _ _ _ hcompose

/-! ## All entries -/

theorem nameSlots_ok {pool : Pool} {slots : List (Option Constant)} {ledger after : Ledger}
    (hsound : ledger.Sound pool) (h : pool.nameSlots slots ledger = .ok after) :
    after.Sound pool ∧ ledger.Extends after
      ∧ ∀ c, some c ∈ slots → ∃ s, after.mark c.index = .named s := by
  fun_induction nameSlots pool slots ledger with
  | case1 ledger =>
    cases h
    exact ⟨hsound, .refl _, by simp⟩
  | case2 slots ledger ih =>
    obtain ⟨hafter, hgrows, hnamed⟩ := ih hsound h
    exact ⟨hafter, hgrows, by simpa using hnamed⟩
  | case3 => cases h
  | case4 c slots ledger s mid hentry ih =>
    have hgains := nameEntry_sound hsound hentry
    obtain ⟨hafter, hgrows, hnamed⟩ := ih hgains.sound h
    refine ⟨hafter, hgains.grows.trans hgrows, fun c' hc' => ?_⟩
    rcases List.mem_cons.1 hc' with hc' | hc'
    · cases hc'
      exact ⟨s, hgrows.named c.index s hgains.marked⟩
    · exact hnamed c' hc'

theorem nameSlots_error {pool : Pool} {slots : List (Option Constant)} {ledger : Ledger} {f : Fault}
    (hground : ∀ i s, pool.Derived i s → pool.Grounded i) (hsound : ledger.Sound pool)
    (hidle : ledger.Idle) (h : pool.nameSlots slots ledger = .error f) :
    ∃ before c rest, slots = before ++ some c :: rest
      ∧ (∀ c', some c' ∈ before → ∃ s, pool.Derived c'.index s)
      ∧ (∀ s, ¬ pool.Derived c.index s) ∧ f.path = ["#" ++ toString c.index] := by
  fun_induction nameSlots pool slots ledger with
  | case1 => cases h
  | case2 slots ledger ih =>
    obtain ⟨before, c, rest, rfl, hbefore, hc, hpath⟩ := ih hsound hidle h
    exact ⟨none :: before, c, rest, rfl, by simpa using hbefore, hc, hpath⟩
  | case3 c slots ledger f' hentry =>
    cases h
    refine ⟨[], c, slots, rfl, by simp, fun s hs => ?_, ?_⟩
    · exact nameEntry_complete hs (hground _ _ hs) hsound (hidle.awaits pool _) hentry
    · rw [Fault.within, nameEntry_unplaced hentry]
  | case4 c slots ledger s mid hentry ih =>
    have hgains := nameEntry_sound hsound hentry
    obtain ⟨before, c', rest, rfl, hbefore, hc', hpath⟩ :=
      ih hgains.sound (hgains.grows.idle hidle) h
    refine ⟨some c :: before, c', rest, rfl, fun c'' hc'' => ?_, hc', hpath⟩
    rcases List.mem_cons.1 hc'' with hc'' | hc''
    · cases hc''
      exact ⟨s, hgains.derived⟩
    · exact hbefore c'' hc''

theorem sound_blank (pool : Pool) : (Ledger.blank pool.slots.size).Sound pool := by
  refine ⟨by simp [Ledger.blank], fun i s h => ?_⟩
  by_cases hi : i < pool.slots.size
  · rw [Ledger.mark_blank hi] at h
    cases h
  · simp [Ledger.blank, Ledger.mark, Array.getD, hi] at h

theorem idle_blank (size : Nat) : (Ledger.blank size).Idle := by
  intro i hi
  rw [Ledger.mark_blank (by simpa [Ledger.blank] using hi)]
  decide

theorem withName_eq_under (ledger : Ledger) (c : Constant) :
    withName ledger c = c.under fun i => (ledger.mark i.toNat).name := by
  simp [withName, Constant.under]

theorem AsRead.index_eq {pool : Pool} (h : pool.AsRead) {i : Int} {c : Constant}
    (hc : pool.entry? i = some c) : (c.index : Int) = i ∧ some c ∈ pool.slots.toList := by
  obtain ⟨hi, hslot⟩ := entry?_eq_some.1 hc
  have hindex := (h.indexed _ _ hslot).2
  refine ⟨by omega, ?_⟩
  exact List.mem_of_getElem? (by simpa using hslot)

theorem AsRead.entry_of_mem {pool : Pool} (h : pool.AsRead) {c : Constant} (hc : c ∈ pool.constants) :
    pool.entry? c.index = some c := by
  obtain ⟨slot, hslot, rfl⟩ := List.mem_filterMap.1 hc
  obtain ⟨i, hi⟩ := List.mem_iff_getElem?.1 hslot
  rw [Array.getElem?_toList] at hi
  obtain ⟨hpos, hindex⟩ := h.indexed i c hi
  refine entry?_eq_some.2 ⟨by omega, ?_⟩
  rw [hindex, Int.toNat_natCast]
  exact hi

/-- In a pool where every entry has a name, references lead to entries. -/
theorem AsRead.entry_of_reference {pool : Pool} (h : pool.AsRead) {name : Int → String}
    (hname : ∀ i c, pool.entry? i = some c → pool.Named i (name i)) {c : Constant} {d : Datum}
    (hc : c ∈ pool.constants) (hd : d ∈ c.references) : ∃ c', pool.entry? d.num = some c' := by
  have hentry := h.entry_of_mem hc
  exact ((hname _ _ hentry).grounded.of_refers ⟨c, d, hentry, hd, rfl⟩).entry

theorem resolve_ok {pool pool' : Pool} (h : pool.AsRead) (hresolve : pool.resolve = .ok pool') :
    ∃ name : Int → String, pool' = pool.under name
      ∧ ∀ i c, pool.entry? i = some c → pool.Named i (name i) := by
  obtain ⟨ledger, hrun, rfl⟩ := resolve_eq_ok.1 hresolve
  obtain ⟨hsound, -, hnamed⟩ := nameSlots_ok (sound_blank pool) hrun
  refine ⟨fun i => (ledger.mark i.toNat).name, ?_, fun i c hc => ?_⟩
  · simp only [under, funext (withName_eq_under ledger)]
  · obtain ⟨rfl, hmem⟩ := h.index_eq hc
    obtain ⟨s, hs⟩ := hnamed c hmem
    show pool.Named c.index (ledger.mark (c.index : Int).toNat).name
    rw [Int.toNat_natCast, hs]
    exact (hsound.named c.index s hs).named h

theorem resolve_error {pool : Pool} {f : Fault} (h : pool.AsRead)
    (hresolve : pool.resolve = .error f) :
    ∃ (i : Nat) (c : Constant), pool.entry? i = some c ∧ (∀ s, ¬ pool.Named i s)
      ∧ (∀ (j : Int) c', j < i → pool.entry? j = some c' → ∃ s, pool.Named j s)
      ∧ f.path = ["#" ++ toString i] := by
  have hrun : pool.nameSlots pool.slots.toList (Ledger.blank pool.slots.size) = .error f := by
    unfold resolve at hresolve
    cases hrun : pool.nameSlots pool.slots.toList (Ledger.blank pool.slots.size) with
    | ok ledger =>
      rw [hrun] at hresolve
      cases hresolve
    | error f' =>
      rw [hrun] at hresolve
      cases hresolve
      rfl
  obtain ⟨before, c, rest, hslots, hbefore, hc, hpath⟩ := nameSlots_error
    (fun i s hs => (hs.named h).grounded) (sound_blank pool) (idle_blank _) hrun
  have hat : ∀ k : Nat, pool.slots[k]? = (before ++ some c :: rest)[k]? := by
    intro k
    rw [← hslots, Array.getElem?_toList]
  have hslot : pool.slots[before.length]? = some (some c) := by
    rw [hat]
    simp
  obtain ⟨hpos, hindex⟩ := h.indexed _ _ hslot
  refine ⟨c.index, c, ?_, fun s hs => hc s (hs.derived h), fun j c' hj hc' => ?_, hpath⟩
  · refine entry?_eq_some.2 ⟨by omega, ?_⟩
    rw [Int.toNat_natCast, hindex]
    exact hslot
  · obtain ⟨rfl, -⟩ := h.index_eq hc'
    have hlt : c'.index < before.length := by omega
    have hslot' := (entry?_eq_some.1 hc').2
    rw [Int.toNat_natCast, hat, List.getElem?_append_left hlt] at hslot'
    obtain ⟨s, hs⟩ := hbefore c' (List.mem_of_getElem? hslot')
    exact ⟨s, hs.named h⟩

/-- A pool can be named if and only if every entry has a derivation. No entry has two names; in a
named pool every entry and every reference has the name that is derived for its index, and no entry
refers to itself. In a pool that cannot be named, the fault tells the first entry without a name. -/
theorem resolve_iff_named {w w' : Window} {pool : Pool} (h : read w = .ok (pool, w')) :
    ((∃ pool', pool.resolve = .ok pool') ↔ ∀ i c, pool.entry? i = some c → ∃ s, pool.Named i s)
      ∧ (∀ i s t, pool.Named i s → pool.Named i t → s = t)
      ∧ (∀ pool', pool.resolve = .ok pool' →
        (∃ name : Int → String, pool' = pool.under name
          ∧ ∀ i c, pool.entry? i = some c → pool.Named i (name i)
            ∧ ∀ d ∈ c.references, ∃ c', pool.entry? d.num = some c' ∧ pool.Named d.num (name d.num))
        ∧ ∀ i, ¬ Relation.TransGen pool.Refers i i)
      ∧ ∀ f, pool.resolve = .error f →
        ∃ (i : Nat) (c : Constant), pool.entry? i = some c ∧ (∀ s, ¬ pool.Named i s)
          ∧ (∀ (j : Int) c', j < i → pool.entry? j = some c' → ∃ s, pool.Named j s)
          ∧ f.path = ["#" ++ toString i] := by
  have hread := asRead_of_read h
  refine ⟨⟨?_, fun hall => ?_⟩, fun i s t hs ht => ?_, fun pool' hresolve => ?_, fun f hresolve => ?_⟩
  · rintro ⟨pool', hresolve⟩ i c hc
    obtain ⟨name, -, hname⟩ := resolve_ok hread hresolve
    exact ⟨name i, hname i c hc⟩
  · cases hresolve : pool.resolve with
    | ok pool' => exact ⟨pool', rfl⟩
    | error f =>
      obtain ⟨i, c, hc, hnone, -⟩ := resolve_error hread hresolve
      obtain ⟨s, hs⟩ := hall i c hc
      exact absurd hs (hnone s)
  · exact (hs.derived hread).unique (ht.derived hread)
  · obtain ⟨name, hpool, hname⟩ := resolve_ok hread hresolve
    refine ⟨⟨name, hpool, fun i c hc => ⟨hname i c hc, fun d hd => ?_⟩⟩, fun i hcycle => ?_⟩
    · have hground := (hname i c hc).grounded.of_refers ⟨c, d, hc, hd, rfl⟩
      obtain ⟨c', hc'⟩ := hground.entry
      exact ⟨c', hc', hname d.num c' hc'⟩
    · obtain ⟨c, hc⟩ := entry_of_refers hcycle
      exact (hname i c hc).grounded.acyclic hcycle
  · exact resolve_error hread hresolve

/-- A class, its name, and two method handles for each other. -/
def looped : List (Option ConstantForm) :=
  [none, some (.classInfo 2), some (.utf8 [0x41]), some (.methodHandle 5 4), some (.methodHandle 6 3)]

theorem read_looped : read (Window.ofBytes (PoolForm.bytes looped))
    = .ok (PoolForm.place 0 looped, ⟨.decode, (PoolForm.bytes looped).length, []⟩) := by
  have hslots : PoolForm.Slotted looped.tail :=
    .narrow (by decide) rfl (.narrow (by decide) rfl (.narrow (by decide) rfl
      (.narrow (by decide) rfl .nil)))
  refine (read_reads _ _ _).2 ⟨looped, ⟨by decide, .inr ⟨_, rfl, hslots⟩⟩, ⟨?_, ?_, rfl⟩, rfl⟩
  · exact (List.append_nil _).symm
  · exact (Nat.zero_add _).symm

theorem resolve_iff_named_looped :
    read (Window.ofBytes (PoolForm.bytes looped))
        = .ok (PoolForm.place 0 looped, ⟨.decode, (PoolForm.bytes looped).length, []⟩)
      ∧ ∀ pool', (PoolForm.place 0 looped).resolve ≠ .ok pool' := by
  refine ⟨read_looped, fun pool' hresolve => ?_⟩
  have hacyclic := ((resolve_iff_named read_looped).2.2.1 pool' hresolve).2 3
  have hthere : (PoolForm.place 0 looped).Refers 3 4 :=
    ⟨(ConstantForm.methodHandle 5 4).place 3 9, Datum.wordAt 11 4, by decide +kernel,
      by decide +kernel, by decide +kernel⟩
  have hback : (PoolForm.place 0 looped).Refers 4 3 :=
    ⟨(ConstantForm.methodHandle 6 3).place 4 13, Datum.wordAt 15 3, by decide +kernel,
      by decide +kernel, by decide +kernel⟩
  exact hacyclic (.tail (.single hthere) hback)

end Pool

end ClassAtlas

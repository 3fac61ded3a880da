import ClassAtlas.Fault.Registry

/-! # Errors and their causes

An error that passes outwards through the parts of a file gathers a path and stays the error it was:
the outermost fault of its chain records the parts, the last one first, every other error is left as
it is, and no comparison can tell. What a comparison finds in a chain is the target itself or a fault
of its kind, and of its phase if it has one.

* `Registry.InChain err i`: error `i` is `err`, its cause, the cause of that, and so on.
* `Registry.Outermost err i f`: error `i` is the fault of the chain that all others lie below.
* `Registry.is_iff`: what a comparison finds, without a walk.
* `Registry.Alike`: two registries whose errors have the same causes, kinds and phases; no comparison
  tells them apart (`Alike.is_eq`).
* `Registry.encloseAll_alike`, `Registry.errors_encloseAll`: what a run of segments leaves and what it
  changes.
* `Registry.chain_enclose`: the change in place is `Chain.within` to whoever looks at the chain.
* `Registry.encloseAll_exact`: an error that passed through any number of parts.
-/

namespace ClassAtlas
set_option autoImplicit false

/-! ## One fault -/

namespace Fault

/-- A pattern without a phase asks for a kind, and any other one for both. -/
theorem fits_iff {f : Fault} {p : Pattern} :
    f.fits p = true ↔ f.kind = p.kind ∧ (p.phase ≠ .unspecified → f.phase = p.phase) := by
  unfold fits
  by_cases h : p.phase = .unspecified
  · simp [h]
  · simp [h, and_comm]

/-- A fault is what it asks for. -/
theorem fits_pattern (f : Fault) : f.fits f.pattern = true := by
  rw [fits_iff]
  exact ⟨rfl, fun _ => rfl⟩

theorem fits_congr {f g : Fault} (h : f.pattern = g.pattern) (p : Pattern) :
    f.fits p = g.fits p := by
  obtain ⟨hkind, hphase⟩ := Pattern.mk.inj h
  simp only [fits, hkind, hphase]

end Fault

@[simp] theorem KeptError.pattern_extend (segment : String) (e : KeptError) :
    (e.extend segment).link.fault?.map Fault.pattern = e.link.fault?.map Fault.pattern := by
  obtain ⟨link, cause⟩ := e
  cases link with
  | fault f => rfl
  | note text => rfl

namespace Link

theorem fits_iff {link : Link} {p : Pattern} :
    link.fits p = true ↔ ∃ f, link.fault? = some f ∧ f.fits p = true := by
  cases link with
  | fault f => simp [fits, fault?]
  | note text => simp [fits, fault?]

theorem eq_of_fault? {link : Link} {f : Fault} (h : link.fault? = some f) : link = .fault f := by
  cases link with
  | fault g => cases h; rfl
  | note text => cases h

end Link

/-- The segments stand in front of the path, the last one first. -/
theorem KeptError.foldl_extend (segments : List String) (f : Fault) (cause : Option Nat) :
    segments.foldl (fun e segment => extend segment e) ⟨.fault f, cause⟩ =
      ⟨.fault { f with path := segments.reverse ++ f.path }, cause⟩ := by
  induction segments generalizing f with
  | nil => rfl
  | cons segment segments ih =>
    rw [List.foldl_cons]
    have hstep : KeptError.extend segment ⟨.fault f, cause⟩ = ⟨.fault (f.within segment), cause⟩ := rfl
    rw [hstep, ih]
    simp [Fault.within]

namespace Registry

variable {r r' : Registry} {err : Option Nat} {id i j : Nat}

/-! ## Chains -/

/-- An error, its cause, the cause of that, and so on, until there is none. -/
@[elab_as_elim]
theorem cause_induction (r : Registry) {motive : Option Nat → Prop} (nothing : motive none)
    (kept : ∀ id, motive (r.cause? id) → motive (some id)) (err : Option Nat) : motive err := by
  cases err with
  | none => exact nothing
  | some id =>
    induction id using Nat.strongRecOn with
    | ind id ih =>
      apply kept
      cases h : r.cause? id with
      | none => exact nothing
      | some cause => exact ih cause (r.cause?_lt h)

/-- Error `i` is in the chain of `err`: it is that error, or in the chain of its cause. -/
inductive InChain (r : Registry) : Option Nat → Nat → Prop
  | self (i : Nat) : InChain r (some i) i
  | cause {id i : Nat} (h : InChain r (r.cause? id) i) : InChain r (some id) i

theorem inChain_some : r.InChain (some id) i ↔ i = id ∨ r.InChain (r.cause? id) i := by
  constructor
  · intro h
    cases h with
    | self => exact .inl rfl
    | cause h => exact .inr h
  · intro h
    cases h with
    | inl h => rw [h]; exact .self id
    | inr h => exact .cause h

/-- Causes were kept before. -/
theorem InChain.lt (h : r.InChain (r.cause? id) i) : i < id := by
  induction id using Nat.strongRecOn with
  | ind id ih =>
    cases hc : r.cause? id with
    | none => rw [hc] at h; cases h
    | some cause =>
      rw [hc] at h
      have hlt := r.cause?_lt hc
      obtain rfl | hbelow := inChain_some.1 h
      · exact hlt
      · exact Nat.lt_trans (ih cause hlt hbelow) hlt

theorem InChain.le (h : r.InChain (some id) i) : i ≤ id := by
  obtain rfl | hbelow := inChain_some.1 h
  · exact Nat.le_refl i
  · exact Nat.le_of_lt hbelow.lt

theorem trail_eq (r : Registry) (id : Nat) :
    r.trail id = id :: (r.cause? id).elim [] r.trail := by
  rw [trail]
  split
  · rename_i cause h
    simp only [h, Option.elim_some]
  · rename_i h
    simp only [h, Option.elim_none]

/-- The walk along the causes meets the errors of the chain. -/
theorem mem_walk (r : Registry) (err : Option Nat) :
    i ∈ err.elim [] r.trail ↔ r.InChain err i := by
  induction err using r.cause_induction with
  | nothing =>
    simp only [Option.elim_none, List.not_mem_nil, false_iff]
    intro h
    cases h
  | kept id ih =>
    rw [Option.elim_some, trail_eq, List.mem_cons, ih, inChain_some]

theorem mem_trail : i ∈ r.trail id ↔ r.InChain (some id) i :=
  r.mem_walk (some id)

/-! ## The outermost fault -/

/-- Error `i` is the fault `f`, and all faults in the chain of `err` are in the chain of it. -/
structure Outermost (r : Registry) (err : Option Nat) (i : Nat) (f : Fault) : Prop where
  inChain : r.InChain err i
  fault : r.faultAt? i = some f
  above : ∀ j, r.InChain err j → (r.faultAt? j).isSome → r.InChain (some i) j

theorem Outermost.unique {f g : Fault} (hi : r.Outermost err i f) (hj : r.Outermost err j g) :
    i = j := by
  have hle : j ≤ i := (hi.above j hj.inChain (by simp [hj.fault])).le
  have hge : i ≤ j := (hj.above i hi.inChain (by simp [hi.fault])).le
  omega

theorem fault?_eq (r : Registry) (id : Nat) :
    r.fault? id = if (r.faultAt? id).isSome then some id else (r.cause? id).bind r.fault? := by
  rw [fault?, trail_eq, List.find?_cons]
  cases (r.faultAt? id).isSome with
  | true => rfl
  | false =>
    cases r.cause? id with
    | none => rfl
    | some cause => rfl

/-- The search along a chain stops at its outermost fault. -/
theorem outermost_of_fault? (h : err.bind r.fault? = some i) : ∃ f, r.Outermost err i f := by
  induction err using r.cause_induction with
  | nothing => cases h
  | kept id ih =>
    rw [Option.bind_some, fault?_eq] at h
    cases hf : r.faultAt? id with
    | some f =>
      rw [hf] at h
      cases h
      exact ⟨f, .self _, hf, fun j hj _ => hj⟩
    | none =>
      rw [hf] at h
      obtain ⟨f, hout⟩ := ih h
      refine ⟨f, .cause hout.inChain, hout.fault, ?_⟩
      intro j hj hfault
      obtain rfl | hbelow := inChain_some.1 hj
      · rw [hf] at hfault
        cases hfault
      · exact hout.above j hbelow hfault

theorem faultAt?_eq_none (h : err.bind r.fault? = none) (hj : r.InChain err j) :
    r.faultAt? j = none := by
  induction err using r.cause_induction with
  | nothing => cases hj
  | kept id ih =>
    rw [Option.bind_some, fault?_eq] at h
    cases hf : r.faultAt? id with
    | some f => rw [hf] at h; cases h
    | none =>
      rw [hf] at h
      obtain rfl | hbelow := inChain_some.1 hj
      · exact hf
      · exact ih h hbelow

/-- The search has no result in a chain of notes, and in no other one. -/
theorem fault?_eq_none_iff :
    err.bind r.fault? = none ↔ ∀ j, r.InChain err j → r.faultAt? j = none := by
  constructor
  · intro h j hj
    exact faultAt?_eq_none h hj
  · intro hnotes
    cases h : err.bind r.fault? with
    | none => rfl
    | some i =>
      obtain ⟨f, hout⟩ := outermost_of_fault? h
      have hnote := hnotes i hout.inChain
      rw [hout.fault] at hnote
      cases hnote

theorem Outermost.fault?_eq {f : Fault} (h : r.Outermost err i f) : err.bind r.fault? = some i := by
  cases hsearch : err.bind r.fault? with
  | none =>
    have hnote := faultAt?_eq_none hsearch h.inChain
    rw [h.fault] at hnote
    cases hnote
  | some k =>
    obtain ⟨g, hk⟩ := outermost_of_fault? hsearch
    rw [hk.unique h]

/-! ## Comparisons -/

/-- Some fault in the chain of `err` fits the pattern. -/
def HasFault (r : Registry) (err : Option Nat) (p : Pattern) : Prop :=
  ∃ j f, r.InChain err j ∧ r.faultAt? j = some f ∧ f.fits p = true

/-- What the target asks of a fault, unless it is a note or no error. -/
def pattern? (r : Registry) : Target → Option Pattern
  | .nothing => none
  | .kept id => (r.faultAt? id).map Fault.pattern
  | .fault p => some p

theorem isA_iff {p : Pattern} : r.isA id p = true ↔ r.HasFault (some id) p := by
  rw [isA, Chain.isA, List.any_eq_true]
  constructor
  · intro ⟨link, hlink, hfits⟩
    obtain ⟨j, hj, hat⟩ := List.mem_filterMap.1 hlink
    obtain ⟨f, hf, hfits⟩ := Link.fits_iff.1 hfits
    have hfault : r.faultAt? j = some f := by rw [faultAt?, hat, Option.bind_some, hf]
    exact ⟨j, f, mem_trail.1 hj, hfault, hfits⟩
  · intro ⟨j, f, hj, hfault, hfits⟩
    obtain ⟨link, hat, hf⟩ := Option.bind_eq_some_iff.1 hfault
    have hmem : link ∈ r.chain id := List.mem_filterMap.2 ⟨j, mem_trail.2 hj, hat⟩
    exact ⟨link, hmem, Link.fits_iff.2 ⟨f, hf, hfits⟩⟩

theorem isSame_iff {target : Nat} :
    r.isSame id target = true ↔ r.InChain (some id) target
      ∨ ∃ p, r.pattern? (.kept target) = some p ∧ r.HasFault (some id) p := by
  rw [isSame, Bool.or_eq_true, List.contains_iff_mem, mem_trail]
  cases hf : r.faultAt? target with
  | none => simp [pattern?, hf]
  | some f => simp [pattern?, hf, isA_iff]

/-- A comparison finds no error in no error, the target itself, or a fault that fits it. -/
theorem is_iff {target : Target} :
    r.is err target = true ↔ (err = none ∧ target = .nothing)
      ∨ (∃ id, target = .kept id ∧ r.InChain err id)
      ∨ ∃ p, r.pattern? target = some p ∧ r.HasFault err p := by
  cases err with
  | none =>
    have hempty : ∀ p, ¬ r.HasFault none p := by
      intro p ⟨j, f, hj, _⟩
      cases hj
    have hnone : ∀ id, ¬ r.InChain none id := fun id h => nomatch h
    cases target with
    | nothing => simp [is]
    | kept target => simp [is, hempty, hnone]
    | fault p => simp [is, hempty]
  | some id =>
    cases target with
    | nothing => simp [is, pattern?]
    | kept target => simp [is, isSame_iff]
    | fault p => simp [is, pattern?, isA_iff]

/-- For a fault, being in the chain is one way to be fitted by it. -/
theorem is_iff_hasFault {target : Target} {p : Pattern} (hp : r.pattern? target = some p) :
    r.is err target = true ↔ r.HasFault err p := by
  rw [is_iff]
  constructor
  · intro h
    obtain ⟨-, rfl⟩ | ⟨id, rfl, hid⟩ | ⟨q, hq, hfault⟩ := h
    · cases hp
    · obtain ⟨f, hf, rfl⟩ := Option.map_eq_some_iff.1 hp
      exact ⟨id, f, hid, hf, f.fits_pattern⟩
    · rw [hp] at hq
      cases hq
      exact hfault
  · intro h
    exact .inr (.inr ⟨p, hp, h⟩)

/-! ## What comparisons depend on -/

/-- Every error has the same cause in both registries, and is a fault of the same kind and phase in
both or a note in both. -/
structure Alike (r r' : Registry) : Prop where
  cause : ∀ id, r'.cause? id = r.cause? id
  pattern : ∀ id, (r'.faultAt? id).map Fault.pattern = (r.faultAt? id).map Fault.pattern

namespace Alike

theorem refl (r : Registry) : Alike r r :=
  ⟨fun _ => rfl, fun _ => rfl⟩

theorem symm (h : Alike r r') : Alike r' r :=
  ⟨fun id => (h.cause id).symm, fun id => (h.pattern id).symm⟩

theorem trans {r'' : Registry} (h : Alike r r') (h' : Alike r' r'') : Alike r r'' :=
  ⟨fun id => (h'.cause id).trans (h.cause id), fun id => (h'.pattern id).trans (h.pattern id)⟩

theorem inChain (h : Alike r r') (hi : r.InChain err i) : r'.InChain err i := by
  induction hi with
  | self i => exact .self i
  | cause _ ih =>
    rw [← h.cause] at ih
    exact .cause ih

theorem isSome_faultAt? (h : Alike r r') (id : Nat) :
    (r'.faultAt? id).isSome = (r.faultAt? id).isSome := by
  have hpattern := congrArg Option.isSome (h.pattern id)
  simpa only [Option.isSome_map] using hpattern

theorem fault? (h : Alike r r') (err : Option Nat) :
    err.bind r'.fault? = err.bind r.fault? := by
  induction err using r.cause_induction with
  | nothing => rfl
  | kept id ih =>
    rw [Option.bind_some, Option.bind_some, fault?_eq, fault?_eq r, h.isSome_faultAt?, h.cause, ih]

theorem pattern? (h : Alike r r') (target : Target) : r'.pattern? target = r.pattern? target := by
  cases target with
  | nothing => rfl
  | kept id => exact h.pattern id
  | fault p => rfl

theorem hasFault (h : Alike r r') {p : Pattern} (hp : r.HasFault err p) : r'.HasFault err p := by
  obtain ⟨j, f, hj, hf, hfits⟩ := hp
  have hpattern := h.pattern j
  rw [hf, Option.map_some] at hpattern
  obtain ⟨g, hg, hsame⟩ := Option.map_eq_some_iff.1 hpattern
  refine ⟨j, g, h.inChain hj, hg, ?_⟩
  rw [Fault.fits_congr hsame]
  exact hfits

theorem is_mono (h : Alike r r') {target : Target} (his : r.is err target = true) :
    r'.is err target = true := by
  rw [is_iff] at his ⊢
  obtain hnothing | ⟨id, hid, hchain⟩ | ⟨p, hp, hfault⟩ := his
  · exact .inl hnothing
  · exact .inr (.inl ⟨id, hid, h.inChain hchain⟩)
  · rw [← h.pattern?] at hp
    exact .inr (.inr ⟨p, hp, h.hasFault hfault⟩)

theorem is_eq (h : Alike r r') (err : Option Nat) (target : Target) :
    r'.is err target = r.is err target :=
  Bool.eq_iff_iff.2 ⟨h.symm.is_mono, h.is_mono⟩

end Alike

/-! ## Passing outwards -/

theorem enclose_of_none (h : err.bind r.fault? = none) (segment : String) :
    r.enclose err segment = r := by
  cases err with
  | none => rfl
  | some id => simp [enclose, within, show r.fault? id = none from h]

/-- Only the outermost fault changes. -/
theorem errors_enclose (h : err.bind r.fault? = some i) (segment : String) (j : Nat) :
    (r.enclose err segment).errors[j]? =
      if i = j then r.errors[j]?.map (KeptError.extend segment) else r.errors[j]? := by
  cases err with
  | none => cases h
  | some id => simp [enclose, within, show r.fault? id = some i from h, Array.getElem?_modify]

theorem errors_enclose_of_note (hj : r.faultAt? j = none) (segment : String) :
    (r.enclose err segment).errors[j]? = r.errors[j]? := by
  cases h : err.bind r.fault? with
  | none => rw [enclose_of_none h]
  | some i =>
    obtain ⟨f, hout⟩ := outermost_of_fault? h
    have hne : i ≠ j := by
      intro hij
      have hfault := hout.fault
      rw [hij, hj] at hfault
      cases hfault
    rw [errors_enclose h, if_neg hne]

/-- Errors with the same outermost fault are the same to a segment. -/
theorem enclose_congr {other : Option Nat} (h : err.bind r.fault? = other.bind r.fault?)
    (segment : String) : r.enclose err segment = r.enclose other segment := by
  cases err with
  | none => rw [enclose_of_none h.symm, enclose]
  | some id =>
    cases other with
    | none => rw [enclose_of_none h, enclose]
    | some k => simp only [enclose, within, show r.fault? id = r.fault? k from h]

/-- A step outwards shows in paths alone. -/
theorem enclose_alike (r : Registry) (err : Option Nat) (segment : String) :
    Alike r (r.enclose err segment) := by
  cases h : err.bind r.fault? with
  | none =>
    rw [enclose_of_none h]
    exact .refl r
  | some i =>
    constructor
    · intro j
      rw [cause?, cause?, errors_enclose h]
      split
      · cases r.errors[j]? with
        | none => rfl
        | some e => simp
      · rfl
    · intro j
      rw [faultAt?, faultAt?, link?, link?, errors_enclose h]
      split
      · cases r.errors[j]? with
        | none => rfl
        | some e => simp
      · rfl

/-- The error as it passes outwards through the segments, the first one first. -/
def encloseAll (r : Registry) (err : Option Nat) (segments : List String) : Registry :=
  segments.foldl (fun r segment => r.enclose err segment) r

theorem encloseAll_cons (r : Registry) (err : Option Nat) (segment : String)
    (segments : List String) :
    r.encloseAll err (segment :: segments) = (r.enclose err segment).encloseAll err segments := rfl

theorem encloseAll_alike (r : Registry) (err : Option Nat) (segments : List String) :
    Alike r (r.encloseAll err segments) := by
  induction segments generalizing r with
  | nil => exact .refl r
  | cons segment segments ih =>
    rw [encloseAll_cons]
    exact (r.enclose_alike err segment).trans (ih _)

theorem encloseAll_of_none (h : err.bind r.fault? = none) (segments : List String) :
    r.encloseAll err segments = r := by
  induction segments with
  | nil => rfl
  | cons segment segments ih =>
    rw [encloseAll_cons, enclose_of_none h]
    exact ih

/-- The outermost fault stays the outermost one, and so takes every segment. -/
theorem errors_encloseAll (h : err.bind r.fault? = some i) (segments : List String) (j : Nat) :
    (r.encloseAll err segments).errors[j]? =
      if i = j then
        r.errors[j]?.map fun e => segments.foldl (fun e segment => e.extend segment) e
      else r.errors[j]? := by
  induction segments generalizing r with
  | nil => simp [encloseAll]
  | cons segment segments ih =>
    have hsame : err.bind (r.enclose err segment).fault? = some i := by
      rw [(r.enclose_alike err segment).fault?]
      exact h
    rw [encloseAll_cons, ih hsame, errors_enclose h]
    by_cases hj : i = j
    · simp [hj, Function.comp_def]
    · simp [hj]

theorem errors_of_faultAt? {f : Fault} (h : r.faultAt? i = some f) :
    r.errors[i]? = some ⟨.fault f, r.cause? i⟩ := by
  obtain ⟨link, hlink, hf⟩ := Option.bind_eq_some_iff.1 h
  obtain ⟨e, he, rfl⟩ := Option.map_eq_some_iff.1 hlink
  rw [cause?, he, Option.bind_some, ← Link.eq_of_fault? hf]

/-! ## The chain as it is shown -/

theorem chain_eq (r : Registry) (id : Nat) :
    r.chain id = (r.link? id).toList ++ (r.cause? id).elim [] r.chain := by
  rw [chain, trail_eq, List.filterMap_cons]
  have hrest : ((r.cause? id).elim [] r.trail).filterMap r.link? = (r.cause? id).elim [] r.chain := by
    cases r.cause? id with
    | none => rfl
    | some cause => rfl
  rw [hrest]
  cases r.link? id with
  | none => rfl
  | some link => rfl

/-- A chain shows its own errors only. -/
theorem chain_congr (h : ∀ j, r.InChain err j → r'.errors[j]? = r.errors[j]?) :
    err.elim [] r'.chain = err.elim [] r.chain := by
  induction err using r.cause_induction with
  | nothing => rfl
  | kept id ih =>
    have hself := h id (.self id)
    have hcause : r'.cause? id = r.cause? id := by rw [cause?, cause?, hself]
    rw [Option.elim_some, Option.elim_some, chain_eq, chain_eq r, link?, link?, hself, hcause]
    rw [ih fun j hj => h j (.cause hj)]

/-- What is done in place shows in the chain of the error as a segment on its outermost fault. -/
theorem chain_enclose (r : Registry) (err : Option Nat) (segment : String) :
    err.elim [] (r.enclose err segment).chain = Chain.within segment (err.elim [] r.chain) := by
  induction err using r.cause_induction with
  | nothing => rfl
  | kept id ih =>
    have hcause := (r.enclose_alike (some id) segment).cause id
    rw [Option.elim_some, Option.elim_some, chain_eq, chain_eq r, hcause, link?, link?]
    cases hf : r.faultAt? id with
    | some f =>
      have hsearch : (some id).bind r.fault? = some id := by
        rw [Option.bind_some, fault?_eq, hf]
        rfl
      have hbelow : ∀ j, r.InChain (r.cause? id) j →
          (r.enclose (some id) segment).errors[j]? = r.errors[j]? := by
        intro j hj
        rw [errors_enclose hsearch, if_neg (Nat.ne_of_gt hj.lt)]
      rw [chain_congr hbelow, errors_enclose hsearch, if_pos rfl, errors_of_faultAt? hf]
      rfl
    | none =>
      have hsearch : (some id).bind r.fault? = (r.cause? id).bind r.fault? := by
        rw [Option.bind_some, fault?_eq, hf]
        rfl
      rw [errors_enclose_of_note hf, enclose_congr hsearch, ih]
      cases hlink : r.errors[id]? with
      | none => rfl
      | some e =>
        obtain ⟨link, cause⟩ := e
        cases link with
        | fault f => simp [faultAt?, link?, hlink, Link.fault?] at hf
        | note text => rfl

/-- An error that passes through parts: if its chain holds a fault, the outermost one gets the segments
in front of its path, the last one first, and nothing else of it or of any other error changes; if it
holds none, nothing does. Every comparison, also of another error that shares the fault, comes out as
before, and one with a fault asks for its kind and, unless it has none, its phase. -/
theorem encloseAll_exact (r : Registry) (err : Option Nat) (segments : List String) :
    ((∃ j, r.InChain err j ∧ r.faultAt? j ≠ none) → ∃ i f, r.Outermost err i f)
    ∧ (∀ i f, r.Outermost err i f →
        (r.encloseAll err segments).errors[i]?
            = some ⟨.fault { f with path := segments.reverse ++ f.path }, r.cause? i⟩
          ∧ ∀ j, j ≠ i → (r.encloseAll err segments).errors[j]? = r.errors[j]?)
    ∧ ((∀ j, r.InChain err j → r.faultAt? j = none) → r.encloseAll err segments = r)
    ∧ (∀ other target, (r.encloseAll err segments).is other target = r.is other target)
    ∧ ∀ target p, r.pattern? target = some p →
        (p.phase = .unspecified → (r.is err target = true ↔
          ∃ j f, r.InChain err j ∧ r.faultAt? j = some f ∧ f.kind = p.kind))
        ∧ (p.phase ≠ .unspecified → (r.is err target = true ↔
          ∃ j f, r.InChain err j ∧ r.faultAt? j = some f ∧ f.phase = p.phase ∧ f.kind = p.kind)) := by
  refine ⟨?_, ?_, ?_, (r.encloseAll_alike err segments).is_eq, ?_⟩
  · intro ⟨j, hj, hfault⟩
    cases h : err.bind r.fault? with
    | none => exact absurd (fault?_eq_none_iff.1 h j hj) hfault
    | some i => exact ⟨i, outermost_of_fault? h⟩
  · intro i f hout
    constructor
    · rw [errors_encloseAll hout.fault?_eq, if_pos rfl, errors_of_faultAt? hout.fault]
      rw [Option.map_some, KeptError.foldl_extend]
    · intro j hj
      rw [errors_encloseAll hout.fault?_eq, if_neg hj.symm]
  · intro hnotes
    exact encloseAll_of_none (fault?_eq_none_iff.2 hnotes) segments
  · intro target p hp
    rw [is_iff_hasFault hp]
    constructor
    · intro hphase
      simp [HasFault, Fault.fits_iff, hphase]
    · intro hphase
      simp [HasFault, Fault.fits_iff, hphase, and_comm]

end Registry

end ClassAtlas

import ClassAtlas.Pool.Naming
import ClassAtlas.Proofs.PoolLayout
import ClassAtlas.Proofs.References

/-! # Which constants have a name

The names of constants as a relation, without a ledger and without an order: a constant has a name
when the name can be derived from the constants it refers to. The same names are derived when only
the basis of each entry is followed, and that leaves no entry two names. An entry with a name never
leads back to itself.

* `Pool.Named pool i s`: the entry with index `i` has the name `s`.
* `Pool.Refers pool i j`: the entry with index `i` holds a reference to index `j`.
* `Pool.under`: a pool with given names.
* `Pool.AsRead`: what is known of a pool that has just been read.
* `Pool.Derived`, `Pool.Derived.unique`: derivations along the bases; they agree with `Pool.Named` by
  `Pool.Named.derived` and `Pool.Derived.named`.
* `Pool.Grounded`, `Pool.Grounded.acyclic`: entries whose references all lead to an end.
-/

namespace ClassAtlas
set_option autoImplicit false

/-! ## The relation -/

def Payload.literal? : Payload → Option String
  | integer d | long d => some (toString d.num)
  | float d => some (Decimal.Format.single.literal d.raw)
  | double d => some (Decimal.Format.double.literal d.raw)
  | _ => none

def Payload.number? : Payload → Option Datum
  | integer d | float d | long d | double d => some d
  | _ => none

namespace Pool

/-- Name and descriptor of the NameAndType entry with an index. -/
def member? (pool : Pool) (index : Int) : Option (String × String) :=
  match (pool.entry? index).map Constant.payload with
  | some (.nameAndType name descriptor) =>
    match pool.text? name.num, pool.text? descriptor.num with
    | some n, some d => some (n, d)
    | _, _ => none
  | _ => none

/-- The names of entries. -/
inductive Named (pool : Pool) : Int → String → Prop
  | utf8 {i : Int} {s : String} (text : pool.text? i = some s) : Named pool i s
  | literal {i : Int} {c : Constant} {s : String} (entry : pool.entry? i = some c)
      (text : c.payload.literal? = some s) : Named pool i s
  | classInfo {i : Int} {c : Constant} {d : Datum} {s : String} (entry : pool.entry? i = some c)
      (payload : c.payload = .classInfo d) (text : pool.text? d.num = some s) :
      Named pool i (Descriptor.dottedName s)
  | quoted {i : Int} {c : Constant} {d : Datum} {s : String} (entry : pool.entry? i = some c)
      (payload : c.payload = .string d ∨ c.payload = .moduleInfo d ∨ c.payload = .packageInfo d)
      (text : pool.text? d.num = some s) : Named pool i s
  | nameAndType {i : Int} {name descriptor s : String}
      (member : pool.member? i = some (name, descriptor))
      (declared : Descriptor.declaration descriptor name = .ok s) : Named pool i s
  | member {i : Int} {c : Constant} {owner nameAndType : Datum} {o name descriptor s : String}
      (entry : pool.entry? i = some c)
      (payload : c.payload = .fieldref owner nameAndType ∨ c.payload = .methodref owner nameAndType
        ∨ c.payload = .interfaceMethodref owner nameAndType)
      (named : Named pool owner.num o)
      (member : pool.member? nameAndType.num = some (name, descriptor))
      (declared : Descriptor.declaration descriptor (o ++ "." ++ name) = .ok s) : Named pool i s
  | methodHandle {i : Int} {c : Constant} {kind reference : Datum} {s : String}
      (entry : pool.entry? i = some c) (payload : c.payload = .methodHandle kind reference)
      (named : Named pool reference.num s) :
      Named pool i (ReferenceKind.describe kind.raw.toUInt8 ++ " " ++ s)
  | methodType {i : Int} {c : Constant} {d : Datum} {descriptor s : String}
      (entry : pool.entry? i = some c) (payload : c.payload = .methodType d)
      (text : pool.text? d.num = some descriptor)
      (declared : Descriptor.declaration descriptor "" = .ok s) : Named pool i s
  | bootstrap {i : Int} {c : Constant} {n nameAndType : Datum} {s : String}
      (entry : pool.entry? i = some c)
      (payload : c.payload = .dynamic n nameAndType ∨ c.payload = .invokeDynamic n nameAndType)
      (named : Named pool nameAndType.num s) :
      Named pool i ("bootstrap_" ++ toString n.num ++ ": " ++ s)

/-- The entry with index `i` holds a reference to index `j`. -/
def Refers (pool : Pool) (i j : Int) : Prop :=
  ∃ c d, pool.entry? i = some c ∧ d ∈ c.references ∧ d.num = j

end Pool

/-- The entry and its references under the names that `name` gives to indices. -/
def Constant.under (name : Int → String) (c : Constant) : Constant :=
  { c with
    name := name c.index
    payload := c.payload.mapReferences fun d => d.named (name d.num) }

namespace Pool

def under (name : Int → String) (pool : Pool) : Pool :=
  { pool with slots := pool.slots.map (Option.map (Constant.under name)) }

/-! ## Pools whose entries are not yet named -/

/-- What the entries of a pool are when they have just been read. -/
structure AsRead (pool : Pool) : Prop where
  indexed : ∀ (i : Nat) (c : Constant), pool.slots[i]? = some (some c) → 0 < i ∧ c.index = i
  formed : ∀ (i : Nat) (c : Constant), pool.slots[i]? = some (some c) →
    ∃ form pos, c.payload = ConstantForm.payload pos form

theorem placeSlots_getElem? {slots : List (Option ConstantForm)} {index pos i : Nat} {c : Constant}
    (h : (PoolForm.placeSlots index pos slots)[i]? = some (some c)) :
    ∃ form pos', slots[i]? = some (some form) ∧ c = form.place (index + i) pos' := by
  induction slots generalizing index pos i with
  | nil => simp [PoolForm.placeSlots] at h
  | cons slot slots ih =>
    cases slot with
    | none =>
      cases i with
      | zero => simp [PoolForm.placeSlots] at h
      | succ i =>
        obtain ⟨form, pos', hform, rfl⟩ := ih h
        exact ⟨form, pos', hform, by rw [Nat.add_assoc, Nat.add_comm 1]⟩
    | some form =>
      cases i with
      | zero =>
        have hc : c = form.place index pos := by simpa [PoolForm.placeSlots, eq_comm] using h
        exact ⟨form, pos, rfl, hc⟩
      | succ i =>
        obtain ⟨form, pos', hform, rfl⟩ := ih h
        exact ⟨form, pos', hform, by rw [Nat.add_assoc, Nat.add_comm 1]⟩

theorem asRead_of_read {w w' : Window} {pool : Pool} (h : read w = .ok (pool, w')) :
    pool.AsRead := by
  obtain ⟨slots, ⟨-, hslots⟩, -, rfl⟩ := (read_reads _ _ _).1 h
  have hat : ∀ (i : Nat) (c : Constant),
      (PoolForm.place w.pos slots).slots[i]? = some (some c) →
        ∃ form pos, slots[i]? = some (some form) ∧ c = form.place i pos := by
    intro i c hc
    have hc' : (PoolForm.placeSlots 0 (w.pos + 2) slots)[i]? = some (some c) := by
      simpa [PoolForm.place] using hc
    simpa using placeSlots_getElem? hc'
  refine ⟨fun i c hc => ?_, fun i c hc => ?_⟩
  · obtain ⟨form, pos, hform, rfl⟩ := hat i c hc
    refine ⟨?_, rfl⟩
    rcases hslots with rfl | ⟨rest, rfl, -⟩
    · simp at hform
    · cases i with
      | zero => simp at hform
      | succ i => exact Nat.succ_pos i
  · obtain ⟨form, pos, -, rfl⟩ := hat i c hc
    exact ⟨form, pos + 1, rfl⟩

theorem resolve_eq_ok {pool pool' : Pool} : pool.resolve = .ok pool' ↔
    ∃ ledger, pool.nameSlots pool.slots.toList (Ledger.blank pool.slots.size) = .ok ledger
      ∧ pool' = { pool with slots := pool.slots.map (Option.map (withName ledger)) } := by
  unfold resolve
  cases pool.nameSlots pool.slots.toList (Ledger.blank pool.slots.size) with
  | error f => simp [bind, Except.bind]
  | ok ledger => simp [bind, Except.bind, pure, Except.pure, eq_comm]

/-- A pool whose ledger is known. -/
theorem resolve_of_ledger {pool : Pool} {ledger : Ledger}
    (h : (pool.nameSlots pool.slots.toList (Ledger.blank pool.slots.size)).toOption = some ledger) :
    pool.resolve =
      .ok { pool with slots := pool.slots.map (Option.map (withName ledger)) } := by
  cases hrun : pool.nameSlots pool.slots.toList (Ledger.blank pool.slots.size) with
  | error f =>
    rw [hrun] at h
    cases h
  | ok ledger =>
    rw [hrun] at h
    cases h
    exact resolve_eq_ok.2 ⟨_, hrun, rfl⟩

/-! ## Derivations through the basis -/

theorem entry?_eq_some {pool : Pool} {i : Int} {c : Constant} :
    pool.entry? i = some c ↔ 0 < i ∧ pool.slots[i.toNat]? = some (some c) := by
  unfold entry?
  by_cases h : 0 < i
  · simp [h, Option.join_eq_some_iff]
  · simp [h]

theorem AsRead.form {pool : Pool} (h : pool.AsRead) {i : Int} {c : Constant}
    (hc : pool.entry? i = some c) : ∃ form pos, c.payload = ConstantForm.payload pos form :=
  h.formed _ _ (entry?_eq_some.1 hc).2

theorem nameAndTypeOf_eq_ok {pool : Pool} {d : Datum} {r : String × String} :
    pool.nameAndTypeOf d = .ok r ↔ pool.member? d.num = some r := by
  unfold nameAndTypeOf member? lookup
  cases pool.entry? d.num with
  | none => simp [bind, Except.bind]
  | some c =>
    obtain ⟨index, tag, payload, name⟩ := c
    cases payload with
    | nameAndType name descriptor =>
      simp only [bind, Except.bind, Option.map_some, text?_eq_toOption]
      cases pool.textOf name with
      | error f => simp [Except.toOption]
      | ok n =>
        cases pool.textOf descriptor with
        | error f => simp [Except.toOption]
        | ok t => simp [Except.toOption, pure, Except.pure]
    | _ => simp [bind, Except.bind, throw, throwThe, MonadExceptOf.throw]

/-- Derivations that follow the basis of each entry. -/
inductive Derived (pool : Pool) : Int → String → Prop
  | base {i : Int} {c : Constant} {s : String} (entry : pool.entry? i = some c)
      (basis : c.payload.basis? = none) (composed : pool.compose "" c.payload = .ok s) :
      Derived pool i s
  | step {i : Int} {c : Constant} {d : Datum} {b s : String} (entry : pool.entry? i = some c)
      (basis : c.payload.basis? = some d) (named : Derived pool d.num b)
      (composed : pool.compose b c.payload = .ok s) : Derived pool i s

theorem memberName_eq_ok {pool : Pool} {owner s : String} {d : Datum} :
    pool.memberName owner d = .ok s ↔ ∃ name descriptor,
      pool.member? d.num = some (name, descriptor)
        ∧ Descriptor.declaration descriptor (owner ++ "." ++ name) = .ok s := by
  simp only [← nameAndTypeOf_eq_ok]
  unfold memberName
  cases pool.nameAndTypeOf d with
  | error f => simp [bind, Except.bind]
  | ok r =>
    obtain ⟨name, descriptor⟩ := r
    constructor
    · intro h
      exact ⟨name, descriptor, rfl, h⟩
    · rintro ⟨_, _, hr, h⟩
      cases hr
      exact h

theorem text?_eq_some {pool : Pool} {i : Int} {s : String} (h : pool.text? i = some s) :
    ∃ c length bytes, pool.entry? i = some c ∧ c.payload = .utf8 length bytes ∧ bytes.str = s := by
  obtain ⟨c, hc, ht⟩ := Option.bind_eq_some_iff.1 h
  cases hp : c.payload with
  | utf8 length bytes =>
    rw [hp] at ht
    exact ⟨c, length, bytes, hc, hp, Option.some.inj ht⟩
  | _ =>
    rw [hp] at ht
    cases ht

theorem member?_eq_some {pool : Pool} {i : Int} {r : String × String}
    (h : pool.member? i = some r) : ∃ c name descriptor, pool.entry? i = some c
      ∧ c.payload = .nameAndType name descriptor
      ∧ pool.text? name.num = some r.1 ∧ pool.text? descriptor.num = some r.2 := by
  unfold member? at h
  cases hc : pool.entry? i with
  | none =>
    rw [hc] at h
    cases h
  | some c =>
    rw [hc, Option.map_some] at h
    cases hp : c.payload with
    | nameAndType name descriptor =>
      rw [hp] at h
      cases hn : pool.text? name.num with
      | none => simp [hn] at h
      | some n =>
        cases hd : pool.text? descriptor.num with
        | none => simp [hn, hd] at h
        | some d =>
          simp only [hn, hd, Option.some.injEq] at h
          subst h
          exact ⟨c, name, descriptor, rfl, hp, hn, hd⟩
    | _ => simp [hp] at h

theorem literal?_payload (form : ConstantForm) (pos : Nat) :
    (form.payload pos).literal? = (form.payload pos).number?.map Datum.name := by
  cases form with
  | long n =>
    simp only [ConstantForm.payload, Payload.literal?, Payload.number?, Option.map_some, Datum.named,
      Datum.ofWord]
  | _ => rfl

theorem AsRead.literal? {pool : Pool} (h : pool.AsRead) {i : Int} {c : Constant}
    (hc : pool.entry? i = some c) : c.payload.literal? = c.payload.number?.map Datum.name := by
  obtain ⟨form, pos, hform⟩ := h.form hc
  rw [hform, literal?_payload]

theorem AsRead.kind_name {pool : Pool} (h : pool.AsRead) {i : Int} {c : Constant}
    {kind reference : Datum} (hc : pool.entry? i = some c)
    (hp : c.payload = .methodHandle kind reference) :
    kind.name = ReferenceKind.describe kind.raw.toUInt8 := by
  obtain ⟨form, pos, hform⟩ := h.form hc
  rw [hp] at hform
  cases form <;> cases hform
  rfl

theorem compose_number (pool : Pool) {p : Payload} {d : Datum} (h : p.number? = some d) :
    p.basis? = none ∧ pool.compose "" p = .ok d.name := by
  cases p <;> cases h <;> exact ⟨rfl, rfl⟩

theorem Named.derived {pool : Pool} (h : pool.AsRead) {i : Int} {s : String}
    (hs : pool.Named i s) : pool.Derived i s := by
  induction hs with
  | utf8 text =>
    obtain ⟨c, length, bytes, hc, hp, rfl⟩ := text?_eq_some text
    exact .base hc (by rw [hp]; rfl) (by rw [hp]; rfl)
  | @literal i c s entry text =>
    rw [h.literal? entry] at text
    obtain ⟨d, hd, rfl⟩ := Option.map_eq_some_iff.1 text
    obtain ⟨hbasis, hcompose⟩ := compose_number pool hd
    exact .base entry hbasis hcompose
  | @classInfo i c d s entry payload text =>
    refine .base entry (by rw [payload]; rfl) ?_
    rw [payload, compose, pool.textOf_eq_ok.2 text]
    rfl
  | @quoted i c d s entry payload text =>
    have htext := pool.textOf_eq_ok.2 text
    rcases payload with hp | hp | hp <;>
      exact .base entry (by rw [hp]; rfl) (by rw [hp]; exact htext)
  | @nameAndType i name descriptor s member declared =>
    obtain ⟨c, n, d, hc, hp, hn, hd⟩ := member?_eq_some member
    refine .base hc (by rw [hp]; rfl) ?_
    rw [hp, compose, pool.textOf_eq_ok.2 hn, pool.textOf_eq_ok.2 hd]
    exact declared
  | @member i c owner nameAndType o name descriptor s entry payload _ member declared ih =>
    have hname := memberName_eq_ok.2 ⟨name, descriptor, member, declared⟩
    rcases payload with hp | hp | hp <;>
      exact .step entry (by rw [hp]; rfl) ih (by rw [hp]; exact hname)
  | @methodHandle i c kind reference s entry payload _ ih =>
    refine .step entry (by rw [payload]; rfl) ih ?_
    rw [payload, compose, h.kind_name entry payload]
  | @methodType i c d descriptor s entry payload text declared =>
    refine .base entry (by rw [payload]; rfl) ?_
    rw [payload, compose, pool.textOf_eq_ok.2 text]
    exact declared
  | @bootstrap i c n nameAndType s entry payload _ ih =>
    rcases payload with hp | hp <;>
      exact .step entry (by rw [hp]; rfl) ih (by rw [hp]; rfl)

theorem text?_of_payload {pool : Pool} {i : Int} {c : Constant} {length bytes : Datum}
    (entry : pool.entry? i = some c) (payload : c.payload = .utf8 length bytes) :
    pool.text? i = some bytes.str := by
  rw [text?, entry, Option.bind_some, payload]
  rfl

theorem member?_of_payload {pool : Pool} {i : Int} {c : Constant} {name descriptor : Datum}
    {n d : String} (entry : pool.entry? i = some c)
    (payload : c.payload = .nameAndType name descriptor) (hn : pool.text? name.num = some n)
    (hd : pool.text? descriptor.num = some d) : pool.member? i = some (n, d) := by
  simp only [member?, entry, Option.map_some, payload, hn, hd]

theorem named_of_compose {pool : Pool} (h : pool.AsRead) {i : Int} {c : Constant} {s : String}
    (entry : pool.entry? i = some c) (basis : c.payload.basis? = none)
    (composed : pool.compose "" c.payload = .ok s) : pool.Named i s := by
  cases hp : c.payload with
  | utf8 length bytes =>
    rw [hp] at composed
    cases composed
    exact .utf8 (text?_of_payload entry hp)
  | integer d | float d | long d | double d =>
    obtain rfl : d.name = s := by
      rw [hp] at composed
      exact Except.ok.inj composed
    exact .literal entry (by rw [h.literal? entry, hp]; rfl)
  | classInfo d =>
    rw [hp, compose] at composed
    cases ht : pool.textOf d with
    | error f => simp [ht, Except.map] at composed
    | ok t =>
      rw [ht] at composed
      cases composed
      exact .classInfo entry hp (pool.textOf_eq_ok.1 ht)
  | string d | moduleInfo d | packageInfo d =>
    rw [hp] at composed
    exact .quoted entry (by simp [hp]) (pool.textOf_eq_ok.1 composed)
  | nameAndType name descriptor =>
    rw [hp, compose] at composed
    cases hn : pool.textOf name with
    | error f => simp [hn, bind, Except.bind] at composed
    | ok n =>
      cases hd : pool.textOf descriptor with
      | error f => simp [hn, hd, bind, Except.bind] at composed
      | ok d =>
        simp only [hn, hd, bind, Except.bind] at composed
        exact .nameAndType (member?_of_payload entry hp (pool.textOf_eq_ok.1 hn)
          (pool.textOf_eq_ok.1 hd)) composed
  | methodType d =>
    rw [hp, compose] at composed
    cases ht : pool.textOf d with
    | error f => simp [ht, bind, Except.bind] at composed
    | ok t =>
      simp only [ht, bind, Except.bind] at composed
      exact .methodType entry hp (pool.textOf_eq_ok.1 ht) composed
  | _ =>
    rw [hp] at basis
    cases basis

theorem named_of_basis {pool : Pool} (h : pool.AsRead) {i : Int} {c : Constant} {d : Datum}
    {b s : String} (entry : pool.entry? i = some c) (basis : c.payload.basis? = some d)
    (hb : pool.Named d.num b) (composed : pool.compose b c.payload = .ok s) : pool.Named i s := by
  cases hp : c.payload with
  | fieldref owner nameAndType | methodref owner nameAndType
  | interfaceMethodref owner nameAndType =>
    rw [hp] at basis composed
    cases basis
    obtain ⟨name, descriptor, hm, hd⟩ := memberName_eq_ok.1 composed
    exact .member entry (by simp [hp]) hb hm hd
  | methodHandle kind reference =>
    rw [hp] at basis composed
    cases basis
    cases composed
    rw [h.kind_name entry hp]
    exact .methodHandle entry hp hb
  | dynamic n nameAndType | invokeDynamic n nameAndType =>
    rw [hp] at basis composed
    cases basis
    cases composed
    exact .bootstrap entry (by simp [hp]) hb
  | _ =>
    rw [hp] at basis
    cases basis

theorem Derived.named {pool : Pool} (h : pool.AsRead) {i : Int} {s : String}
    (hs : pool.Derived i s) : pool.Named i s := by
  induction hs with
  | base entry basis composed => exact named_of_compose h entry basis composed
  | step entry basis _ composed ih => exact named_of_basis h entry basis ih composed

theorem Derived.unique {pool : Pool} {i : Int} {s t : String} (hs : pool.Derived i s)
    (ht : pool.Derived i t) : s = t := by
  induction hs generalizing t with
  | @base i c s entry basis composed =>
    cases ht with
    | base entry' basis' composed' =>
      cases entry.symm.trans entry'
      exact Except.ok.inj (composed.symm.trans composed')
    | step entry' basis' _ _ =>
      cases entry.symm.trans entry'
      cases basis.symm.trans basis'
  | @step i c d b s entry basis _ composed ih =>
    cases ht with
    | base entry' basis' _ =>
      cases entry.symm.trans entry'
      cases basis.symm.trans basis'
    | step entry' basis' named' composed' =>
      cases entry.symm.trans entry'
      cases basis.symm.trans basis'
      cases ih named'
      exact Except.ok.inj (composed.symm.trans composed')

/-! ## No entry refers to itself -/

/-- Entries from which every path of references ends. -/
inductive Grounded (pool : Pool) : Int → Prop
  | intro {i : Int} {c : Constant} (entry : pool.entry? i = some c)
      (references : ∀ d ∈ c.references, Grounded pool d.num) : Grounded pool i

theorem grounded_of_text {pool : Pool} {i : Int} {s : String} (h : pool.text? i = some s) :
    pool.Grounded i := by
  obtain ⟨c, length, bytes, hc, hp, -⟩ := text?_eq_some h
  refine .intro hc fun d hd => ?_
  rw [Constant.references, hp] at hd
  cases hd

theorem grounded_of_member {pool : Pool} {i : Int} {r : String × String}
    (h : pool.member? i = some r) : pool.Grounded i := by
  obtain ⟨c, name, descriptor, hc, hp, hname, hdescriptor⟩ := member?_eq_some h
  refine .intro hc fun d hd => ?_
  rw [Constant.references, hp] at hd
  have hd' : d = name ∨ d = descriptor := by simpa [Payload.references] using hd
  rcases hd' with rfl | rfl
  · exact grounded_of_text hname
  · exact grounded_of_text hdescriptor

theorem grounded_of_references {pool : Pool} {i : Int} {c : Constant} {ds : List Datum}
    (hc : pool.entry? i = some c) (hp : c.payload.references = ds)
    (h : ∀ d ∈ ds, pool.Grounded d.num) : pool.Grounded i :=
  .intro hc fun d hd => h d (hp ▸ hd)

theorem Named.grounded {pool : Pool} {i : Int} {s : String} (h : pool.Named i s) :
    pool.Grounded i := by
  induction h with
  | utf8 text => exact grounded_of_text text
  | @literal i c s entry text =>
    have hp : c.payload.references = [] := by
      cases hp : c.payload with
      | integer | float | long | double => rfl
      | _ =>
        rw [hp] at text
        cases text
    exact grounded_of_references entry hp (by simp)
  | @classInfo i c d s entry payload text =>
    have hp : c.payload.references = [d] := by rw [payload]; rfl
    exact grounded_of_references entry hp (by simpa using grounded_of_text text)
  | @quoted i c d s entry payload text =>
    have hp : c.payload.references = [d] := by
      rcases payload with payload | payload | payload <;> rw [payload] <;> rfl
    exact grounded_of_references entry hp (by simpa using grounded_of_text text)
  | nameAndType member _ => exact grounded_of_member member
  | @member i c owner nameAndType o name descriptor s entry payload _ member _ ih =>
    have hp : c.payload.references = [owner, nameAndType] := by
      rcases payload with payload | payload | payload <;> rw [payload] <;> rfl
    exact grounded_of_references entry hp (by simpa using ⟨ih, grounded_of_member member⟩)
  | @methodHandle i c kind reference s entry payload _ ih =>
    have hp : c.payload.references = [reference] := by rw [payload]; rfl
    exact grounded_of_references entry hp (by simpa using ih)
  | @methodType i c d descriptor s entry payload text _ =>
    have hp : c.payload.references = [d] := by rw [payload]; rfl
    exact grounded_of_references entry hp (by simpa using grounded_of_text text)
  | @bootstrap i c n nameAndType s entry payload _ ih =>
    have hp : c.payload.references = [nameAndType] := by
      rcases payload with payload | payload <;> rw [payload] <;> rfl
    exact grounded_of_references entry hp (by simpa using ih)

theorem Grounded.entry {pool : Pool} {i : Int} (h : pool.Grounded i) :
    ∃ c, pool.entry? i = some c := by
  cases h with
  | intro entry _ => exact ⟨_, entry⟩

theorem Grounded.of_refers {pool : Pool} {i j : Int} (h : pool.Grounded i)
    (hj : pool.Refers i j) : pool.Grounded j := by
  obtain ⟨c, d, hc, hd, rfl⟩ := hj
  cases h with
  | intro entry references =>
    cases entry.symm.trans hc
    exact references d hd

theorem Grounded.acc {pool : Pool} {i : Int} (h : pool.Grounded i) :
    Acc (fun j k => pool.Refers k j) i := by
  induction h with
  | @intro i c entry _ ih =>
    refine Acc.intro i fun j hj => ?_
    obtain ⟨c', d, hc', hd, rfl⟩ := hj
    cases entry.symm.trans hc'
    exact ih d hd

theorem refers_backwards {pool : Pool} {i j : Int} (h : Relation.TransGen pool.Refers i j) :
    Relation.TransGen (fun j k => pool.Refers k j) j i := by
  induction h with
  | single hstep => exact .single hstep
  | tail _ hstep ih => exact .trans (.single hstep) ih

theorem Grounded.acyclic {pool : Pool} {i : Int} (h : pool.Grounded i) :
    ¬ Relation.TransGen pool.Refers i i := by
  intro hcycle
  have hback := refers_backwards hcycle
  have hacc := h.acc.transGen
  clear h hcycle
  induction hacc with
  | intro i _ ih => exact ih i hback hback

theorem entry_of_refers {pool : Pool} {i j : Int} (h : Relation.TransGen pool.Refers i j) :
    ∃ c, pool.entry? i = some c := by
  induction h with
  | single hstep =>
    obtain ⟨c, d, hc, -⟩ := hstep
    exact ⟨c, hc⟩
  | tail _ _ ih => exact ih

end Pool

end ClassAtlas

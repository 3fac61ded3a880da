import ClassAtlas.Pool
import ClassAtlas.Proofs.Word

/-! # References into the pool

What a reference holds: the index of a populated slot, of a Utf8 entry, or zero where a reference may
be missing.

* `Pool.text?`: the text of the Utf8 entry with an index.
* `Pool.refer_eq_ok`, `Pool.referOptional_eq_ok`, `Pool.referText_eq_ok`: the references that are
  accepted.
* `Pool.referenceFormat`, `Pool.optionalFormat`: references as they are written.
-/

namespace ClassAtlas
set_option autoImplicit false

def Payload.text? : Payload → Option String
  | .utf8 _ bytes => some bytes.str
  | _ => none

namespace Pool

variable (pool : Pool)

def text? (index : Int) : Option String :=
  (pool.entry? index).bind fun c => c.payload.text?

theorem refer_eq_ok {d d' : Datum} : pool.refer d = .ok d' ↔
    (pool.entry? d.num).isSome = true ∧ d' = d.named (pool.displayName d.num) := by
  unfold refer lookup displayName
  cases pool.entry? d.num with
  | none => simp [bind, Except.bind]
  | some c => simp [bind, Except.bind, pure, Except.pure, eq_comm]

theorem referOptional_eq_ok {absent : String} {d d' : Datum} :
    pool.referOptional absent d = .ok d' ↔
      (d.num = 0 ∨ (pool.entry? d.num).isSome = true)
        ∧ d' = d.named (if d.num = 0 then absent else pool.displayName d.num) := by
  unfold referOptional
  by_cases h : d.num = 0
  · rw [if_pos h, if_pos h, Except.ok.injEq]
    exact ⟨fun he => ⟨.inl h, he.symm⟩, fun he => he.2.symm⟩
  · rw [if_neg h, if_neg h, refer_eq_ok, or_iff_right h]

theorem textOf_eq_ok {d : Datum} {s : String} :
    pool.textOf d = .ok s ↔ pool.text? d.num = some s := by
  unfold textOf lookup text?
  cases pool.entry? d.num with
  | none => simp [bind, Except.bind]
  | some c =>
    obtain ⟨index, tag, payload, name⟩ := c
    cases payload <;>
      simp [bind, Except.bind, pure, Except.pure, throw, throwThe, MonadExceptOf.throw,
        Payload.text?]

theorem text?_eq_toOption (d : Datum) : pool.text? d.num = (pool.textOf d).toOption := by
  cases h : pool.textOf d with
  | ok s => exact pool.textOf_eq_ok.1 h
  | error f =>
    cases ht : pool.text? d.num with
    | none => rfl
    | some s => cases h.symm.trans (pool.textOf_eq_ok.2 ht)

theorem referText_eq_ok {d d' : Datum} :
    pool.referText d = .ok d' ↔ ∃ s, pool.text? d.num = some s ∧ d' = d.named s := by
  simp only [← textOf_eq_ok]
  unfold referText
  cases pool.textOf d with
  | error f => simp [bind, Except.bind]
  | ok s => simp [bind, Except.bind, pure, Except.pure, eq_comm]

def referenceFormat : Format Nat Datum where
  legal i := i < 256 ^ 2 ∧ (pool.entry? i).isSome = true
  bytes := Word.bytes 2
  place pos i := (Datum.wordAt pos i).named (pool.displayName i)

/-- References where index 0 means that there is none. -/
def optionalFormat (absent : String) : Format Nat Datum where
  legal i := i < 256 ^ 2 ∧ (i = 0 ∨ (pool.entry? i).isSome = true)
  bytes := Word.bytes 2
  place pos i := (Datum.wordAt pos i).named (if i = 0 then absent else pool.displayName i)

theorem refer_wordAt {i pos : Nat} {d : Datum} (hi : i < 256 ^ 2) :
    pool.refer (Datum.wordAt pos i) = .ok d ↔
      (pool.entry? i).isSome = true ∧ d = (Datum.wordAt pos i).named (pool.displayName i) := by
  rw [refer_eq_ok, Datum.num_wordAt pos hi]

theorem referOptional_wordAt {absent : String} {i pos : Nat} {d : Datum} (hi : i < 256 ^ 2) :
    pool.referOptional absent (Datum.wordAt pos i) = .ok d ↔
      (i = 0 ∨ (pool.entry? i).isSome = true)
        ∧ d = (Datum.wordAt pos i).named (if i = 0 then absent else pool.displayName i) := by
  rw [referOptional_eq_ok, Datum.num_wordAt pos hi]
  simp only [Int.natCast_eq_zero]

theorem referText_wordAt {i pos : Nat} {d : Datum} (hi : i < 256 ^ 2) :
    pool.referText (Datum.wordAt pos i) = .ok d ↔
      ∃ s, pool.text? i = some s ∧ d = (Datum.wordAt pos i).named s := by
  rw [referText_eq_ok, Datum.num_wordAt pos hi]

theorem readReference_reads : Reads pool.readReference pool.referenceFormat := by
  intro w d w'
  simp only [readReference, Reading.bind_eq_ok, Reading.settled_eq_ok]
  constructor
  · rintro ⟨a, v, ha, hd, rfl⟩
    obtain ⟨i, hi, hafter, rfl⟩ := (Datum.u2_reads _ _ _).1 ha
    obtain ⟨hentry, rfl⟩ := (pool.refer_wordAt hi).1 hd
    exact ⟨i, ⟨hi, hentry⟩, hafter, rfl⟩
  · rintro ⟨i, ⟨hi, hentry⟩, hafter, rfl⟩
    exact ⟨_, w', (Datum.u2_reads _ _ _).2 ⟨i, hi, hafter, rfl⟩,
      (pool.refer_wordAt hi).2 ⟨hentry, rfl⟩, rfl⟩

theorem readOptional_reads (absent : String) :
    Reads (pool.readOptional absent) (pool.optionalFormat absent) := by
  intro w d w'
  simp only [readOptional, Reading.bind_eq_ok, Reading.settled_eq_ok]
  constructor
  · rintro ⟨a, v, ha, hd, rfl⟩
    obtain ⟨i, hi, hafter, rfl⟩ := (Datum.u2_reads _ _ _).1 ha
    obtain ⟨hentry, rfl⟩ := (pool.referOptional_wordAt hi).1 hd
    exact ⟨i, ⟨hi, hentry⟩, hafter, rfl⟩
  · rintro ⟨i, ⟨hi, hentry⟩, hafter, rfl⟩
    exact ⟨_, w', (Datum.u2_reads _ _ _).2 ⟨i, hi, hafter, rfl⟩,
      (pool.referOptional_wordAt hi).2 ⟨hentry, rfl⟩, rfl⟩

end Pool

end ClassAtlas

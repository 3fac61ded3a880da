import ClassAtlas.Proofs.Delimiting

/-! # The declared length of an attribute

The body of an interpreted attribute tells by its own bytes where it ends, and the attribute must end
there too. So the header of an attribute can declare one length at most: under a greater one bytes are
left unread, and under a smaller one the body wants bytes that it does not get. Method bodies are no
exception, however deep the attributes in them are nested.

* `Body.reader?_delimits`, `Code.read_delimits`: interpreted bodies are self-delimiting.
* `Attribute.contents?`: the step that reads an interpreted body, apart from the length around it.
* `Attribute.read_declaring`: an attribute under the length that its header declares.
* `Attribute.declared_length_unique`: of all lengths that can be declared, at most one is right, and
  what the others give.
-/

namespace ClassAtlas
set_option autoImplicit false

/-! ## Interpreted bodies -/

section

variable {pool : Pool}

namespace Body

theorem readRows_delimits {α : Type} {row : Reading α} (h : Delimits row)
    (make : Datum → List α → Body) : Delimits (readRows row make) :=
  Datum.u2_delimits.bind fun _ => (Delimits.repeated (fun _ => h) _).bind fun _ => .pure _

theorem nestedClass_delimits : Delimits (nestedClass pool) :=
  pool.readReference_delimits.bind fun _ => (pool.readOptional_delimits "").bind fun _ =>
    (pool.readOptional_delimits "").bind fun _ => Datum.u2_delimits.bind fun _ => .pure _

theorem bootstrapMethod_delimits : Delimits (bootstrapMethod pool) :=
  pool.readReference_delimits.bind fun _ => Datum.u2_delimits.bind fun _ =>
    (Delimits.repeated (fun _ => pool.readReference_delimits) _).bind fun _ => .pure _

theorem lineEntry_delimits : Delimits lineEntry :=
  Datum.u2_delimits.bind fun _ => Datum.u2_delimits.bind fun _ => .pure _

theorem localVariable_delimits : Delimits (localVariable pool) :=
  Datum.u2_delimits.bind fun _ => Datum.u2_delimits.bind fun _ => Datum.u2_delimits.bind fun _ =>
    Datum.u2_delimits.bind fun _ => Datum.u2_delimits.bind fun _ =>
      (Delimits.settled _).bind fun _ => (Delimits.settled _).bind fun _ => .pure _

theorem reader?_delimits {name : String} {reader : Reading Body}
    (h : reader? pool name = some reader) : Delimits reader := by
  unfold reader? at h
  split at h
  case h_1 | h_2 | h_3 | h_4 =>
    cases h
    exact pool.readReference_delimits.bind fun _ => .pure _
  case h_5 | h_6 | h_7 =>
    cases h
    exact readRows_delimits pool.readReference_delimits _
  case h_8 =>
    cases h
    exact readRows_delimits nestedClass_delimits _
  case h_9 =>
    cases h
    exact readRows_delimits bootstrapMethod_delimits _
  case h_10 =>
    cases h
    exact readRows_delimits lineEntry_delimits _
  case h_11 =>
    cases h
    exact readRows_delimits localVariable_delimits _
  case h_12 | h_13 =>
    cases h
    exact .pure _
  case h_14 => cases h

end Body

/-- The code is a part with a length of its own, so that what is read in it does not matter. -/
theorem Code.read_delimits {attributes : Reading (Datum × List Attribute)} (h : Delimits attributes) :
    Delimits (read pool attributes) :=
  readHead_delimits.bind fun _ => (onChild_delimits _ _ _).bind fun _ =>
    (readHandlers_delimits pool).bind fun _ => h.bind fun _ => .pure _

/-! ## Contents and length -/

namespace Starves

variable {α : Type} {step : Reading α} {w : Window}

theorem within (h : Starves step w) (segment : String) : Starves (within segment step) w := by
  obtain ⟨f, hf, hrest⟩ := h
  refine ⟨f.within segment, ?_, hrest⟩
  simp only [ClassAtlas.within, hf]
  rfl

theorem whole (h : Starves step w) : Starves (Attribute.whole step) w :=
  h.bind _

end Starves

namespace Attribute

variable (pool) in
/-- The step that reads the body under an interpreted name. It gives the attribute for whatever length
is declared. -/
def contents? (name : Datum) : Option (Reading (Datum → Attribute)) :=
  if name.name = "Code" then some do
    let c ← Code.read pool (readList pool)
    pure fun length => code name length c.frame c.attributes
  else (Body.reader? pool name.name).map fun reader => do
    let body ← reader
    pure fun length => simple name length body

variable (pool) in
theorem exists_contents (name : Datum) (h : name.name ∈ BodyForm.interpreted) :
    ∃ step, contents? pool name = some step := by
  unfold contents?
  by_cases hcode : name.name = "Code"
  · rw [if_pos hcode]
    exact ⟨_, rfl⟩
  · rw [if_neg hcode]
    cases hreader : Body.reader? pool name.name with
    | some reader => exact ⟨_, rfl⟩
    | none =>
      have hunder := Body.under_of_reader?_eq_none hreader hcode (.uninterpreted [])
      exact absurd h (hunder.2 ⟨[], rfl⟩)

theorem contents?_delimits {name : Datum} {step : Reading (Datum → Attribute)}
    (h : contents? pool name = some step) : Delimits step := by
  unfold contents? at h
  split at h
  · cases h
    exact (Code.read_delimits (readList_delimits pool)).bind fun _ => .pure _
  · obtain ⟨reader, hreader, rfl⟩ := Option.map_eq_some_iff.1 h
    exact (Body.reader?_delimits hreader).bind fun _ => .pure _

theorem readBody_eq {name : Datum} {step : Reading (Datum → Attribute)}
    (h : contents? pool name = some step) (length : Datum) :
    readBody pool (readList pool) name length =
      within name.name (whole do
        let make ← step
        pure (make length)) := by
  unfold contents? at h
  unfold readBody
  by_cases hcode : name.name = "Code"
  · rw [if_pos hcode] at h ⊢
    cases h
    simp only [bind_assoc, pure_bind]
  · rw [if_neg hcode] at h ⊢
    obtain ⟨reader, hreader, rfl⟩ := Option.map_eq_some_iff.1 h
    simp only [hreader, bind_assoc, pure_bind]

theorem whole_of_ok {α : Type} {step : Reading α} {w v : Window} {a : α} (h : step w = .ok (a, v)) :
    whole step w = if v.rest.isEmpty then .ok (a, v) else
      .error { phase := .attributeBody, cause := .unreadBytes v.remaining, offset := v.pos } := by
  rw [whole, Reading.bind_of_ok h]
  show (if v.rest.isEmpty then pure a else throw _ : Reading α) v = _
  split <;> rfl

theorem ok_of_whole {α : Type} {step : Reading α} {w v : Window} {a : α}
    (h : whole step w = .ok (a, v)) : step w = .ok (a, v) ∧ v.rest = [] := by
  obtain ⟨b, u, hb, -⟩ := Reading.bind_eq_ok.1 h
  rw [whole_of_ok hb] at h
  by_cases hempty : u.rest.isEmpty = true
  · rw [if_pos hempty] at h
    cases h
    exact ⟨hb, List.isEmpty_iff.1 hempty⟩
  · rw [if_neg hempty] at h
    cases h

/-! ## Headers -/

end Attribute

/-- The index of a name and a declared length, before the bytes `stream`. -/
def AttributeForm.declaring (name length : Nat) (stream : List UInt8) : List UInt8 :=
  Word.bytes 2 name ++ (Word.bytes 4 length ++ stream)

namespace Attribute

open AttributeForm

variable {name length : Nat} {s : String} {stream : List UInt8} {phase : Phase} {pos : Nat}

/-- After its header, an attribute is a part of the declared length. -/
theorem read_declaring (attributes : Reading (Datum × List Attribute)) (hname : name < 256 ^ 2)
    (hs : pool.text? name = some s) (hlength : length < 256 ^ 4) :
    read pool attributes ⟨phase, pos, declaring name length stream⟩ =
      (do
        let window ← Window.child length
        let r ← onChild .attributeBody window (readBody pool attributes
          ((Datum.wordAt pos name).named s) (Datum.ofWord 4 .structural (pos + 2) length))
        pure r.1 : Reading Attribute) ⟨phase, pos + 6, stream⟩ := by
  have hindex : Datum.u2 ⟨phase, pos, declaring name length stream⟩ =
      .ok (Datum.wordAt pos name, ⟨phase, pos + 2, Word.bytes 4 length ++ stream⟩) :=
    (Datum.u2_reads _ _ _).2 ⟨name, hname, ⟨rfl, by simp [Datum.unsignedFormat], rfl⟩, rfl⟩
  have hrefer : settled (pool.referText (Datum.wordAt pos name))
      ⟨phase, pos + 2, Word.bytes 4 length ++ stream⟩ =
        .ok ((Datum.wordAt pos name).named s, ⟨phase, pos + 2, Word.bytes 4 length ++ stream⟩) :=
    Reading.settled_eq_ok.2 ⟨(pool.referText_wordAt hname).2 ⟨s, hs, rfl⟩, rfl⟩
  have hdeclared : Datum.u4 ⟨phase, pos + 2, Word.bytes 4 length ++ stream⟩ =
      .ok (Datum.ofWord 4 .structural (pos + 2) length, ⟨phase, pos + 6, stream⟩) :=
    (Datum.u4_reads _ _ _).2 ⟨length, hlength, ⟨rfl, by simp [Datum.unsignedFormat], rfl⟩, rfl⟩
  simp only [read, readHead, bind_assoc, pure_bind]
  rw [Reading.bind_of_ok hindex, Reading.bind_of_ok hrefer, Reading.bind_of_ok hdeclared]
  rfl

theorem read_declaring_of_le (attributes : Reading (Datum × List Attribute)) (hname : name < 256 ^ 2)
    (hs : pool.text? name = some s) (hlength : length < 256 ^ 4) (hfits : length ≤ stream.length) :
    read pool attributes ⟨phase, pos, declaring name length stream⟩ =
      (readBody pool attributes ((Datum.wordAt pos name).named s)
        (Datum.ofWord 4 .structural (pos + 2) length)
        ⟨.attributeBody, pos + 6, stream.take length⟩).map
        fun r => (r.1, ⟨phase, pos + 6 + length, stream.drop length⟩) := by
  have htake : (stream.take length).length = length := List.length_take_of_le hfits
  have hchild : Window.child length ⟨phase, pos + 6, stream⟩ =
      .ok (⟨phase, pos + 6, stream.take length⟩, ⟨phase, pos + 6 + length, stream.drop length⟩) := by
    refine Window.child_eq_ok.2 ⟨stream.take length, by rw [htake], ⟨?_, ?_, rfl⟩, rfl⟩
    · exact (List.take_append_drop _ _).symm
    · rw [htake]
  rw [read_declaring attributes hname hs hlength, Reading.bind_of_ok hchild]
  simp only [onChild, settled, bind, StateT.bind]
  cases readBody pool attributes _ _ _ <;> rfl

theorem le_of_read_declaring {attributes : Reading (Datum × List Attribute)} (hname : name < 256 ^ 2)
    (hs : pool.text? name = some s) (hlength : length < 256 ^ 4) {a : Attribute} {w' : Window}
    (h : read pool attributes ⟨phase, pos, declaring name length stream⟩ = .ok (a, w')) :
    length ≤ stream.length := by
  rw [read_declaring attributes hname hs hlength] at h
  obtain ⟨window, v, hchild, -⟩ := Reading.bind_eq_ok.1 h
  obtain ⟨bs, hlen, hafter, -⟩ := Window.child_eq_ok.1 hchild
  have hroom := hafter.remaining
  simp only [Window.remaining] at hroom
  omega

/-! ## Other lengths -/

/-- What a body takes when it is read under the right length: all of the window, and any longer or
shorter window shows that it does. -/
theorem contents_of_read {step : Reading (Datum → Attribute)} (hname : name < 256 ^ 2)
    (hs : pool.text? name = some s) (hlength : length < 256 ^ 4)
    (hstep : contents? pool ((Datum.wordAt pos name).named s) = some step) {a : Attribute}
    {w' : Window} (h : read pool (readList pool) ⟨phase, pos, declaring name length stream⟩ = .ok (a, w')) :
    (∀ rest, ∃ make, step ⟨.attributeBody, pos + 6, stream.take length ++ rest⟩ =
        .ok (make, ⟨.attributeBody, pos + 6 + length, rest⟩))
      ∧ ∀ p q, stream.take length = p ++ q → q ≠ [] → Starves step ⟨.attributeBody, pos + 6, p⟩ := by
  have hfits := le_of_read_declaring hname hs hlength h
  rw [read_declaring_of_le _ hname hs hlength hfits, readBody_eq hstep] at h
  obtain ⟨b, v, hbody, -⟩ := Reading.map_eq_ok.1 h
  obtain ⟨hc, hrest⟩ := ok_of_whole (Reading.within_eq_ok.1 hbody)
  obtain ⟨make, u, hmake, hpure⟩ := Reading.bind_eq_ok.1 hc
  obtain ⟨-, rfl⟩ := Reading.pure_eq_ok.1 hpure
  obtain ⟨bs, hafter, hsame, hstarve⟩ := contents?_delimits hstep _ _ _ hmake
  have hbs : stream.take length = bs := by
    have hall := hafter.rest
    rwa [hrest, List.append_nil] at hall
  have hlen : bs.length = length := by
    rw [← hbs, List.length_take_of_le hfits]
  refine ⟨fun rest => ⟨make, ?_⟩, fun p q hpq hq => hstarve p q (hbs ▸ hpq) hq⟩
  have hlonger := hsame rest
  rw [hlen] at hlonger
  rw [hbs]
  exact hlonger

theorem read_longer (hname : name < 256 ^ 2) (hs : pool.text? name = some s)
    (hinterpreted : s ∈ BodyForm.interpreted) (hlength : length < 256 ^ 4) {a : Attribute}
    {w' : Window}
    (h : read pool (readList pool) ⟨phase, pos, declaring name length stream⟩ = .ok (a, w'))
    {longer : Nat} (hlt : length < longer) (hle : longer ≤ stream.length)
    (hbound : longer < 256 ^ 4) :
    read pool (readList pool) ⟨phase, pos, declaring name longer stream⟩ =
      .error ⟨.attributeBody, .unreadBytes (longer - length), (pos + 6 + length : Nat), [s]⟩ := by
  obtain ⟨step, hstep⟩ := exists_contents pool ((Datum.wordAt pos name).named s) hinterpreted
  have hfits := le_of_read_declaring hname hs hlength h
  obtain ⟨extra, hextra⟩ : ∃ extra, stream.take longer = stream.take length ++ extra := by
    refine ⟨(stream.take longer).drop length, ?_⟩
    have hsplit := List.take_append_drop length (stream.take longer)
    rw [List.take_take, Nat.min_eq_left (Nat.le_of_lt hlt)] at hsplit
    exact hsplit.symm
  have hcount : extra.length = longer - length := by
    have hlen := congrArg List.length hextra
    rw [List.length_append, List.length_take_of_le hle, List.length_take_of_le hfits] at hlen
    omega
  have hne : extra.isEmpty = false := by
    rw [List.isEmpty_eq_false_iff, ← List.length_pos_iff]
    omega
  obtain ⟨make, hmake⟩ := (contents_of_read hname hs hlength hstep h).1 extra
  rw [read_declaring_of_le _ hname hs hbound hle, readBody_eq hstep, hextra, within,
    whole_of_ok (Reading.bind_of_ok hmake)]
  simp only [hne, Window.remaining, hcount]
  rfl

theorem read_shorter (hname : name < 256 ^ 2) (hs : pool.text? name = some s)
    (hinterpreted : s ∈ BodyForm.interpreted) (hlength : length < 256 ^ 4) {a : Attribute}
    {w' : Window}
    (h : read pool (readList pool) ⟨phase, pos, declaring name length stream⟩ = .ok (a, w'))
    {shorter : Nat} (hlt : shorter < length) :
    ∃ f, read pool (readList pool) ⟨phase, pos, declaring name shorter stream⟩ = .error f
      ∧ f.kind = .endOfInput ∧ (pos + 6 : Nat) ≤ f.offset ∧ f.offset ≤ (pos + 6 + shorter : Nat) := by
  obtain ⟨step, hstep⟩ := exists_contents pool ((Datum.wordAt pos name).named s) hinterpreted
  have hfits := le_of_read_declaring hname hs hlength h
  have hle : shorter ≤ stream.length := by omega
  have hsplit : stream.take length = stream.take shorter ++ (stream.take length).drop shorter := by
    have hsplit := List.take_append_drop shorter (stream.take length)
    rw [List.take_take, Nat.min_eq_left (Nat.le_of_lt hlt)] at hsplit
    exact hsplit.symm
  have hne : (stream.take length).drop shorter ≠ [] := by
    intro hnil
    have hlen := List.drop_eq_nil_iff.1 hnil
    rw [List.length_take_of_le hfits] at hlen
    omega
  have hstarve := (contents_of_read hname hs hlength hstep h).2 _ _ hsplit hne
  have hbody : Starves (readBody pool (readList pool) ((Datum.wordAt pos name).named s)
      (Datum.ofWord 4 .structural (pos + 2) shorter)) ⟨.attributeBody, pos + 6, stream.take shorter⟩ := by
    rw [readBody_eq hstep]
    exact (hstarve.bind _).whole.within _
  obtain ⟨f, hf, hkind, hlo, hhi⟩ := hbody
  refine ⟨f, ?_, hkind, hlo, ?_⟩
  · rw [read_declaring_of_le _ hname hs (by omega) hle, hf]
    rfl
  · simpa only [Window.stop, Window.remaining, List.length_take_of_le hle] using hhi

/-- **At most one declared length.** If an attribute with an interpreted name is read under a declared
length, then under every greater length that the window still holds the fault is that bytes are left
unread, from where the body ends, and under every smaller one it is that the input ends too early,
inside the declared body. So under no other length is the attribute read. -/
theorem declared_length_unique (hname : name < 256 ^ 2) (hs : pool.text? name = some s)
    (hinterpreted : s ∈ BodyForm.interpreted) (hlength : length < 256 ^ 4) {a : Attribute}
    {w' : Window}
    (h : read pool (readList pool) ⟨phase, pos, declaring name length stream⟩ = .ok (a, w')) :
    (∀ longer, length < longer → longer ≤ stream.length → longer < 256 ^ 4 →
        ∃ f, read pool (readList pool) ⟨phase, pos, declaring name longer stream⟩ = .error f
          ∧ f.kind = .invalidData ∧ f.cause = .unreadBytes (longer - length)
          ∧ f.phase = .attributeBody ∧ f.offset = (pos + 6 + length : Nat) ∧ f.path = [s])
      ∧ (∀ shorter, shorter < length →
        ∃ f, read pool (readList pool) ⟨phase, pos, declaring name shorter stream⟩ = .error f
          ∧ f.kind = .endOfInput ∧ (pos + 6 : Nat) ≤ f.offset ∧ f.offset ≤ (pos + 6 + shorter : Nat))
      ∧ ∀ other, other < 256 ^ 4 →
        (∃ r, read pool (readList pool) ⟨phase, pos, declaring name other stream⟩ = .ok r) →
        other = length := by
  refine ⟨fun longer hlt hle hbound => ?_, fun shorter hlt => ?_, ?_⟩
  · exact ⟨_, read_longer hname hs hinterpreted hlength h hlt hle hbound, rfl, rfl, rfl, rfl, rfl⟩
  · exact read_shorter hname hs hinterpreted hlength h hlt
  · rintro other hbound ⟨⟨b, v⟩, hread⟩
    rcases Nat.lt_trichotomy other length with hlt | heq | hlt
    · obtain ⟨f, hf, -⟩ := read_shorter hname hs hinterpreted hlength h hlt
      cases hf.symm.trans hread
    · exact heq
    · have hle := le_of_read_declaring hname hs hbound hread
      cases (read_longer hname hs hinterpreted hlength h hlt hle hbound).symm.trans hread

/-- What may be written is read under the length of its body. -/
theorem read_written {form : AttributeForm} (h : form.Legal pool) (phase : Phase) (pos : Nat)
    (rest : List UInt8) :
    read pool (readList pool)
        ⟨phase, pos, declaring form.name form.bodyBytes.length (form.bodyBytes ++ rest)⟩ =
      .ok (form.place pool pos, ⟨phase, pos + form.bytes.length, rest⟩) := by
  have hbytes : declaring form.name form.bodyBytes.length (form.bodyBytes ++ rest) =
      form.bytes ++ rest := by
    simp only [declaring, bytes, framed, List.append_assoc]
  have hdepth : form.depth ≤ (form.bytes ++ rest).length := by
    have hle := depth_le_length form
    rw [List.length_append, bytes, length_framed]
    omega
  have hagree : AgreeBelow (form.bytes ++ rest).length
      (readNested pool (form.bytes ++ rest).length) (readList pool) :=
    fun w hw => (readNested_agree pool _ _ hw w (Nat.le_refl _)).symm
  rw [hbytes, ← read_agree hagree ⟨phase, pos, form.bytes ++ rest⟩ (Nat.le_succ _)]
  exact (read_reads (readNested_reads _) _ _ _).2 ⟨form, ⟨h, hdepth⟩, ⟨rfl, rfl, rfl⟩, rfl⟩

/-- A method body with an exception table, another method body and an uninterpreted attribute. -/
def nestedForm : AttributeForm :=
  .code 3 ⟨0, 1, [.fixed 0xb1 []], [⟨0, 1, 0, 0⟩]⟩
    [.code 3 ⟨0, 0, [], []⟩ [], .simple 1 (.uninterpreted [7])]

theorem declared_length_unique_nested :
    let pool := ClassForm.nestedPool
    let stream := nestedForm.bodyBytes ++ [1, 2]
    pool.text? 3 = some "Code" ∧ "Code" ∈ BodyForm.interpreted
      ∧ (∃ r, read pool (readList pool) ⟨.decode, 10, declaring 3 46 stream⟩ = .ok r)
      ∧ (∀ longer, 46 < longer → longer ≤ stream.length → longer < 256 ^ 4 →
        ∃ f, read pool (readList pool) ⟨.decode, 10, declaring 3 longer stream⟩ = .error f
          ∧ f.kind = .invalidData ∧ f.cause = .unreadBytes (longer - 46)
          ∧ f.phase = .attributeBody ∧ f.offset = (10 + 6 + 46 : Nat) ∧ f.path = ["Code"])
      ∧ (∀ shorter, shorter < 46 →
        ∃ f, read pool (readList pool) ⟨.decode, 10, declaring 3 shorter stream⟩ = .error f
          ∧ f.kind = .endOfInput ∧ (10 + 6 : Nat) ≤ f.offset ∧ f.offset ≤ (10 + 6 + shorter : Nat))
      ∧ ∀ other, other < 256 ^ 4 →
        (∃ r, read pool (readList pool) ⟨.decode, 10, declaring 3 other stream⟩ = .ok r) →
        other = 46 := by
  intro pool stream
  have hmethod := ClassForm.nested_legal.parts.methods.2 _ (.head _)
  have hlegal : nestedForm.Legal pool := legalList_iff.1 hmethod.attributes.2 _ (.head _)
  have hread := read_written hlegal .decode 10 [1, 2]
  have hname : pool.text? 3 = some "Code" := by decide +kernel
  have hinterpreted : "Code" ∈ BodyForm.interpreted := by decide
  exact ⟨hname, hinterpreted, ⟨_, hread⟩,
    declared_length_unique (by decide) hname hinterpreted (by decide) hread⟩

end Attribute

end

end ClassAtlas

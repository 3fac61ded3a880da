import ClassAtlas.Proofs.BodyLayout
import ClassAtlas.Proofs.Disassembly

/-! # The layout of attributes

An attribute is written as the index of its name, the length of its body, and the body. A method body
holds code, an exception table and attributes of its own.

* `FrameForm`, `AttributeForm`: method bodies without their attributes, and attributes, as they are
  written.
* `AttributeForm.Legal pool`, `AttributeForm.bytes`, `AttributeForm.place pool`: the attributes that
  may stand in a file with this pool, how they are written, and the decoded attribute at an offset.
* `AttributeForm.depth`: how deep method bodies are nested.
* `Attribute.readList_reads`: what is read is this layout, at every depth.
-/

namespace ClassAtlas
set_option autoImplicit false

/-! ## Method bodies -/

structure FrameForm where
  maxStack : Nat
  maxLocals : Nat
  code : List Op
  handlers : List HandlerForm
  deriving DecidableEq

namespace FrameForm

/-- How a method body is written, up to its attributes. -/
def bytes (f : FrameForm) : List UInt8 :=
  Word.bytes 2 f.maxStack ++ (Word.bytes 2 f.maxLocals
    ++ (Word.bytes 4 (Bytecode.bytes f.code).length
      ++ (Bytecode.bytes f.code ++ Word.rows HandlerForm.bytes f.handlers)))

structure Legal (pool : Pool) (f : FrameForm) : Prop where
  maxStack : f.maxStack < 256 ^ 2
  maxLocals : f.maxLocals < 256 ^ 2
  codeLength : (Bytecode.bytes f.code).length < 256 ^ 4
  code : Bytecode.LegalFrom pool 0 f.code
  handlers : (HandlerForm.format pool).counted.legal f.handlers

/-- The decoded frame of a method body with so many attributes. -/
def place (pool : Pool) (pos count : Nat) (f : FrameForm) : Frame :=
  let table := pos + 8 + (Bytecode.bytes f.code).length
  { maxStack := Datum.wordAt pos f.maxStack
    maxLocals := Datum.wordAt (pos + 2) f.maxLocals
    codeLength := Datum.ofWord 4 .structural (pos + 4) (Bytecode.bytes f.code).length
    instructions := Bytecode.placeFrom pool (pos + 8) 0 f.code
    handlerCount := ((HandlerForm.format pool).counted.place table f.handlers).1
    handlers := ((HandlerForm.format pool).counted.place table f.handlers).2
    attributeCount := Datum.wordAt (pos + f.bytes.length) count }

end FrameForm

/-! ## Attributes -/

/-- An attribute as it is written; the name is an index. -/
inductive AttributeForm where
  | simple (name : Nat) (body : BodyForm)
  | code (name : Nat) (frame : FrameForm) (attributes : List AttributeForm)

namespace AttributeForm

def name : AttributeForm → Nat
  | simple name _ | code name _ _ => name

/-- How an attribute with this name and this body is written. -/
def framed (name : Nat) (body : List UInt8) : List UInt8 :=
  Word.bytes 2 name ++ (Word.bytes 4 body.length ++ body)

mutual

def bodyBytes : AttributeForm → List UInt8
  | simple _ body => body.bytes
  | code _ frame attributes =>
    frame.bytes ++ (Word.bytes 2 attributes.length ++ bytesOfList attributes)

def bytesOfList : List AttributeForm → List UInt8
  | [] => []
  | a :: as => framed a.name a.bodyBytes ++ bytesOfList as

end

def bytes (a : AttributeForm) : List UInt8 :=
  framed a.name a.bodyBytes

theorem bytesOfList_eq (as : List AttributeForm) : bytesOfList as = as.flatMap bytes := by
  induction as with
  | nil => rfl
  | cons a as ih => rw [bytesOfList, ih, List.flatMap_cons, bytes]

theorem length_framed (name : Nat) (body : List UInt8) :
    (framed name body).length = body.length + 6 := by
  rw [framed, List.length_append, List.length_append, Word.length_bytes, Word.length_bytes]
  omega

mutual

/-- How deep method bodies are nested in the attribute. -/
def depth : AttributeForm → Nat
  | simple .. => 0
  | code _ _ attributes => depthOfList attributes + 1

def depthOfList : List AttributeForm → Nat
  | [] => 0
  | a :: as => max a.depth (depthOfList as)

end

theorem depthOfList_le {as : List AttributeForm} {d : Nat} :
    depthOfList as ≤ d ↔ ∀ a ∈ as, a.depth ≤ d := by
  induction as with
  | nil => simp [depthOfList]
  | cons a as ih => rw [depthOfList, Nat.max_le, ih, List.forall_mem_cons]

mutual

/-- Each method body in an attribute takes more bytes than what is nested in it. -/
theorem depth_le_length (a : AttributeForm) : a.depth ≤ a.bodyBytes.length := by
  cases a with
  | simple name body => exact Nat.zero_le _
  | code name frame attributes =>
    have h := depthOfList_le_length attributes
    rw [depth, bodyBytes, List.length_append, List.length_append, Word.length_bytes]
    omega

theorem depthOfList_le_length (as : List AttributeForm) :
    depthOfList as ≤ (bytesOfList as).length := by
  cases as with
  | nil => exact Nat.le_refl _
  | cons a as =>
    have ha := depth_le_length a
    have has := depthOfList_le_length as
    rw [depthOfList, bytesOfList, List.length_append, length_framed]
    omega

end

section

variable (pool : Pool)

mutual

/-- The attribute may stand in a file with this pool. -/
def Legal : AttributeForm → Prop
  | simple name body =>
    name < 256 ^ 2 ∧ body.bytes.length < 256 ^ 4
      ∧ ∃ s, pool.text? name = some s ∧ body.Under s ∧ body.Legal pool
  | code name frame attributes =>
    name < 256 ^ 2 ∧ (bodyBytes (code name frame attributes)).length < 256 ^ 4
      ∧ pool.text? name = some "Code" ∧ frame.Legal pool ∧ attributes.length < 256 ^ 2
      ∧ LegalList attributes

def LegalList : List AttributeForm → Prop
  | [] => True
  | a :: as => a.Legal ∧ LegalList as

end

mutual

/-- The decoded attribute that starts at an offset. -/
def place : Nat → AttributeForm → Attribute
  | pos, simple name body =>
    .simple ((Datum.wordAt pos name).named ((pool.text? name).getD ""))
      (Datum.ofWord 4 .structural (pos + 2) body.bytes.length) (body.place pool (pos + 6))
  | pos, code name frame attributes =>
    .code ((Datum.wordAt pos name).named ((pool.text? name).getD ""))
      (Datum.ofWord 4 .structural (pos + 2) (bodyBytes (code name frame attributes)).length)
      (frame.place pool (pos + 6) attributes.length)
      (placeList (pos + 6 + frame.bytes.length + 2) attributes)

def placeList : Nat → List AttributeForm → List Attribute
  | _, [] => []
  | pos, a :: as => place pos a :: placeList (pos + a.bytes.length) as

end

/-- Attributes in which method bodies are nested up to a depth. -/
def format (d : Nat) : Format AttributeForm Attribute where
  legal a := a.Legal pool ∧ a.depth ≤ d
  bytes := bytes
  place := place pool

/-- Counted attributes in which method bodies are nested less deep than `d`. -/
def listFormat (d : Nat) : Format (List AttributeForm) (Datum × List Attribute) where
  legal as := as.length < 256 ^ 2 ∧ LegalList pool as ∧ depthOfList as < d
  bytes := Word.rows bytes
  place pos as := (Datum.wordAt pos as.length, placeList pool (pos + 2) as)

def lists : Format (List AttributeForm) (Datum × List Attribute) where
  legal as := as.length < 256 ^ 2 ∧ LegalList pool as
  bytes := Word.rows bytes
  place pos as := (Datum.wordAt pos as.length, placeList pool (pos + 2) as)

/-- The part of `Legal` that is about the body, under a name. -/
def BodyLegal (s : String) : AttributeForm → Prop
  | simple _ body => body.Under s ∧ body.Legal pool
  | code _ frame attributes =>
    s = "Code" ∧ frame.Legal pool ∧ attributes.length < 256 ^ 2 ∧ LegalList pool attributes

/-- The decoded attribute, given its name and its length, with the body at an offset. -/
def placeBody (name length : Datum) (pos : Nat) : AttributeForm → Attribute
  | simple _ body => .simple name length (body.place pool pos)
  | code _ frame attributes =>
    .code name length (frame.place pool pos attributes.length)
      (placeList pool (pos + frame.bytes.length + 2) attributes)

def bodyFormat (d : Nat) (name length : Datum) : Format AttributeForm Attribute where
  legal a := a.name = name.raw ∧ a.depth ≤ d ∧ a.BodyLegal pool name.name
  bytes := bodyBytes
  place := placeBody pool name length

end

variable {pool : Pool}

theorem legal_iff {a : AttributeForm} : a.Legal pool ↔
    a.name < 256 ^ 2 ∧ a.bodyBytes.length < 256 ^ 4
      ∧ ∃ s, pool.text? a.name = some s ∧ a.BodyLegal pool s := by
  cases a with
  | simple name body => simp only [Legal, AttributeForm.name, bodyBytes, BodyLegal]
  | code name frame attributes =>
    rw [Legal]
    refine and_congr_right fun _ => and_congr_right fun _ => ?_
    constructor
    · rintro ⟨hname, hlegal⟩
      exact ⟨"Code", hname, rfl, hlegal⟩
    · rintro ⟨s, hname, rfl, hlegal⟩
      exact ⟨hname, hlegal⟩

theorem legalList_iff {as : List AttributeForm} :
    LegalList pool as ↔ ∀ a ∈ as, a.Legal pool := by
  induction as with
  | nil => simp [LegalList]
  | cons a as ih => rw [LegalList, ih, List.forall_mem_cons]

theorem placeList_eq (d : Nat) (as : List AttributeForm) (pos : Nat) :
    placeList pool pos as = (format pool d).placeAll pos as := by
  induction as generalizing pos with
  | nil => rfl
  | cons a as ih =>
    rw [placeList, ih]
    rfl

theorem place_eq {s : String} {a : AttributeForm} {pos : Nat} (hs : pool.text? a.name = some s) :
    a.place pool pos = a.placeBody pool ((Datum.wordAt pos a.name).named s)
      (Datum.ofWord 4 .structural (pos + 2) a.bodyBytes.length) (pos + 6) := by
  cases a with
  | simple name body =>
    rw [place, show pool.text? name = some s from hs, Option.getD_some]
    rfl
  | code name frame attributes =>
    rw [place, show pool.text? name = some s from hs, Option.getD_some]
    rfl

end AttributeForm

/-! ## Reading -/

theorem Fills.within {ι α : Type} {step : Reading α} {F : Format ι α} (h : Fills step F)
    (segment : String) : Fills (within segment step) F := by
  intro w a w'
  rw [Reading.within_eq_ok, h w a w']

namespace Attribute

open AttributeForm

theorem whole_fills {ι α : Type} {step : Reading α} {F : Format ι α} (h : Reads step F) :
    Fills (whole step) F := by
  intro w a w'
  simp only [whole, Reading.bind_eq_ok, Reading.get_eq_ok]
  constructor
  · rintro ⟨b, v, hb, u, u', ⟨rfl, rfl⟩, hend⟩
    obtain ⟨x, hx, hafter, rfl⟩ := (h _ _ _).1 hb
    split at hend
    · rename_i hempty
      obtain ⟨rfl, rfl⟩ := Reading.pure_eq_ok.1 hend
      exact ⟨x, hx, hafter, List.isEmpty_iff.1 hempty, rfl⟩
    · exact (Reading.throw_eq_ok.1 hend).elim
  · rintro ⟨x, hx, hafter, hrest, rfl⟩
    refine ⟨_, w', (h _ _ _).2 ⟨x, hx, hafter, rfl⟩, w', w', ⟨rfl, rfl⟩, ?_⟩
    rw [if_pos (by rw [hrest]; rfl)]
    exact Reading.pure_eq_ok.2 ⟨rfl, rfl⟩

/-- Bytes up to the end of the window. -/
theorem skip_fills {α : Type} (make : Datum → α) :
    Fills (do let w ← get; let info ← Datum.skip w.remaining; pure (make info))
      { legal := fun _ => True, bytes := id, place := fun pos bs => make (Datum.ofSkipped pos bs) } := by
  intro w a w'
  simp only [Reading.bind_eq_ok, Reading.get_eq_ok, Reading.pure_eq_ok]
  constructor
  · rintro ⟨u, v, ⟨rfl, rfl⟩, d, v', hd, rfl, rfl⟩
    obtain ⟨bs, hlen, hafter, rfl⟩ := (Datum.skip_reads _ _ _ _).1 hd
    have hrest := hafter.remaining
    have hlen' : (bs.length : Int) = w.remaining := hlen
    refine ⟨bs, trivial, hafter, List.length_eq_zero_iff.1 ?_, rfl⟩
    show v'.remaining = 0
    have hbytes : ((Datum.skipFormat w.remaining).bytes bs).length = bs.length := rfl
    omega
  · rintro ⟨bs, -, hafter, hrest, rfl⟩
    have hlen : w.remaining = bs.length := by
      have h := hafter.remaining
      have hzero : w'.remaining = 0 := List.length_eq_zero_iff.2 hrest
      have hbytes : (id bs : List UInt8).length = bs.length := rfl
      omega
    refine ⟨w, w, ⟨rfl, rfl⟩, Datum.ofSkipped w.pos bs, w', ?_, rfl, rfl⟩
    exact (Datum.skip_reads _ _ _ _).2 ⟨bs, by rw [hlen]; rfl, hafter, rfl⟩

variable {pool : Pool}

end Attribute

namespace Code

open AttributeForm

/-- Method bodies with attributes nested less deep than `d`. -/
def format (pool : Pool) (d : Nat) : Format (FrameForm × List AttributeForm) Code where
  legal x := x.1.Legal pool ∧ (listFormat pool d).legal x.2
  bytes x := x.1.bytes ++ (listFormat pool d).bytes x.2
  place pos x :=
    { frame := x.1.place pool pos x.2.length
      attributes := placeList pool (pos + x.1.bytes.length + 2) x.2 }

theorem add_length_frame (pos : Nat) (f : FrameForm) : pos + f.bytes.length =
    pos + 8 + (Bytecode.bytes f.code).length + (Word.rows HandlerForm.bytes f.handlers).length := by
  simp only [FrameForm.bytes, List.length_append, Word.length_bytes]
  omega

theorem read_reads {pool : Pool} {d : Nat} {attributes : Reading (Datum × List Attribute)}
    (h : Reads attributes (listFormat pool d)) :
    Reads (read pool attributes) (format pool d) := by
  simp only [read, readHead, readHandlers, bind_assoc, pure_bind]
  apply Runs.reads
  · exact Datum.u2_reads.bind fun maxStack => Datum.u2_reads.bind fun maxLocals =>
      Datum.u4_reads.bind fun codeLength =>
        (Disassembly.disassemble_fills pool).child_bind .disassemble codeLength.raw
          fun instructions => Format.counted_bind Datum.u2_reads (Handler.read_reads pool)
            fun handlerCount handlers => h.bind fun r => Runs.pure (Code.mk
              { maxStack, maxLocals, codeLength, instructions, handlerCount, handlers,
                attributeCount := r.1 } r.2)
  · intro pos bs c
    constructor
    · rintro ⟨maxStack, hstack, _, rfl, maxLocals, hlocals, _, rfl, n, hn, _, rfl, ops, hops, hlen, _,
        rfl, handlers, hhandlers, _, rfl, as, has, _, rfl, rfl, rfl⟩
      obtain rfl : (Bytecode.bytes ops).length = n := Int.ofNat_inj.1 hlen
      refine ⟨(⟨maxStack, maxLocals, ops, handlers⟩, as), ⟨⟨hstack, hlocals, hn, hops, hhandlers⟩, has⟩,
        ?_, ?_⟩
      · simp only [format, FrameForm.bytes, List.append_assoc, List.append_nil]
        rfl
      · simp only [format, FrameForm.place, add_length_frame]
        rfl
    · rintro ⟨⟨⟨maxStack, maxLocals, ops, handlers⟩, as⟩, ⟨⟨hstack, hlocals, hn, hops, hhandlers⟩, has⟩,
        rfl, rfl⟩
      refine ⟨maxStack, hstack, _, ?_, maxLocals, hlocals, _, rfl, _, hn, _, rfl, ops, hops, rfl, _, rfl,
        handlers, hhandlers, _, rfl, as, has, [], (List.append_nil _).symm, rfl, ?_⟩
      · simp only [format, FrameForm.bytes, List.append_assoc]
        rfl
      · simp only [format, FrameForm.place, add_length_frame]
        rfl

end Code

namespace Attribute

open AttributeForm

variable {pool : Pool}

theorem code_fills {d : Nat} {attributes : Reading (Datum × List Attribute)}
    (h : Reads attributes (listFormat pool d)) {name : Datum} (length : Datum)
    (hname : name.name = "Code") :
    Fills (whole do
      let c ← Code.read pool attributes
      pure (code name length c.frame c.attributes)) (bodyFormat pool d name length) := by
  apply whole_fills
  apply Runs.reads ((Code.read_reads h).bind fun c => Runs.pure (code name length c.frame c.attributes))
  intro pos bs a
  constructor
  · rintro ⟨⟨frame, as⟩, ⟨hframe, hlen, has, hdepth⟩, cs, rfl, rfl, rfl⟩
    refine ⟨.code name.raw frame as, ⟨rfl, ?_, hname, hframe, hlen, has⟩, ?_, rfl⟩
    · rw [depth]
      exact hdepth
    · rw [List.append_nil]
      simp only [bodyFormat, bodyBytes, bytesOfList_eq]
      rfl
  · rintro ⟨a, ⟨hraw, hdepth, hbody⟩, rfl, rfl⟩
    cases a with
    | simple _ body =>
      rw [hname] at hbody
      exact (Body.not_under_code body hbody.1).elim
    | code _ frame as =>
      obtain ⟨-, hframe, hlen, has⟩ := hbody
      rw [depth] at hdepth
      refine ⟨(frame, as), ⟨hframe, hlen, has, hdepth⟩, [], ?_, rfl, rfl⟩
      rw [List.append_nil]
      simp only [bodyFormat, bodyBytes, bytesOfList_eq]
      rfl

theorem simple_fills {d : Nat} {name : Datum} (length : Datum) {reader : Reading Body}
    (hreader : Body.reader? pool name.name = some reader) (hname : name.name ≠ "Code") :
    Fills (whole do
      let body ← reader
      pure (simple name length body)) (bodyFormat pool d name length) := by
  apply whole_fills
  apply Runs.reads ((Body.reader?_reads hreader).bind fun b => Runs.pure (simple name length b))
  intro pos bs a
  constructor
  · rintro ⟨b, hb, cs, rfl, rfl, rfl⟩
    refine ⟨.simple name.raw b, ⟨rfl, Nat.zero_le _, hb⟩, ?_, rfl⟩
    rw [List.append_nil]
    rfl
  · rintro ⟨a, ⟨hraw, hdepth, hbody⟩, rfl, rfl⟩
    cases a with
    | simple _ b => exact ⟨b, hbody, [], (List.append_nil _).symm, rfl, rfl⟩
    | code _ frame as => exact (hname hbody.1).elim

theorem readBody_fills {d : Nat} {attributes : Reading (Datum × List Attribute)}
    (h : Reads attributes (listFormat pool d)) (name length : Datum) :
    Fills (readBody pool attributes name length) (bodyFormat pool d name length) := by
  unfold readBody
  by_cases hname : name.name = "Code"
  · rw [if_pos hname]
    exact (code_fills h length hname).within _
  · rw [if_neg hname]
    cases hreader : Body.reader? pool name.name with
    | some reader => exact (simple_fills length hreader hname).within _
    | none =>
      have hunder := Body.under_of_reader?_eq_none hreader hname
      intro w a w'
      refine (skip_fills (fun info => simple name length (.uninterpreted info)) w a w').trans ?_
      constructor
      · rintro ⟨bs, -, hafter, hrest, rfl⟩
        exact ⟨.simple name.raw (.uninterpreted bs),
          ⟨rfl, Nat.zero_le _, (hunder _).2 ⟨bs, rfl⟩, trivial⟩, hafter, hrest, rfl⟩
      · rintro ⟨a, ⟨hraw, hdepth, hbody⟩, hafter, hrest, rfl⟩
        cases a with
        | simple _ b =>
          obtain ⟨bs, rfl⟩ := (hunder b).1 hbody.1
          exact ⟨bs, trivial, hafter, hrest, rfl⟩
        | code _ frame as => exact (hname hbody.1).elim

/-- One attribute, given what is read for the attributes of a method body. -/
theorem read_reads {d : Nat} {attributes : Reading (Datum × List Attribute)}
    (h : Reads attributes (listFormat pool d)) :
    Reads (read pool attributes) (AttributeForm.format pool d) := by
  simp only [read, readHead, bind_assoc, pure_bind]
  apply Runs.reads
  · exact Datum.u2_reads.bind fun name => Runs.settled_bind (pool.referText name) fun name =>
      Datum.u4_reads.bind fun length =>
        (readBody_fills h name length).child_bind .attributeBody length.raw Runs.pure
  · intro pos bs a
    constructor
    · rintro ⟨i, hi, _, rfl, name, hname, n, hn, _, rfl, a, ⟨hraw, hdepth, hbody⟩, hlen, _, rfl, rfl, rfl⟩
      obtain ⟨s, hs, rfl⟩ := (pool.referText_wordAt hi).1 hname
      obtain rfl : a.name = i := hraw
      obtain rfl : a.bodyBytes.length = n := Int.ofNat_inj.1 hlen
      refine ⟨a, ⟨legal_iff.2 ⟨hi, hn, s, hs, hbody⟩, hdepth⟩, ?_, (place_eq hs).symm⟩
      rw [List.append_nil]
      rfl
    · rintro ⟨a, ⟨hlegal, hdepth⟩, rfl, rfl⟩
      obtain ⟨hi, hn, s, hs, hbody⟩ := legal_iff.1 hlegal
      refine ⟨a.name, hi, _, rfl, _, (pool.referText_wordAt hi).2 ⟨s, hs, rfl⟩, a.bodyBytes.length, hn, _,
        rfl, a, ⟨rfl, hdepth, hbody⟩, rfl, [], (List.append_nil _).symm, rfl, place_eq hs⟩

theorem readNested_reads (d : Nat) : Reads (readNested pool d) (listFormat pool d) := by
  induction d with
  | zero =>
    intro w r w'
    rw [readNested, Reading.within_eq_ok]
    constructor
    · intro h
      cases h
    · rintro ⟨as, ⟨-, -, hdepth⟩, -⟩
      exact (Nat.not_lt_zero _ hdepth).elim
  | succ d ih =>
    have hcounted := (read_reads ih).counted "attributes_count" fun i =>
      "attributes[" ++ toString i ++ "]"
    have hlegal : ∀ as, (AttributeForm.format pool d).counted.legal as ↔
        (listFormat pool (d + 1)).legal as := by
      intro as
      simp only [Format.counted, AttributeForm.format, listFormat, Nat.lt_succ_iff, depthOfList_le,
        legalList_iff, forall_and]
    intro w r w'
    refine (hcounted w r w').trans (exists_congr fun as => and_congr (hlegal as) ?_)
    simp only [listFormat, placeList_eq d]
    rfl

/-- The window is long enough for the depth of any attributes that are written in it. -/
theorem readList_reads : Reads (readList pool) (lists pool) := by
  intro w r w'
  simp only [readList, Reading.bind_eq_ok, Reading.get_eq_ok]
  constructor
  · rintro ⟨u, v, ⟨rfl, rfl⟩, hr⟩
    obtain ⟨as, ⟨hlen, has, -⟩, hafter, rfl⟩ := (readNested_reads _ _ _ _).1 hr
    exact ⟨as, ⟨hlen, has⟩, hafter, rfl⟩
  · rintro ⟨as, ⟨hlen, has⟩, hafter, rfl⟩
    have hdepth : depthOfList as < w.remaining := by
      have hle := depthOfList_le_length as
      have hrem := hafter.remaining
      have hrows : ((lists pool).bytes as).length = (bytesOfList as).length + 2 := by
        simp only [lists, Word.rows, List.length_append, Word.length_bytes, bytesOfList_eq]
        omega
      omega
    exact ⟨w, w, ⟨rfl, rfl⟩, (readNested_reads _ _ _ _).2 ⟨as, ⟨hlen, has, hdepth⟩, hafter, rfl⟩⟩

end Attribute

end ClassAtlas

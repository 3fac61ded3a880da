import ClassAtlas.ClassFile.Reading

/-! # The journal of a decoding

What a decoding has to report as it goes: the entries of the pool are read, they are named, the class
is decoded. A decoding that fails keeps the records it came to.

* `Record`: a report, with its message and its fields.
* `ClassFile.journal`: the records of a decoding, and its outcome.
* `ClassFile.journal_snd`: the outcome is that of `ClassFile.decode`.
-/

namespace ClassAtlas
set_option autoImplicit false

/-! ## Records -/

/-- A report about a decoding. -/
inductive Record where
  /-- The entries of the pool are read, up to an offset. -/
  | poolRead (count : Int) (offset : Nat)
  /-- The entries of the pool are named. -/
  | poolNamed (entries : Nat)
  /-- The whole class is decoded. -/
  | decoded (name version : String) (fields methods size : Nat)

/-- The value of a field of a record. -/
inductive RecordValue where
  | number (n : Int)
  | text (s : String)

namespace Record

def message : Record → String
  | poolRead .. => "constant pool decoded"
  | poolNamed .. => "constant pool resolved"
  | decoded .. => "class decoded"

/-- The particulars of the report, in order. -/
def fields : Record → List (String × RecordValue)
  | poolRead count offset => [("count", .number count), ("end", .number offset)]
  | poolNamed entries => [("entries", .number entries)]
  | decoded name version fields methods size =>
    [("class", .text name), ("version", .text version), ("fields", .number fields),
      ("methods", .number methods), ("size", .number size)]

end Record

/-! ## Decoding with a journal -/

namespace ClassFile

/-- The report about a decoded class of `size` bytes. -/
def record (cf : ClassFile) (size : Nat) : Record :=
  .decoded cf.name cf.version cf.fields.length cf.methods.length size

/-- The records of a decoding in order, and its outcome. -/
def journal (bytes : List UInt8) : List Record × Except Fault ClassFile :=
  match Header.read (Window.ofBytes bytes) with
  | .error f => ([], .error f)
  | .ok (h, w) =>
    let read := .poolRead h.pool.count.num w.pos
    match h.resolve with
    | .error f => ([read], .error f)
    | .ok pool =>
      let named := .poolNamed pool.constants.length
      match readAfterPool h pool w with
      | .error f => ([read, named], .error f)
      | .ok (cf, _) => ([read, named, cf.record bytes.length], .ok cf)

theorem journal_snd (bytes : List UInt8) : (journal bytes).2 = decode bytes := by
  unfold journal decode read
  simp only [bind, StateT.bind, settled]
  cases hh : Header.read (Window.ofBytes bytes) with
  | error f => rfl
  | ok hw =>
    obtain ⟨h, w⟩ := hw
    simp only [Except.bind]
    cases hr : h.resolve with
    | error f => rfl
    | ok pool =>
      simp only [Except.map]
      cases readAfterPool h pool w with
      | error f => rfl
      | ok cw => rfl

end ClassFile

end ClassAtlas

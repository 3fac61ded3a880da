import ClassAtlas.Proofs.Respelling

/-! # Bytes that make no difference

Decoding looks at some bytes only to count them: the bodies of attributes without an interpretation,
the padding of switches, and what follows the class. Whatever stands there, the tree is the same. The
magic number and the versions are kept, and nothing else depends on them.

* `ClassFile.Unread`: the values whose bytes are only counted, at any depth.
* `ClassFile.decode_of_agree`: other bytes for unread values give the same tree.
* `ClassFile.decode_of_versions`: another magic number and other versions.
* `ClassFile.decode_indifferent`: both.
-/

namespace ClassAtlas
set_option autoImplicit false

/-! ## Unread values -/

namespace ClassFile

/-- The values of bytes that are not interpreted: bodies of attributes, padding, and what follows the
class. -/
inductive Unread (cf : ClassFile) : Datum → Prop
  | body {count name length d : Datum} {as : List Attribute} (has : cf.Lists count as)
      (ha : .simple name length (.uninterpreted d) ∈ as) : cf.Unread d
  | padding {count name length d : Datum} {frame : Frame} {as bs : List Attribute} {i : Instruction}
      (has : cf.Lists count as) (ha : .code name length frame bs ∈ as) (hi : i ∈ frame.instructions)
      (hd : d ∈ i.hidden) (hkind : d.kind = .padding) : cf.Unread d
  | trailing {d : Datum} (hd : cf.trailing = some d) : cf.Unread d

end ClassFile

namespace Attribute

theorem mem_leavesOfList {as : List Attribute} {a : Attribute} (ha : a ∈ as) {l : Leaf}
    (hl : l ∈ a.leaves) : l ∈ leavesOfList as := by
  induction ha with
  | head as =>
    rw [leavesOfList]
    exact List.mem_append_left _ hl
  | tail b _ ih =>
    rw [leavesOfList]
    exact List.mem_append_right _ ih

end Attribute

namespace ClassFile

variable {cf : ClassFile}

theorem Lists.leaves_subset {count : Datum} {as : List Attribute} (h : cf.Lists count as) :
    Attribute.leavesOfList as ⊆ cf.partLeaves := by
  induction h with
  | ofClass =>
    intro l hl
    simp [partLeaves, hl]
  | ofField hm =>
    intro l hl
    have hmember : l ∈ cf.fields.flatMap Member.leaves := by
      refine List.mem_flatMap.2 ⟨_, hm, ?_⟩
      simp [Member.leaves, hl]
    simp [partLeaves, hmember]
  | ofMethod hm =>
    intro l hl
    have hmember : l ∈ cf.methods.flatMap Member.leaves := by
      refine List.mem_flatMap.2 ⟨_, hm, ?_⟩
      simp [Member.leaves, hl]
    simp [partLeaves, hmember]
  | nested _ ha ih =>
    intro l hl
    apply ih
    apply Attribute.mem_leavesOfList ha
    rw [Attribute.leaves]
    exact List.mem_append_right _ hl

/-- The leaves after the pool, up to the end of the file. -/
def leavesAfterPool (cf : ClassFile) : List Leaf :=
  cf.partLeaves ++ Role.all .bulk cf.trailing.toList

theorem Unread.mem_leaves {d : Datum} (h : cf.Unread d) : ⟨.bulk, d⟩ ∈ cf.leavesAfterPool := by
  cases h with
  | body has ha =>
    refine List.mem_append_left _ (has.leaves_subset (Attribute.mem_leavesOfList ha ?_))
    rw [Attribute.leaves]
    simp [Body.leaves]
  | @padding _ _ _ _ frame _ _ i has ha hi hd hkind =>
    have hleaf : ⟨.bulk, d⟩ ∈ i.leaves := by
      have hoperand : i.operandLeaf d = ⟨.bulk, d⟩ := by
        rw [Instruction.operandLeaf, hkind]
        rfl
      have hpart : i.operandLeaf d ∈ i.hidden.map i.operandLeaf := List.mem_map_of_mem hd
      rw [hoperand] at hpart
      unfold Instruction.leaves
      rw [List.mem_mergeSort]
      simp [Instruction.partLeaves, hpart]
    have hcode : ⟨.bulk, d⟩ ∈ frame.instructions.flatMap Instruction.leaves :=
      List.mem_flatMap.2 ⟨i, hi, hleaf⟩
    refine List.mem_append_left _ (has.leaves_subset (Attribute.mem_leavesOfList ha ?_))
    rw [Attribute.leaves]
    refine List.mem_append_left _ ?_
    simp [Frame.leaves, hcode]
  | trailing hd =>
    refine List.mem_append_right _ (List.mem_map_of_mem ?_)
    rw [hd]
    exact .head _

end ClassFile

/-! ## Other bytes for unread values -/

namespace ClassForm

theorem trailingAt_congr {as bs : List UInt8} (h : as.length = bs.length) (pos : Nat) :
    trailingAt pos as = trailingAt pos bs := by
  simp only [trailingAt, ← List.length_eq_zero_iff, Datum.ofSkipped, h]

theorem tree_leavesAfterPool {pool : Pool} {c : ClassForm} (h : c.Legal pool)
    (trailing : List UInt8) :
    Spells pool c.toHeaderForm.bytes.length (c.tree pool trailing).leavesAfterPool
      (c.toPartsForm.bytes ++ trailing) :=
  (PartsForm.partLeaves_spell h.titled h.parts (c.toHeaderForm.place 0) _).append_of_eq
    List.length_append.symm (trailing_spells pool _ trailing)

/-- Other bytes for the leaves after the pool are another class with the same tree. -/
theorem respell {pool : Pool} {c : ClassForm} (h : c.Legal pool) {trailing bs : List UInt8}
    (hs : Spells pool c.toHeaderForm.bytes.length (c.tree pool trailing).leavesAfterPool bs) :
    ∃ (c' : ClassForm) (trailing' : List UInt8), c'.Legal pool
      ∧ c'.bytes ++ trailing' = c.toHeaderForm.bytes ++ bs
      ∧ c'.tree pool trailing' = c.tree pool trailing := by
  have hparts := PartsForm.partLeaves_spell h.titled h.parts (c.toHeaderForm.place 0)
    c.toHeaderForm.bytes.length
  obtain ⟨as, trailing', rfl, hlen, hfirst, hrest⟩ := Spells.split hs hparts
  obtain ⟨p, hp, rfl, hplace⟩ := PartsForm.respell h.titled h.parts (c.toHeaderForm.place 0) hfirst
  have hlen' : trailing'.length = trailing.length := by
    rw [← List.length_append] at hrest
    exact hrest.length_eq (trailing_spells pool _ trailing)
  refine ⟨⟨c.toHeaderForm, p⟩, trailing', ⟨h.header, h.named, hp⟩, List.append_assoc _ _ _, ?_⟩
  have hbytes : (ClassForm.mk c.toHeaderForm p).bytes.length = c.bytes.length := by
    simp only [bytes, List.length_append, hlen]
  simp only [tree, hplace, hbytes, trailingAt_congr hlen']

end ClassForm

theorem ClassFile.decode_of_agree {bytes bytes' : List UInt8} {cf : ClassFile}
    (h : decode bytes = .ok cf) (hlen : bytes'.length = bytes.length)
    (hagree : ∀ k, (∀ d, cf.Unread d → k < d.offset ∨ d.stop ≤ k) → bytes'[k]? = bytes[k]?) :
    decode bytes' = .ok cf := by
  obtain ⟨c, pool, trailing, hlegal, rfl, rfl⟩ := decode_eq_ok.1 h
  have hspells := c.tree_leavesAfterPool hlegal trailing
  have hbytes : c.bytes ++ trailing = c.toHeaderForm.bytes ++ (c.toPartsForm.bytes ++ trailing) := by
    rw [ClassForm.bytes, List.append_assoc]
  rw [hbytes] at hlen hagree
  generalize c.toPartsForm.bytes ++ trailing = rest at hspells hlen hagree
  rw [List.length_append] at hlen
  have hfront : bytes'.take c.toHeaderForm.bytes.length = c.toHeaderForm.bytes := by
    apply List.ext_getElem?
    intro k
    by_cases hk : k < c.toHeaderForm.bytes.length
    · have hbyte := hagree k fun d hd => by
        obtain ⟨hle, -⟩ := hspells.sound_of_mem hd.mem_leaves
        exact .inl (Nat.lt_of_lt_of_le hk hle)
      rw [List.getElem?_take_of_lt hk, hbyte, List.getElem?_append_left hk]
    · rw [List.getElem?_eq_none (by rw [List.length_take]; omega),
        List.getElem?_eq_none (Nat.le_of_not_lt hk)]
  have hback : Spells pool c.toHeaderForm.bytes.length (c.tree pool trailing).leavesAfterPool
      (bytes'.drop c.toHeaderForm.bytes.length) := by
    refine hspells.replace (by rw [List.length_drop]; omega) fun k hk => ?_
    have hbyte := hagree (c.toHeaderForm.bytes.length + k) fun d hd => hk _ hd.mem_leaves rfl
    rw [List.getElem?_drop, hbyte, List.getElem?_append_right (Nat.le_add_right _ _),
      Nat.add_sub_cancel_left]
  obtain ⟨c', trailing', hlegal', hbytes', htree⟩ := ClassForm.respell hlegal hback
  refine decode_eq_ok.2 ⟨c', pool, trailing', hlegal', ?_, htree.symm⟩
  calc bytes' = bytes'.take c.toHeaderForm.bytes.length ++ bytes'.drop c.toHeaderForm.bytes.length :=
        (List.take_append_drop _ _).symm
    _ = c'.bytes ++ trailing' := by rw [hfront, hbytes']

/-! ## The magic number and the versions -/

/-- A word is read wherever there are bytes enough. -/
theorem Reads.exists_word {width : Nat} {step : Reading Datum} {place : Nat → Nat → Datum}
    (h : Reads step { legal := fun n => n < 256 ^ width, bytes := Word.bytes width, place := place })
    (phase : Phase) (pos : Nat) {bs : List UInt8} (hlen : width ≤ bs.length) :
    ∃ d, step ⟨phase, pos, bs⟩ = .ok (d, ⟨phase, pos + width, bs.drop width⟩) := by
  have htake : (bs.take width).length = width := by
    rw [List.length_take]
    omega
  have hbytes := Word.bytes_bigEndian (bs.take width)
  have hlt := Window.bigEndian_lt (bs.take width)
  rw [htake] at hbytes hlt
  refine ⟨_, (h _ _ _).2 ⟨Window.bigEndian (bs.take width), hlt, ⟨?_, ?_, rfl⟩, rfl⟩⟩
  · simp only [hbytes, List.take_append_drop]
  · simp only [hbytes, htake]

namespace ClassFile

/-- The file from its pool on, given what stands before the pool. -/
def readFromPool (magic minorVersion majorVersion : Datum) : Reading ClassFile := do
  let pool ← within "constant_pool" Pool.read
  let h : Header := { magic, minorVersion, majorVersion, pool }
  let pool ← settled h.resolve
  readAfterPool h pool

theorem decode_eq_readFromPool {bytes : List UInt8} (hlen : 8 ≤ bytes.length) :
    ∃ magic minorVersion majorVersion, decode bytes =
      (readFromPool magic minorVersion majorVersion ⟨.decode, 8, bytes.drop 8⟩).map (·.1) := by
  obtain ⟨magic, hmagic⟩ := (Header.magic_reads.within "magic").exists_word .decode 0
    (show 4 ≤ bytes.length by omega)
  obtain ⟨minor, hminor⟩ := (Datum.u2_reads.within "minor_version").exists_word .decode 4
    (show 2 ≤ (bytes.drop 4).length by rw [List.length_drop]; omega)
  obtain ⟨major, hmajor⟩ := (Datum.u2_reads.within "major_version").exists_word .decode 6
    (show 2 ≤ (bytes.drop 6).length by rw [List.length_drop]; omega)
  rw [List.drop_drop] at hminor hmajor
  have hread : read (Window.ofBytes bytes) =
      readFromPool magic minor major ⟨.decode, 8, bytes.drop 8⟩ := by
    simp only [read, Header.read, Header.parts, Parts.read, bind_assoc, pure_bind]
    rw [Window.ofBytes, Reading.bind_of_ok hmagic, Reading.bind_of_ok hminor,
      Reading.bind_of_ok hmajor]
    rfl
  exact ⟨magic, minor, major, by rw [decode, hread]⟩

/-- The class file with another magic number and other versions. -/
def withVersions (magic minorVersion majorVersion : Datum) (cf : ClassFile) : ClassFile :=
  { cf with magic, minorVersion, majorVersion }

theorem readAfterPool_withVersions (magic minorVersion majorVersion : Datum) (h : Header)
    (pool : Pool) :
    readAfterPool { h with magic, minorVersion, majorVersion } pool =
      withVersions magic minorVersion majorVersion <$> readAfterPool h pool := by
  simp only [readAfterPool, readParts, parts, Parts.read, bind_assoc, pure_bind, map_bind, map_pure]
  rfl

theorem readFromPool_withVersions (magic minor major magic' minor' major' : Datum) :
    readFromPool magic' minor' major' =
      withVersions magic' minor' major' <$> readFromPool magic minor major := by
  simp only [readFromPool, map_bind, ← readAfterPool_withVersions]
  rfl

theorem decode_of_versions {bytes bytes' : List UInt8} (h : 8 ≤ bytes.length)
    (hlen : bytes'.length = bytes.length) (hrest : bytes'.drop 8 = bytes.drop 8) :
    ∃ magic minor major, decode bytes' = (decode bytes).map (withVersions magic minor major) := by
  obtain ⟨magic, minor, major, hdecode⟩ := decode_eq_readFromPool h
  obtain ⟨magic', minor', major', hdecode'⟩ := decode_eq_readFromPool (hlen ▸ h)
  refine ⟨magic', minor', major', ?_⟩
  rw [hdecode', hdecode, hrest, readFromPool_withVersions magic minor major]
  cases hrun : readFromPool magic minor major ⟨.decode, 8, bytes.drop 8⟩ with
  | error f => simp [Functor.map, StateT.map, hrun, bind, Except.bind, Except.map]
  | ok r => simp [Functor.map, StateT.map, hrun, bind, Except.bind, Except.map, pure, Except.pure]

/-- **Bytes that make no difference.** Let two byte strings have the same length. If one of them is
decoded and they differ in bytes of unread values only, then the other one is decoded too, to the same
tree. If they differ in the first eight bytes only, then both fail with the same fault, or both are
decoded and their trees have the same values but for the magic number and the versions. -/
theorem decode_indifferent (bytes bytes' : List UInt8) (hlen : bytes'.length = bytes.length) :
    (∀ cf, decode bytes = .ok cf →
      (∀ k, (∀ d, cf.Unread d → k < d.offset ∨ d.stop ≤ k) → bytes'[k]? = bytes[k]?) →
        decode bytes' = .ok cf)
      ∧ (8 ≤ bytes.length → bytes'.drop 8 = bytes.drop 8 → ∃ magic minor major,
        decode bytes' = (decode bytes).map (withVersions magic minor major)) :=
  ⟨fun _ h hagree => decode_of_agree h hlen hagree, fun h hrest => decode_of_versions h hlen hrest⟩

/-- One byte each of the padding of a switch, of a body and of what follows the class is replaced, and
then the first eight bytes are. -/
theorem decode_indifferent_switching :
    let bytes := ClassForm.switching.bytes ++ [1, 2]
    let cf := ClassForm.switching.tree ClassForm.nestedPool [1, 2]
    decode bytes = .ok cf
      ∧ decode (((bytes.set 68 0).set 139 0).set 142 0) = .ok cf
      ∧ ∃ magic minor major, decode (List.replicate 8 0 ++ bytes.drop 8) =
        .ok (cf.withVersions magic minor major) := by
  intro bytes cf
  have h : decode bytes = .ok cf := decode_eq_ok.2 ⟨_, _, _, ClassForm.switching_legal, rfl, rfl⟩
  have hmethod : cf.Lists _ _ := .ofMethod (.head _)
  have hnested : cf.Lists _ _ := .nested (.nested hmethod (.head _)) (.head _)
  have hpadding : cf.Unread _ := .padding hmethod (.head _) (.head _) (.head _) rfl
  have hbody : cf.Unread _ := .body hnested (.head _)
  have htrailing : cf.Unread _ := .trailing rfl
  refine ⟨h, (decode_indifferent bytes _ (by simp)).1 cf h fun k hk => ?_, ?_⟩
  · have hne : k ≠ 68 := by
      rintro rfl
      exact absurd (hk _ hpadding) (by decide)
    have hne' : k ≠ 139 := by
      rintro rfl
      exact absurd (hk _ hbody) (by decide)
    have hne'' : k ≠ 142 := by
      rintro rfl
      exact absurd (hk _ htrailing) (by decide +kernel)
    rw [List.getElem?_set_ne hne''.symm, List.getElem?_set_ne hne'.symm,
      List.getElem?_set_ne hne.symm]
  · obtain ⟨magic, minor, major, hdecode⟩ :=
      (decode_indifferent bytes (List.replicate 8 0 ++ bytes.drop 8) (by decide +kernel)).2
        (by decide +kernel) rfl
    rw [h] at hdecode
    exact ⟨magic, minor, major, hdecode⟩

end ClassFile

end ClassAtlas

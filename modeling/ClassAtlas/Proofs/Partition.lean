import ClassAtlas.Proofs.Transcript

/-! # The spans of a class file

The leaves of a decoded class file spell it, so its values follow each other without a gap from the
first byte to the last one, and so do its spans, which are the values that have a width.

* `ClassFile.data_tiles`: the values of a decoded file tile the file.
* `ClassFile.spans_partition`: the spans of a decoded file are a partition of it.
-/

namespace ClassAtlas
set_option autoImplicit false

namespace ClassFile

variable {bytes : List UInt8} {cf : ClassFile}

theorem data_tiles (h : decode bytes = .ok cf) : Tiles 0 cf.data bytes.length := by
  have htiles := (leaves_spell h).tiles
  rwa [cf.map_datum_leaves, Nat.zero_add] at htiles

theorem spans_tile (h : decode bytes = .ok cf) : Tiles 0 cf.spans bytes.length :=
  (data_tiles h).filter

theorem length_pos (h : decode bytes = .ok cf) : 0 < bytes.length := by
  obtain ⟨c, pool, trailing, -, rfl, -⟩ := decode_eq_ok.1 h
  simp only [ClassForm.bytes, HeaderForm.bytes, List.length_append, Word.length_bytes]
  omega

end ClassFile

/-- **The spans of a class file.** Whatever bytes are decoded, the spans are a partition of them: each
span has a width, the first one starts at the first byte, each other one starts where the one before
it ends, and the last one ends with the bytes. -/
theorem ClassFile.spans_partition {bytes : List UInt8} {cf : ClassFile} (h : decode bytes = .ok cf) :
    (∀ d ∈ cf.spans, 0 < d.width) ∧ cf.spans.head?.map (·.offset) = some 0
      ∧ (∀ (i : Nat) (hi : i + 1 < cf.spans.length), cf.spans[i + 1].offset = cf.spans[i].stop)
      ∧ cf.spans.getLast?.map (·.stop) = some bytes.length := by
  have htiles := spans_tile h
  have hne := htiles.ne_nil (length_pos h)
  refine ⟨?_, htiles.head_offset hne, htiles.next_offset, htiles.last_stop hne⟩
  intro d hd
  exact of_decide_eq_true (List.mem_filter.1 hd).2

theorem ClassFile.spans_partition_nested :
    decode (ClassForm.nested.bytes ++ [1, 2]) =
        .ok (ClassForm.nested.tree ClassForm.nestedPool [1, 2])
      ∧ let spans := (ClassForm.nested.tree ClassForm.nestedPool [1, 2]).spans
        (∀ d ∈ spans, 0 < d.width) ∧ spans.head?.map (·.offset) = some 0
          ∧ (∀ (i : Nat) (hi : i + 1 < spans.length), spans[i + 1].offset = spans[i].stop)
          ∧ spans.getLast?.map (·.stop) = some (ClassForm.nested.bytes ++ [1, 2]).length := by
  have h : decode (ClassForm.nested.bytes ++ [1, 2]) =
      .ok (ClassForm.nested.tree ClassForm.nestedPool [1, 2]) :=
    decode_eq_ok.2 ⟨_, _, _, ClassForm.nested_legal, rfl, rfl⟩
  exact ⟨h, spans_partition h⟩

end ClassAtlas

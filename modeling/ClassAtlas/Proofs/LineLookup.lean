import ClassAtlas.Proofs.Sizes

/-! # Lines by program counter

The rows of a line table stand in any order, and several of them may start at one program counter. One
pass over the rows finds the one that covers a program counter: it keeps a row where it starts later
than the one kept so far, and begins below the start of any row.

* `Covers`: the row that covers a program counter, and its position in the table.
* `Scanned`: what the pass has found after some of the rows; `Scanned.step`, `Scanned.run`: one row and
  all of them.
* `Covers.perm`: where all rows start apart, their order does not matter.
* `ClassFile.line_lookup`: the line of every program counter, in every table of a decoded file.
-/

namespace ClassAtlas
set_option autoImplicit false

/-- The row at position `i` starts at or before `pc`, no such row starts later, and none at a smaller
position starts where it does. -/
structure Covers (pc : Int) (es : List LineEntry) (i : Nat) (e : LineEntry) : Prop where
  entry : es[i]? = some e
  started : e.startPc.num ≤ pc
  greatest : ∀ x ∈ es, x.startPc.num ≤ pc → x.startPc.num ≤ e.startPc.num
  earliest : ∀ (j : Nat) (x : LineEntry), es[j]? = some x → x.startPc.num = e.startPc.num → i ≤ j

namespace Covers

variable {pc : Int} {es : List LineEntry} {i : Nat} {e : LineEntry}

theorem mem (h : Covers pc es i e) : e ∈ es :=
  List.mem_of_getElem? h.entry

theorem unique (h : Covers pc es i e) {j : Nat} {x : LineEntry} (h' : Covers pc es j x) :
    i = j ∧ e = x := by
  have hle := h.greatest x h'.mem h'.started
  have hge := h'.greatest e h.mem h.started
  have hij := h.earliest j x h'.entry (by omega)
  have hji := h'.earliest i e h.entry (by omega)
  obtain rfl : i = j := Nat.le_antisymm hij hji
  exact ⟨rfl, Option.some.inj (h.entry.symm.trans h'.entry)⟩

/-- A row that starts later than every row before it that has started. -/
theorem last (hpc : e.startPc.num ≤ pc)
    (hlater : ∀ x ∈ es, x.startPc.num ≤ pc → x.startPc.num < e.startPc.num) :
    Covers pc (es ++ [e]) es.length e where
  entry := List.getElem?_concat_length
  started := hpc
  greatest x hx hle := by
    rcases List.mem_append.1 hx with hx | hx
    · exact Int.le_of_lt (hlater x hx hle)
    · obtain rfl := List.mem_singleton.1 hx
      exact Int.le_refl _
  earliest j x hj hstart := by
    refine Nat.le_of_not_lt fun hlt => ?_
    rw [List.getElem?_append_left hlt] at hj
    have := hlater x (List.mem_of_getElem? hj) (by omega)
    omega

theorem concat (h : Covers pc es i e) {x : LineEntry}
    (hx : x.startPc.num ≤ pc → x.startPc.num ≤ e.startPc.num) : Covers pc (es ++ [x]) i e := by
  obtain ⟨hi, -⟩ := List.getElem?_eq_some_iff.1 h.entry
  refine ⟨(List.getElem?_append_left hi).trans h.entry, h.started, ?_, ?_⟩
  · intro y hy hle
    rcases List.mem_append.1 hy with hy | hy
    · exact h.greatest y hy hle
    · obtain rfl := List.mem_singleton.1 hy
      exact hx hle
  · intro j y hj hstart
    by_cases hlt : j < es.length
    · rw [List.getElem?_append_left hlt] at hj
      exact h.earliest j y hj hstart
    · omega

/-- Where all rows start apart, the row that covers `pc` does so in any order of the rows. -/
theorem perm (h : Covers pc es i e) {es' : List LineEntry} (hperm : es'.Perm es)
    (hapart : (es.map (·.startPc.num)).Nodup) : ∃ i', Covers pc es' i' e := by
  obtain ⟨i', hi'⟩ := List.getElem?_of_mem (hperm.mem_iff.2 h.mem)
  refine ⟨i', hi', h.started, fun x hx => h.greatest x (hperm.mem_iff.1 hx), ?_⟩
  intro j x hj hstart
  obtain ⟨hlt, -⟩ := List.getElem?_eq_some_iff.1 hi'
  have hnodup := (hperm.map (·.startPc.num)).nodup_iff.2 hapart
  refine Nat.le_of_eq ((List.getElem?_inj (by rwa [List.length_map]) hnodup).1 ?_)
  rw [List.getElem?_map, List.getElem?_map, hi', hj, Option.map_some, Option.map_some, hstart]

end Covers

/-! ## The pass over the rows -/

/-- What the pass has found in `es`: nothing where no row has started, else the row that covers `pc`. -/
inductive Scanned (pc : Int) (es : List LineEntry) : Int × Int → Prop
  | nothing (h : ∀ e ∈ es, pc < e.startPc.num) : Scanned pc es (-1, 0)
  | row {i : Nat} {e : LineEntry} (h : Covers pc es i e) : Scanned pc es (e.startPc.num, e.line.num)

namespace Scanned

variable {pc : Int} {es : List LineEntry} {found : Int × Int}

/-- One row more. A start below all others stands for no row, since no row starts below 0. -/
theorem step (h : Scanned pc es found) {e : LineEntry} (he : 0 ≤ e.startPc.num) :
    Scanned pc (es ++ [e]) (LineTable.scan pc found e) := by
  unfold LineTable.scan
  cases h with
  | nothing hlate =>
    by_cases hpc : e.startPc.num ≤ pc
    · rw [if_pos ⟨hpc, by omega⟩]
      refine .row (.last hpc fun x hx hle => ?_)
      have := hlate x hx
      omega
    · rw [if_neg fun h => hpc h.1]
      refine .nothing fun x hx => ?_
      rcases List.mem_append.1 hx with hx | hx
      · exact hlate x hx
      · obtain rfl := List.mem_singleton.1 hx
        exact Int.not_le.1 hpc
  | @row i b hb =>
    by_cases hlater : e.startPc.num ≤ pc ∧ b.startPc.num < e.startPc.num
    · rw [if_pos hlater]
      refine .row (.last hlater.1 fun x hx hle => ?_)
      exact Int.lt_of_le_of_lt (hb.greatest x hx hle) hlater.2
    · rw [if_neg hlater]
      exact .row (hb.concat fun hle => Int.not_lt.1 fun hlt => hlater ⟨hle, hlt⟩)

theorem run (h : Scanned pc es found) {rest : List LineEntry}
    (hrest : ∀ e ∈ rest, 0 ≤ e.startPc.num) :
    Scanned pc (es ++ rest) (rest.foldl (LineTable.scan pc) found) := by
  induction rest generalizing es found with
  | nil => rwa [List.append_nil]
  | cons e rest ih =>
    have hstep := ih (h.step (hrest e (.head _))) fun x hx => hrest x (.tail _ hx)
    rwa [List.append_assoc, List.singleton_append] at hstep

end Scanned

/-! ## Tables -/

namespace LineTable

variable {table : LineTable} {pc : Int}

theorem scanned (hstarts : ∀ e ∈ table.entries, 0 ≤ e.startPc.num) (pc : Int) :
    ∃ found, Scanned pc table.entries found ∧ table.line pc = found.2 := by
  have hempty : Scanned pc [] (-1, 0) := .nothing (by simp)
  exact ⟨_, hempty.run hstarts, rfl⟩

theorem line_of_covers (hstarts : ∀ e ∈ table.entries, 0 ≤ e.startPc.num) {i : Nat} {e : LineEntry}
    (h : Covers pc table.entries i e) : table.line pc = e.line.num := by
  obtain ⟨found, hfound, hline⟩ := scanned hstarts pc
  cases hfound with
  | nothing hlate =>
    have := hlate e h.mem
    have := h.started
    omega
  | row h' =>
    obtain ⟨-, rfl⟩ := h.unique h'
    exact hline

theorem line_of_late (hstarts : ∀ e ∈ table.entries, 0 ≤ e.startPc.num)
    (h : ∀ e ∈ table.entries, pc < e.startPc.num) : table.line pc = 0 := by
  obtain ⟨found, hfound, hline⟩ := scanned hstarts pc
  cases hfound with
  | nothing => exact hline
  | row h' =>
    have := h _ h'.mem
    have := h'.started
    omega

theorem line_perm (hstarts : ∀ e ∈ table.entries, 0 ≤ e.startPc.num)
    (hapart : (table.entries.map (·.startPc.num)).Nodup) {entries : List LineEntry}
    (hperm : entries.Perm table.entries) (pc : Int) :
    LineTable.line { table with entries := entries } pc = table.line pc := by
  have hstarts' : ∀ e ∈ entries, 0 ≤ e.startPc.num := fun e he => hstarts e (hperm.mem_iff.1 he)
  obtain ⟨found, hfound, hline⟩ := scanned hstarts pc
  cases hfound with
  | nothing hlate =>
    rw [hline]
    exact line_of_late hstarts' fun e he => hlate e (hperm.mem_iff.1 he)
  | row h =>
    obtain ⟨i, hi⟩ := h.perm hperm hapart
    rw [hline]
    exact line_of_covers hstarts' hi

end LineTable

/-- No row of a line table of a decoded file starts below 0. -/
theorem ClassFile.Lists.lineNumbers_starts {bytes : List UInt8} {cf : ClassFile}
    (h : decode bytes = .ok cf) {count : Datum} {as : List Attribute} (has : cf.Lists count as)
    {name length : Datum} {table : LineTable} (ha : .simple name length (.lineNumbers table) ∈ as) :
    ∀ e ∈ table.entries, 0 ≤ e.startPc.num := by
  obtain ⟨c, pool, trailing, hlegal, rfl, rfl⟩ := decode_eq_ok.1 h
  obtain ⟨form, pos, hform, hplace⟩ := has.body_written hlegal ha
  cases form with
  | lineNumbers rows =>
    cases hplace
    intro e he
    obtain ⟨r, hr, p, rfl⟩ := Format.mem_placeAll he
    have hnum : (LineForm.format.place p r).startPc.num = r.startPc :=
      Datum.num_wordAt p (hform.2 r hr).1
    omega
  | _ => cases hplace

/-- **Lines by program counter.** In every line table of a decoded file, at any depth and in any order of
its rows, the line of a program counter is that of the row of greatest start at or before it, and of
several such rows that of the first; there is such a row, or every row starts later and the line is 0.
Where all rows start apart, every order of them gives the same lines. -/
theorem ClassFile.line_lookup {bytes : List UInt8} {cf : ClassFile} (h : decode bytes = .ok cf)
    {count : Datum} {as : List Attribute} (has : cf.Lists count as) {name length : Datum}
    {table : LineTable} (ha : .simple name length (.lineNumbers table) ∈ as) (pc : Int) :
    (∀ i e, Covers pc table.entries i e → table.line pc = e.line.num)
      ∧ ((∀ e ∈ table.entries, pc < e.startPc.num) → table.line pc = 0)
      ∧ ((∃ i e, Covers pc table.entries i e) ∨ ∀ e ∈ table.entries, pc < e.startPc.num)
      ∧ ((table.entries.map (·.startPc.num)).Nodup → ∀ entries, entries.Perm table.entries →
        LineTable.line { table with entries := entries } pc = table.line pc) := by
  have hstarts := has.lineNumbers_starts h ha
  refine ⟨fun i e => LineTable.line_of_covers hstarts, LineTable.line_of_late hstarts, ?_,
    fun hapart entries hperm => LineTable.line_perm hstarts hapart hperm pc⟩
  obtain ⟨found, hfound, -⟩ := LineTable.scanned hstarts pc
  cases hfound with
  | nothing hlate => exact .inr hlate
  | row h => exact .inl ⟨_, _, h⟩

/-- The class `nested` with a line table in its method, two rows of which start together. -/
def ClassForm.lined : ClassForm :=
  { nested with
    slots := nested.slots ++ [some (.utf8 (Text.encode "LineNumberTable"))]
    interfaces := []
    methods := [⟨1, 1, 4, [.code 3 ⟨0, 1, [.fixed 0xb1 []], []⟩
      [.simple 5 (.lineNumbers [⟨4, 30⟩, ⟨0, 10⟩, ⟨4, 20⟩])]]⟩] }

/-- The pool of `lined` with the names of its entries. -/
def ClassForm.linedPool : Pool :=
  { lined.rawPool with
    slots := lined.rawPool.slots.map (Option.map (Pool.withName
      #[.unvisited, .named "A", .named "A", .named "Code", .named "()V", .named "LineNumberTable"])) }

theorem ClassForm.lined_legal : lined.Legal linedPool := by
  have htext : linedPool.text? 1 = some "A" ∧ linedPool.text? 3 = some "Code"
      ∧ linedPool.text? 4 = some "()V" ∧ linedPool.text? 5 = some "LineNumberTable"
      ∧ (linedPool.entry? 2).isSome = true := by
    decide +kernel
  obtain ⟨hname, hcode, hdescriptor, hlines, hclass⟩ := htext
  have hgrammar : Descriptor.Grammatical (Text.encode "()V") :=
    .inr ⟨⟨[], ⟨0, .void⟩⟩, [], [0x56], .nil, fun _ => ⟨rfl, rfl⟩,
      ⟨_, .primitive (fun _ => Descriptor.Base.noConfusion), rfl⟩, rfl⟩
  have hrows : LineForm.format.counted.legal [⟨4, 30⟩, ⟨0, 10⟩, ⟨4, 20⟩] := by
    refine ⟨by decide, ?_⟩
    simp [LineForm.format]
  refine ⟨⟨by decide, by decide, by decide, by decide, .inr ⟨_, rfl, ?_⟩⟩,
    Pool.resolve_of_ledger (by decide +kernel), ?_⟩
  · exact .narrow (by decide) rfl (.narrow (by decide) rfl (.narrow (by decide) rfl
      (.narrow (by decide) rfl (.narrow (by decide +kernel) rfl .nil))))
  · refine ⟨by decide, ⟨by decide, hclass⟩, ⟨by decide, .inl rfl⟩, ⟨by decide, by simp [lined]⟩,
      ⟨by decide, by simp [lined, nested]⟩, ⟨by decide, fun m hm => ?_⟩, ⟨by decide, trivial⟩⟩
    obtain rfl := List.mem_singleton.1 hm
    refine ⟨by decide, by decide, by decide, Option.isSome_iff_exists.2 ⟨_, hname⟩,
      ⟨_, hdescriptor, hgrammar⟩, by decide, ?_⟩
    simp only [AttributeForm.LegalList, AttributeForm.Legal]
    refine ⟨⟨by decide, by decide, hcode, ⟨by decide, by decide, by decide, ?_, by decide, by simp⟩,
      by decide, ⟨by decide, by decide, _, hlines, rfl, hrows⟩, trivial⟩, trivial⟩
    exact ⟨⟨by decide +kernel, by decide, by decide, by decide, by decide, by simp⟩, trivial⟩

/-- Two rows start at 4: from there on the first of them gives the line, and nothing does below 0. -/
theorem ClassFile.line_lookup_lined :
    let bytes := ClassForm.lined.bytes
    let cf := ClassForm.lined.tree ClassForm.linedPool []
    decode (bytes ++ []) = .ok cf
      ∧ ∃ count as name length table, cf.Lists count as
        ∧ .simple name length (.lineNumbers table) ∈ as
        ∧ table.entries.map (fun e => (e.startPc.num, e.line.num)) = [(4, 30), (0, 10), (4, 20)]
        ∧ table.line 7 = 30 ∧ table.line 3 = 10 ∧ table.line (-1) = 0 := by
  intro bytes cf
  have h : decode (bytes ++ []) = .ok cf := decode_eq_ok.2 ⟨_, _, _, ClassForm.lined_legal, rfl, rfl⟩
  have hlist : cf.Lists _ _ := .nested (.ofMethod (.head _)) (.head _)
  have hlookup := line_lookup h hlist (.head _)
  refine ⟨h, _, _, _, _, _, hlist, .head _, rfl, ?_, ?_, ?_⟩
  · exact (hlookup 7).1 0 _ ⟨rfl, by decide, by decide, fun j _ _ _ => Nat.zero_le j⟩
  · refine (hlookup 3).1 1 _ ⟨rfl, by decide, by decide, fun j x hj hstart => ?_⟩
    cases j with
    | zero =>
      cases hj
      exact absurd hstart (by decide)
    | succ j => omega
  · exact (hlookup (-1)).2.1 (by decide)

end ClassAtlas

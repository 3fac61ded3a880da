import ClassAtlas.Listing.Theme
import ClassAtlas.Proofs.ListingText
import ClassAtlas.Proofs.Slots

/-! # The lines of a listing

The constant pool and the byte map give a line to each of their entries. The names of the entries are
shown as they stand in the class, where a text may go over several lines: then so does the line of an
entry that is named with it, and only then.

* `lineEnds`: the number of ends of line in a text.
* `Lines heading as line name listing`: a listing with a line for each entry, as whole as its name.
* `pool_lines`, `byteMap_lines`: the two listings.
* `listing_lines`: the two listings of a decoded class.
-/

namespace ClassAtlas.Listing
set_option autoImplicit false

/-! ## Ends of line -/

/-- The number of ends of line in a text. -/
def lineEnds (s : String) : Nat :=
  s.toList.count '\n'

theorem lineEnds_eq_zero {s : String} : lineEnds s = 0 ↔ Lacks .lineFeed s :=
  List.count_eq_zero

theorem lineEnds_newline : lineEnds "\n" = 1 := by
  decide

theorem lineEnds_append (s t : String) : lineEnds (s ++ t) = lineEnds s + lineEnds t := by
  rw [lineEnds, String.toList_append, List.count_append]
  rfl

theorem lineEnds_expandTabs (s : String) : lineEnds (expandTabs s) = lineEnds s := by
  rw [expandTabs, lineEnds, String.toList_ofList, lineEnds]
  induction s.toList with
  | nil => rfl
  | cons c cs ih =>
    rw [List.flatMap_cons, List.count_append, ih]
    split
    · rename_i htab
      simp [htab]
    · exact List.count_append.symm

theorem lineEnds_render_nil : lineEnds (Theme.plain.render []) = 0 := rfl

theorem lineEnds_render_cons (f : Fragment) (d : Document) :
    lineEnds (Theme.plain.render (f :: d))
      = lineEnds f.content + lineEnds (Theme.plain.render d) := by
  have hfragment : lineEnds (Theme.plain.fragment f) = lineEnds f.content := by
    cases f with
    | text s => rfl
    | token role s => exact lineEnds_expandTabs s
  rw [Theme.render, List.map_cons, String.join_cons, lineEnds_append, hfragment]
  rfl

theorem render_append (theme : Theme) (d e : Document) :
    theme.render (d ++ e) = theme.render d ++ theme.render e := by
  rw [Theme.render, List.map_append, String.join_append]
  rfl

theorem render_flatMap {α : Type} (theme : Theme) (as : List α) (g : α → Document) :
    theme.render (as.flatMap g) = String.join (as.map fun a => theme.render (g a)) := by
  induction as with
  | nil => rfl
  | cons a as ih => rw [List.flatMap_cons, render_append, ih, List.map_cons, String.join_cons]

/-! ## A line for each entry -/

/-- The listing is a heading and then, in the order of the entries, a line for each of them. A line has
the ends of line that its name has. -/
structure Lines {α : Type} (heading : String) (as : List α) (line name : α → String)
    (listing : String) : Prop where
  text : listing = heading ++ "\n" ++ String.join (as.map fun a => line a ++ "\n")
  breaks : ∀ a ∈ as, lineEnds (line a) = lineEnds (name a)
  single : lineEnds listing = 1 + as.length ↔ ∀ a ∈ as, Lacks .lineFeed (name a)

section

variable {α : Type} {heading listing : String} {as : List α} {line name : α → String}

/-- There is an end of line after each line, and no other one just when no line has one. -/
theorem lineEnds_join (as : List α) (line : α → String) :
    let ends := lineEnds (String.join (as.map fun a => line a ++ "\n"))
    as.length ≤ ends ∧ (ends = as.length ↔ ∀ a ∈ as, lineEnds (line a) = 0) := by
  induction as with
  | nil => exact ⟨Nat.le_refl _, by simp [lineEnds]⟩
  | cons a as ih =>
    obtain ⟨hle, heq⟩ := ih
    simp only [List.map_cons, String.join_cons, lineEnds_append, lineEnds_newline, List.length_cons,
      List.forall_mem_cons, ← heq]
    omega

theorem lines_of_breaks (hheading : Lacks .lineFeed heading)
    (htext : listing = heading ++ "\n" ++ String.join (as.map fun a => line a ++ "\n"))
    (hbreaks : ∀ a ∈ as, lineEnds (line a) = lineEnds (name a)) :
    Lines heading as line name listing := by
  have hlines : (∀ a ∈ as, lineEnds (line a) = 0) ↔ ∀ a ∈ as, Lacks .lineFeed (name a) :=
    forall₂_congr fun a ha => by rw [hbreaks a ha, lineEnds_eq_zero]
  refine ⟨htext, hbreaks, ?_⟩
  rw [htext, lineEnds_append, lineEnds_append, lineEnds_eq_zero.2 hheading, lineEnds_newline,
    Nat.zero_add, Nat.add_left_cancel_iff, (lineEnds_join as line).2, hlines]

end

/-! ## The constant pool -/

theorem lineEnds_constantLine {c : Constant} (htag : Lacks .lineFeed c.tag.name) :
    lineEnds (Theme.plain.render (constantLine c)) = lineEnds c.name := by
  have hword : ∀ s : String, Printed s → lineEnds s = 0 :=
    fun s hs => lineEnds_eq_zero.2 (.printed hs)
  have hindex : lineEnds (Text.justifyRight 6 ("#" ++ toString c.index)) = 0 :=
    lineEnds_eq_zero.2 (Text.lacks_justifyRight.2
      (lacks_append.2 ⟨.printed (by decide), lacks_nat _⟩))
  have hkind : lineEnds (Text.justifyLeft 18 c.tag.name) = 0 :=
    lineEnds_eq_zero.2 (Text.lacks_justifyLeft.2 htag)
  have hcolumn : lineEnds (Text.justifyLeft 14
      (".".intercalate (c.references.map fun d => "#" ++ toString d.num))) = 0 :=
    lineEnds_eq_zero.2 (Text.lacks_justifyLeft.2 (lacks_references c))
  unfold constantLine
  simp only [List.cons_append, List.nil_append, lineEnds_render_cons, Fragment.content, hindex, hkind,
    hword " = " (by decide), Nat.zero_add]
  split
  · simp only [lineEnds_render_cons, lineEnds_render_nil, Fragment.content, hword " " (by decide)]
    omega
  · simp only [lineEnds_render_cons, lineEnds_render_nil, Fragment.content, lineEnds_append, hcolumn,
      hword " " (by decide), hword "// " (by decide)]
    omega

theorem pool_lines {p : Pool} (h : ∀ c ∈ p.constants, Lacks .lineFeed c.tag.name) (filter : String) :
    Lines "Constant pool:" (p.constants.filter (isMatch filter))
      (fun c => Theme.plain.render (constantLine c)) Constant.name
      (Theme.plain.render (pool filter p)) := by
  refine lines_of_breaks (.printed (by decide)) ?_ fun c hc =>
    lineEnds_constantLine (h c (List.mem_filter.1 hc).1)
  rw [pool, render_append, render_flatMap]
  refine congrArg₂ (· ++ ·) rfl (congrArg String.join (List.map_congr_left fun c _ => ?_))
  exact render_append _ _ _

/-! ## The byte map -/

/-- The line of a span, without its end. -/
def spanText (bytes : List UInt8) (d : Datum) : String :=
  Theme.plain.render (spanLine bytes.toArray d).dropLast

theorem lineEnds_spanText (bytes : List UInt8) (d : Datum) :
    lineEnds (spanText bytes d) = lineEnds d.label := by
  have hline : (spanLine bytes.toArray d).dropLast = [.token .offset (Text.hex 8 d.offset),
      .text (" " ++ Text.justifyRight 4 (toString d.width) ++ "  " ++ Text.justifyLeft 18
        (leadingBytes (bytes.toArray.extract d.offset d.stop).toList) ++ " " ++ d.label)] := rfl
  have hoffset : lineEnds (Text.hex 8 d.offset) = 0 := lineEnds_eq_zero.2 (Text.lacks_hex _ _)
  have hcolumns : lineEnds (" " ++ Text.justifyRight 4 (toString d.width) ++ "  "
      ++ Text.justifyLeft 18 (leadingBytes (bytes.toArray.extract d.offset d.stop).toList)
      ++ " ") = 0 := by
    rw [lineEnds_eq_zero]
    simp only [lacks_append, Text.lacks_justifyRight, Text.lacks_justifyLeft, lacks_nat,
      lacks_leadingBytes, and_true]
    exact ⟨⟨.printed (by decide), .printed (by decide)⟩, .printed (by decide)⟩
  rw [spanText, hline, lineEnds_render_cons, lineEnds_render_cons, lineEnds_render_nil]
  simp only [Fragment.content, hoffset]
  rw [lineEnds_append, hcolumns]
  omega

theorem byteMap_lines (cf : ClassFile) (bytes : List UInt8) :
    Lines "Byte map:" cf.spans (spanText bytes) Datum.label (Theme.plain.render (byteMap cf bytes)) := by
  refine lines_of_breaks (.printed (by decide)) ?_ fun d _ => lineEnds_spanText bytes d
  rw [byteMap, render_append, render_flatMap]
  refine congrArg₂ (· ++ ·) rfl (congrArg String.join (List.map_congr_left fun d _ => ?_))
  exact render_append _ (spanLine bytes.toArray d).dropLast [newline]

/-! ## Decoded classes -/

/-- The entries of a decoded class know the index of their slot, and their tag has the name of their
kind. -/
theorem entries_of_decode {bytes : List UInt8} {cf : ClassFile} (h : ClassFile.decode bytes = .ok cf)
    (i : Nat) (c : Constant) (hc : cf.pool.slots[i]? = some (some c)) :
    c.index = i ∧ c.tag.name = c.payload.tag.name := by
  obtain ⟨form, p, trailing, hlegal, rfl, rfl⟩ := ClassFile.decode_eq_ok.1 h
  have hread : Pool.read ⟨.decode, 8, PoolForm.bytes form.slots⟩ =
      .ok (form.rawPool, ⟨.decode, 8 + (PoolForm.bytes form.slots).length, []⟩) :=
    (Pool.read_reads _ _ _).2
      ⟨form.slots, hlegal.header.slots, ⟨(List.append_nil _).symm, rfl, rfl⟩, rfl⟩
  obtain ⟨slots, hrenders⟩ := Pool.renders_of_read hread hlegal.named
  obtain ⟨hindex, -, hname⟩ := hrenders.laidOut.entries i c hc
  exact ⟨hindex, hname⟩

theorem tags_of_decode {bytes : List UInt8} {cf : ClassFile} (h : ClassFile.decode bytes = .ok cf) :
    ∀ c ∈ cf.pool.constants, Lacks .lineFeed c.tag.name := by
  intro c hc
  obtain ⟨slot, hslot, rfl⟩ := List.mem_filterMap.1 hc
  obtain ⟨i, hi⟩ := List.mem_iff_getElem?.1 hslot
  rw [(entries_of_decode h i c (by simpa using hi)).2]
  exact Tag.lacks_name _

theorem constants_ascend {p : Pool} (h : ∀ (i : Nat) (c : Constant),
    p.slots[i]? = some (some c) → c.index = i) :
    p.constants.Pairwise fun a b => a.index < b.index := by
  rw [Pool.constants, List.pairwise_filterMap, List.pairwise_iff_getElem]
  intro i j hi hj hlt a ha b hb
  have hslot : ∀ (n : Nat) (hn : n < p.slots.toList.length) (c : Constant),
      id p.slots.toList[n] = some c → c.index = n := by
    intro n hn c hc
    refine h n c ?_
    rw [← Array.getElem?_toList, List.getElem?_eq_getElem hn]
    exact congrArg some hc
  rw [hslot i hi a ha, hslot j hj b hb]
  exact hlt

/-- **The lines of a listing.** The constants of a decoded class that pass a filter are listed in the
order of their indices, and its spans in theirs, with a line for each. The line of an entry has just
the ends of line that the name of the entry has, so that every entry stands on one line exactly when
no name has any. If no text of the class has one, then no name has. -/
theorem listing_lines {bytes : List UInt8} {cf : ClassFile} (h : ClassFile.decode bytes = .ok cf)
    (filter : String) :
    let shown := cf.pool.constants.filter (isMatch filter)
    (shown.Pairwise fun a b => a.index < b.index)
      ∧ Lines "Constant pool:" shown (fun c => Theme.plain.render (constantLine c)) Constant.name
        (Theme.plain.render (pool filter cf.pool))
      ∧ Lines "Byte map:" cf.spans (spanText bytes) Datum.label
        (Theme.plain.render (byteMap cf bytes))
      ∧ (cf.pool.TextsLack .lineFeed → (∀ c ∈ shown, Lacks .lineFeed c.name)
        ∧ ∀ d ∈ cf.spans, Lacks .lineFeed d.label) := by
  intro shown
  have hascend := constants_ascend fun i c hc => (entries_of_decode h i c hc).1
  refine ⟨hascend.filter _, pool_lines (tags_of_decode h) filter, byteMap_lines cf bytes,
    fun htexts => ?_⟩
  have hclear := ClassFile.decode_clear h htexts
  exact ⟨fun c hc => hclear.pool.names c (List.mem_filter.1 hc).1,
    fun d hd => label_lacks (hclear.data d (List.mem_filter.1 hd).1)⟩

theorem listing_lines_nested :
    let bytes := ClassForm.nested.bytes ++ []
    let cf := ClassForm.nested.tree ClassForm.nestedPool []
    ClassFile.decode bytes = .ok cf ∧ cf.pool.TextsLack .lineFeed
      ∧ lineEnds (Theme.plain.render (pool "utf8" cf.pool)) = 1 + 3
      ∧ lineEnds (Theme.plain.render (byteMap cf bytes)) = 1 + cf.spans.length := by
  intro bytes cf
  have h : ClassFile.decode bytes = .ok cf :=
    ClassFile.decode_eq_ok.2 ⟨_, _, _, ClassForm.nested_legal, rfl, rfl⟩
  have htexts : cf.pool.TextsLack .lineFeed := ClassForm.nestedPool_textsLack _
  have hshown : (cf.pool.constants.filter (isMatch "utf8")).length = 3 := by
    decide +kernel
  obtain ⟨-, hpool, hmap, hnames⟩ := listing_lines h "utf8"
  refine ⟨h, htexts, ?_, hmap.single.2 (hnames htexts).2⟩
  rw [← hshown]
  exact hpool.single.2 (hnames htexts).1

/-! ## A text of two lines -/

/-- A class with a string constant of two lines. -/
def quoting : ClassForm :=
  { ClassForm.nested with
    slots := [none, some (.utf8 [0x41]), some (.classInfo 1), some (.utf8 [0x61, 0x0a, 0x62]),
      some (.string 3)]
    interfaces := []
    methods := [] }

/-- The pool of `quoting` with the names of its entries. -/
def quotingPool : Pool :=
  { quoting.rawPool with
    slots := quoting.rawPool.slots.map (Option.map (Pool.withName
      #[.unvisited, .named "A", .named "A", .named "a\nb", .named "a\nb"])) }

theorem quoting_legal : quoting.Legal quotingPool := by
  have hclass : (quotingPool.entry? 2).isSome = true := by
    decide +kernel
  refine ⟨⟨by decide, by decide, by decide, by decide, .inr ⟨_, rfl, ?_⟩⟩,
    Pool.resolve_of_ledger (by decide +kernel), ?_⟩
  · exact .narrow (by decide) rfl (.narrow (by decide) rfl (.narrow (by decide) rfl
      (.narrow (by decide) rfl .nil)))
  · exact ⟨by decide, ⟨by decide, hclass⟩, ⟨by decide, .inl rfl⟩, ⟨by decide, by simp [quoting]⟩,
      ⟨by decide, by simp [quoting, ClassForm.nested]⟩, ⟨by decide, by simp [quoting]⟩,
      ⟨by decide, trivial⟩⟩

/-- The string constant takes two lines in both listings, as does its text. -/
theorem listing_lines_quoting :
    let bytes := quoting.bytes ++ []
    let cf := quoting.tree quotingPool []
    ClassFile.decode bytes = .ok cf
      ∧ lineEnds (Theme.plain.render (pool "" cf.pool))
        ≠ 1 + (cf.pool.constants.filter (isMatch "")).length
      ∧ lineEnds (Theme.plain.render (byteMap cf bytes)) ≠ 1 + cf.spans.length := by
  intro bytes cf
  have h : ClassFile.decode bytes = .ok cf :=
    ClassFile.decode_eq_ok.2 ⟨_, _, _, quoting_legal, rfl, rfl⟩
  have hname : ∃ c ∈ cf.pool.constants.filter (isMatch ""), '\n' ∈ c.name.toList := by
    decide +kernel
  have hlabel : ∃ d ∈ cf.spans, '\n' ∈ d.label.toList := by
    decide +kernel
  obtain ⟨c, hc, hname⟩ := hname
  obtain ⟨d, hd, hlabel⟩ := hlabel
  refine ⟨h, fun hsingle => ?_, fun hsingle => ?_⟩
  · exact (pool_lines (tags_of_decode h) "").single.1 hsingle c hc hname
  · exact (byteMap_lines cf bytes).single.1 hsingle d hd hlabel

end ClassAtlas.Listing

import ClassAtlas.Listing.Theme
import ClassAtlas.Proofs.ListingText

/-! # Colour

What a listing says does not depend on the theme. Taken from the terminal, a coloured listing is the
listing without colours, column by column, and only the title has room around it. This is asked of
texts that stay on their line and start no terminal sequence themselves, and holds of any themes that
treat such a text as the styles of a terminal do.

* `Themes.Lawful`: what is asked of the themes.
* `uncoloured`: a text without its terminal sequences.
* `Document.Untitled`, `Document.Titled name`: the three themes agree.
* `colour_keeps_text`: they agree on every listing of a decoded class.
-/

namespace ClassAtlas.Listing
set_option autoImplicit false

/-! ## What themes do to a text -/

/-- The characters that start a terminal sequence or leave the line. -/
def steering : List Control := [.escape, .carriageReturn, .lineFeed]

theorem escape_mem : Control.escape ∈ steering :=
  .head _

/-- The text stays on its line and starts no terminal sequence. -/
abbrev Clean (s : String) : Prop :=
  ∀ k ∈ steering, Lacks k s

/-- Numbers with semicolons between, as a terminal sequence for a colour has them. -/
def Parameters (s : String) : Prop :=
  ∀ c ∈ s.toList, c.isDigit = true ∨ c = ';'

/-- `painted` is the text `s`, cut into pieces that each stand in a colour. -/
inductive Coloured : String → String → Prop
  | nil : Coloured "" ""
  | cons {parameters s painted : String} (piece : String) (hparameters : Parameters parameters)
      (hs : Coloured s painted) : Coloured (piece ++ s) (inColour parameters piece ++ painted)

/-- The themes treat a text that stays on its line and starts no terminal sequence as the styles of a
terminal do. -/
structure Themes.Lawful (themes : Themes) : Prop where
  /-- A tab becomes four spaces. -/
  plain : ∀ role {s}, Clean s → themes.plain.token role s = expandTabs s
  /-- A title has room around it as well. -/
  padded : ∀ role {s}, Clean s → themes.padded.token role s
    = if role = .title then titleRoom ++ expandTabs s ++ titleRoom else expandTabs s
  /-- Colours are set by terminal sequences around the text. -/
  coloured : ∀ role {s}, Clean s →
    Coloured (themes.padded.token role s) (themes.coloured.token role s)

theorem Coloured.single {parameters : String} (s : String) (hparameters : Parameters parameters) :
    Coloured s (inColour parameters s) := by
  have h := Coloured.cons s hparameters .nil
  simpa using h

theorem Role.parameters_colour (role : Role) : Parameters role.colour := by
  cases role <;> simp [Parameters, Role.colour]

theorem Themes.terminal_lawful : Themes.terminal.Lawful where
  plain _ _ _ := rfl
  padded _ _ _ := rfl
  coloured role s _ := by
    have hbackground : Parameters titleBackground := by
      simp [Parameters, titleBackground]
    by_cases htitle : role = .title
    · have h := Coloured.cons titleRoom hbackground
        (.cons (expandTabs s) role.parameters_colour (.single titleRoom hbackground))
      simpa [Themes.terminal, Theme.padded, Theme.coloured, htitle, String.append_assoc] using h
    · simpa [Themes.terminal, Theme.padded, Theme.coloured, htitle] using
        Coloured.single (expandTabs s) role.parameters_colour

/-! ## Texts without terminal sequences -/

/-- The characters outside of terminal sequences. A sequence starts with an escape character and a
bracket, and `m` is its last character; `inside` says that one has started. -/
def outside (inside : Bool) : List Char → List Char
  | [] => []
  | c :: cs =>
    if inside then outside (c ≠ 'm') cs
    else if c = '\x1b' ∧ cs.head? = some '[' then outside true cs
    else c :: outside false cs

def uncoloured (s : String) : String :=
  String.ofList (outside false s.toList)

theorem outside_append {s : List Char} (hs : '\x1b' ∉ s) (t : List Char) :
    outside false (s ++ t) = s ++ outside false t := by
  induction s with
  | nil => rfl
  | cons c s ih =>
    rw [List.mem_cons, not_or] at hs
    rw [List.cons_append, outside, if_neg (by decide), if_neg fun h => hs.1 h.1.symm, ih hs.2,
      List.cons_append]

theorem outside_parameters {s : List Char} (hs : 'm' ∉ s) (t : List Char) :
    outside true (s ++ 'm' :: t) = outside false t := by
  induction s with
  | nil => rfl
  | cons c s ih =>
    rw [List.mem_cons, not_or] at hs
    rw [List.cons_append, outside, if_pos rfl, decide_eq_true (Ne.symm hs.1), ih hs.2]

theorem parameters_not_mem {s : String} (h : Parameters s) : 'm' ∉ s.toList := by
  intro hm
  exact absurd (h _ hm) (by decide)

/-- Colours around a text are gone; what follows is left to itself. -/
theorem outside_inColour {parameters s : String} (hparameters : 'm' ∉ parameters.toList)
    (hs : Lacks .escape s) (t : List Char) :
    outside false ((inColour parameters s).toList ++ t) = s.toList ++ outside false t := by
  have hstart : ∀ (ps : List Char) (rest : List Char), 'm' ∉ ps →
      outside false ('\x1b' :: '[' :: (ps ++ 'm' :: rest)) = outside false rest := by
    intro ps rest hps
    exact outside_parameters (s := '[' :: ps) (by simpa using hps) rest
  have hcolour : (inColour parameters s).toList ++ t = '\x1b' :: '[' :: (parameters.toList
      ++ 'm' :: (s.toList ++ '\x1b' :: '[' :: (['0'] ++ 'm' :: t))) := by
    simp [inColour, String.toList_append]
  rw [hcolour, hstart _ _ hparameters, outside_append hs, hstart _ _ (by decide)]

theorem lacks_expandTabs {k : Control} {s : String} (h : Lacks k s) : Lacks k (expandTabs s) := by
  rw [expandTabs, lacks_ofList, List.mem_flatMap]
  rintro ⟨c, hc, hk⟩
  split at hk
  · exact Lacks.replicate 4 (by decide) hk
  · exact h (List.mem_singleton.1 hk ▸ hc)

/-! ## Fragments -/

theorem Fragment.Clear.content {f : Fragment} (h : f.Clear .escape) : Lacks .escape f.content := by
  cases f with
  | text s =>
    rcases h with rfl | h
    · exact fun hmem => absurd hmem (by decide)
    · exact h
  | token role s => exact h.2

/-- Colours in a text that has none are gone; what follows is left to itself. -/
theorem outside_coloured {s painted : String} (h : Coloured s painted) (hs : Lacks .escape s)
    (t : List Char) : outside false (painted.toList ++ t) = s.toList ++ outside false t := by
  induction h with
  | nil => rfl
  | cons piece hparameters _ ih =>
    obtain ⟨hpiece, hs⟩ := lacks_append.1 hs
    have hm := parameters_not_mem hparameters
    rw [String.toList_append, List.append_assoc, outside_inColour hm hpiece, ih hs,
      String.toList_append, List.append_assoc]

section

variable {themes : Themes} (ht : themes.Lawful)

include ht

theorem lacks_padded (role : Role) {s : String} (hs : Clean s) :
    Lacks .escape (themes.padded.token role s) := by
  have htext := lacks_expandTabs (hs .escape escape_mem)
  have hroom : Lacks .escape titleRoom := .printed (by decide)
  rw [ht.padded role hs]
  split
  · exact lacks_append.2 ⟨lacks_append.2 ⟨hroom, htext⟩, hroom⟩
  · exact htext

theorem outside_render {d : Document} (hd : ∀ f ∈ d, Lacks .escape f.content)
    (htokens : ∀ role s, .token role s ∈ d → Clean s) :
    outside false (themes.coloured.render d).toList = (themes.padded.render d).toList := by
  induction d with
  | nil => rfl
  | cons f d ih =>
    obtain ⟨hf, hd⟩ := List.forall_mem_cons.1 hd
    have hrest := ih hd fun role s hmem => htokens role s (.tail _ hmem)
    have hfragment : ∀ t, outside false ((themes.coloured.fragment f).toList ++ t)
        = (themes.padded.fragment f).toList ++ outside false t := by
      cases f with
      | text s => exact outside_append hf
      | token role s =>
        have hs := htokens role s (.head _)
        exact outside_coloured (ht.coloured role hs) (lacks_padded ht role hs)
    simp only [Theme.render, List.map_cons, String.join_cons, String.toList_append] at hrest ⊢
    rw [hfragment, hrest]

theorem uncoloured_render {d : Document} (hd : ∀ f ∈ d, Lacks .escape f.content)
    (htokens : ∀ role s, .token role s ∈ d → Clean s) :
    uncoloured (themes.coloured.render d) = themes.padded.render d := by
  rw [uncoloured, outside_render ht hd htokens, String.ofList_toList]

theorem render_padded {d : Document} (hd : ∀ k ∈ steering, Document.Clear k d) :
    themes.padded.render d = themes.plain.render d := by
  unfold Theme.render
  refine congrArg String.join (List.map_congr_left fun f hf => ?_)
  cases f with
  | text s => rfl
  | token role s =>
    have hs : Clean s := fun k hk => (hd k hk _ hf).2
    have hrole := (hd .escape escape_mem _ hf).1
    rw [Theme.fragment, Theme.fragment, ht.padded role hs, ht.plain role hs, if_neg hrole]

end

/-! ## Listings -/

namespace Document

/-- Every styled text stays on its line, and without its colours the coloured listing is the one
without colours. -/
structure Painted (themes : Themes) (d : Document) : Prop where
  tokens : ∀ role s, .token role s ∈ d → Clean s
  uncoloured : uncoloured (themes.coloured.render d) = themes.padded.render d

/-- The listing has no title: it is the same in all themes but for its colours. -/
structure Untitled (themes : Themes) (d : Document) : Prop extends d.Painted themes where
  padded : themes.padded.render d = themes.plain.render d

/-- The listing starts with a title: but for its colours it is the same in all themes, and the title
has room on both sides in those for terminals. -/
structure Titled (themes : Themes) (name : String) (d : Document) : Prop
    extends d.Painted themes where
  padded : ∃ rest, themes.plain.render d = expandTabs name ++ rest
    ∧ themes.padded.render d = " " ++ expandTabs name ++ " " ++ rest

variable {themes : Themes}

theorem untitled_of_clear (ht : themes.Lawful) {d : Document}
    (hd : ∀ k ∈ steering, Document.Clear k d) : d.Untitled themes := by
  have htokens : ∀ role s, .token role s ∈ d → Clean s := fun _ _ hmem k hk => (hd k hk _ hmem).2
  have hcontent : ∀ f ∈ d, Lacks .escape f.content := fun f hf =>
    (hd .escape escape_mem f hf).content
  exact ⟨⟨htokens, uncoloured_render ht hcontent htokens⟩, render_padded ht hd⟩

theorem titled_of_clear (ht : themes.Lawful) {name : String} {d : Document}
    (heq : d = .token .title name :: d.tail) (hname : Clean name)
    (hd : ∀ k ∈ steering, Document.Clear k d.tail) : d.Titled themes name := by
  generalize d.tail = rest at heq hd
  subst heq
  have htokens : ∀ role s, .token role s ∈ .token .title name :: rest → Clean s := by
    intro role s hmem k hk
    rcases List.mem_cons.1 hmem with htitle | hmem
    · cases htitle
      exact hname k hk
    · exact (hd k hk _ hmem).2
  have hcontent : ∀ f ∈ .token .title name :: rest, Lacks .escape f.content :=
    List.forall_mem_cons.2
      ⟨hname .escape escape_mem, fun f hf => (hd .escape escape_mem f hf).content⟩
  have htitle := ht.padded .title hname
  rw [if_pos rfl] at htitle
  refine ⟨⟨htokens, uncoloured_render ht hcontent htokens⟩, themes.plain.render rest, ?_, ?_⟩
  · rw [Theme.render, List.map_cons, String.join_cons, Theme.fragment, ht.plain .title hname]
    rfl
  · rw [← render_padded ht hd, Theme.render, List.map_cons, String.join_cons, Theme.fragment, htitle]
    rfl

end Document

/-- **Colour keeps the text.** When no text of a decoded class leaves its line or starts a terminal
sequence, every listing of the class says the same in all themes of a terminal: taken from the
terminal, the coloured listing is the one without colours, and that one is the plain listing with room
around the title. -/
theorem colour_keeps_text {themes : Themes} (ht : themes.Lawful) {bytes : List UInt8} {cf : ClassFile}
    (h : ClassFile.decode bytes = .ok cf) (htexts : ∀ k ∈ steering, cf.pool.TextsLack k) :
    (classFile cf).Titled themes cf.name ∧ (summary cf).Titled themes cf.name
      ∧ (∀ filter, (pool filter cf.pool).Untitled themes)
      ∧ (∀ title ms, Clean title → (∀ m ∈ ms, m ∈ cf.fields ∨ m ∈ cf.methods) →
          (members title ms).Untitled themes)
      ∧ (∀ m, m ∈ cf.fields ∨ m ∈ cf.methods → (member m).Untitled themes)
      ∧ (∀ pad count as, Clean pad → cf.Lists count as → (attributes pad as).Untitled themes
          ∧ ∀ name length frame bs, .code name length frame bs ∈ as →
            (code pad ⟨frame, bs⟩).Untitled themes
              ∧ ∀ i ∈ frame.instructions, (instruction pad i).Untitled themes)
      ∧ ∀ data, (byteMap cf data).Untitled themes := by
  have hclear : ∀ k ∈ steering, cf.Clear k := fun k hk => ClassFile.decode_clear h (htexts k hk)
  have hname : Clean cf.name := fun k hk =>
    ((hclear k hk).data cf.thisClass (by simp [ClassFile.data])).name
  have hmember : ∀ m, m ∈ cf.fields ∨ m ∈ cf.methods → ∀ k ∈ steering, m.Clear k :=
    fun m hm k hk => hm.elim ((hclear k hk).fields m) ((hclear k hk).methods m)
  have hclass : (classFile cf).Titled themes cf.name :=
    Document.titled_of_clear ht (classFile_eq cf) hname fun k hk => classFile_clear (hclear k hk)
  have hsummary : (summary cf).Titled themes cf.name :=
    Document.titled_of_clear ht (summary_eq cf) hname fun k hk => summary_clear (hclear k hk)
  have huntitled : ∀ {d : Document}, (∀ k ∈ steering, Document.Clear k d) → d.Untitled themes :=
    Document.untitled_of_clear ht
  refine ⟨hclass, hsummary, fun filter => ?_, fun title ms htitle hms => ?_, fun m hm => ?_,
    fun pad count as hpad has => ?_, fun data => ?_⟩
  · exact huntitled fun k hk => pool_clear (hclear k hk).pool filter
  · exact huntitled fun k hk =>
      members_clear (htitle k hk) fun m hm => hmember m (hms m hm) k hk
  · exact huntitled fun k hk => member_clear (hmember m hm k hk)
  · have hlist : ∀ k ∈ steering, AllClear k (Attribute.dataOfList as) :=
      fun k hk => (hclear k hk).lists has
    refine ⟨huntitled fun k hk => attributes_clear (hpad k hk) as (hlist k hk), ?_⟩
    intro name length frame bs hcode
    have hbody := fun k hk => Attribute.clear_of_code (hlist k hk) hcode
    refine ⟨huntitled fun k hk => code_clear (hpad k hk) (hbody k hk).1 (hbody k hk).2, fun i hi => ?_⟩
    exact huntitled fun k hk =>
      instruction_clear (hpad k hk) ((frame_parts (hbody k hk).1).1 i hi)
  · exact huntitled fun k hk => byteMap_clear (hclear k hk) data

/-- A method with two switches, and the class it is in. -/
theorem colour_keeps_text_switching :
    let themes := Themes.terminal
    let bytes := ClassForm.switching.bytes ++ [1, 2]
    let cf := ClassForm.switching.tree ClassForm.nestedPool [1, 2]
    themes.Lawful ∧ ClassFile.decode bytes = .ok cf ∧ (∀ k ∈ steering, cf.pool.TextsLack k)
      ∧ (classFile cf).Titled themes cf.name ∧ (pool "utf8" cf.pool).Untitled themes
      ∧ ∃ m ∈ cf.methods, (member m).Untitled themes
        ∧ ∃ name length frame bs, .code name length frame bs ∈ m.attributes
          ∧ frame.instructions.map (·.pc) = [0, 24, 44]
          ∧ ∀ i ∈ frame.instructions, (instruction indent i).Untitled themes := by
  intro themes bytes cf
  have h : ClassFile.decode bytes = .ok cf :=
    ClassFile.decode_eq_ok.2 ⟨_, _, _, ClassForm.switching_legal, rfl, rfl⟩
  have htexts : ∀ k ∈ steering, cf.pool.TextsLack k :=
    fun k _ => ClassForm.nestedPool_textsLack k
  have hpad : Clean indent := fun _ _ => lacks_indent
  obtain ⟨hclass, -, hpool, -, hmember, hattributes, -⟩ :=
    colour_keeps_text Themes.terminal_lawful h htexts
  refine ⟨Themes.terminal_lawful, h, htexts, hclass, hpool _, _, .head _, hmember _ (.inr (.head _)),
    _, _, _, _, .head _, rfl, ?_⟩
  exact ((hattributes _ _ _ hpad (.ofMethod (.head _))).2 _ _ _ _ (.head _)).2

end ClassAtlas.Listing

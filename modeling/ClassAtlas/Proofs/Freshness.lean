import ClassAtlas.Proofs.Browsing

/-! # The pane is never stale

The pane keeps the text it was given last, while the section, the member and the filter change. It is
given a new text whenever the old one would be wrong, so that an open pane always is on the text for the
current choice. Of the toolkit it is asked that panes and prompts keep their texts
(`PaneKit.Keeping`, `PromptKit.Keeping`).

* `Browser.Fresh`: an open pane is on the text for the current choice.
* `Browser.Fresh.update`: what an event keeps.
* `Browser.pane_current`: what holds after any events.
-/

namespace ClassAtlas.Browser
set_option autoImplicit false

variable {T : Toolkit}

/-- While the pane is open, it is on the text for the current choice. -/
def Fresh (b : Browser T) : Prop :=
  b.mode = .detail ∨ b.mode = .filter → T.panes.content b.pane = some b.detail

variable {b : Browser T}

/-! ## What the text depends on -/

/-- The class, the section, the member and the filter settle the text. -/
theorem detail_congr {b' : Browser T} (hloaded : b'.loaded = b.loaded)
    (hselected : b'.selected = b.selected) (hmember : b'.member = b.member)
    (hfilter : T.prompts.text b'.prompt = T.prompts.text b.prompt) : b'.detail = b.detail := by
  have hdocument : ∀ l, b'.document l = b.document l := by
    intro l
    simp only [document, hselected, hmember, hfilter]
  simp only [detail, hloaded, hdocument]

theorem detail_openPane (b : Browser T) : b.openPane.detail = b.detail :=
  detail_congr rfl rfl rfl rfl

theorem detail_refresh (b : Browser T) : b.refresh.detail = b.detail :=
  detail_congr rfl rfl rfl rfl

/-- A key of the menus changes the choice and stays in the menu. -/
theorem mode_menuKey (b : Browser T) (name : String) : (b.menuKey name).mode = b.mode := by
  unfold menuKey
  repeat' split
  all_goals rfl

/-! ## What an event keeps -/

namespace Fresh

/-- Where the pane is closed, nothing is asked of it. -/
theorem closed (hdetail : b.mode ≠ .detail) (hfilter : b.mode ≠ .filter) : b.Fresh := by
  rintro (h | h)
  · exact absurd h hdetail
  · exact absurd h hfilter

/-- Scrolling and resizing leave the pane on its text. -/
theorem withPane (h : b.Fresh) {pane : T.panes.Pane}
    (hpane : T.panes.content pane = T.panes.content b.pane) : { b with pane := pane }.Fresh := by
  intro hmode
  have hdetail : { b with pane := pane }.detail = b.detail := detail_congr rfl rfl rfl rfl
  rw [hdetail]
  exact hpane.trans (h hmode)

/-- The prompt opens on a pane that is already on the text for its filter. -/
theorem withPrompt (hT : T.prompts.Keeping) (h : b.Fresh) (hmode : b.mode = .detail) :
    { b with mode := .filter, prompt := T.prompts.focus b.prompt }.Fresh := by
  intro _
  have hdetail : { b with mode := .filter, prompt := T.prompts.focus b.prompt }.detail = b.detail :=
    detail_congr rfl rfl rfl (hT.focus b.prompt)
  rw [hdetail]
  exact h (.inl hmode)

/-- Going back closes the pane; from the prompt one goes back by another way. -/
theorem back (h : b.Fresh) : b.back.Fresh := by
  unfold Browser.back
  split
  · refine closed ?_ ?_ <;> (dsimp only; split <;> nofun)
  · exact closed nofun nofun
  · exact h

section

variable (hT : T.panes.Keeping)

include hT

theorem openPane (b : Browser T) : b.openPane.Fresh := by
  intro _
  rw [detail_openPane]
  exact (hT.toTop _).trans (hT.setContent _ _)

theorem refresh (b : Browser T) : b.refresh.Fresh := by
  intro _
  rw [detail_refresh]
  exact hT.setContent _ _

theorem enter (h : b.Fresh) : b.enter.Fresh := by
  unfold Browser.enter
  split
  · exact h
  · cases hmode : b.mode with
    | selectSection =>
      dsimp only
      split
      · refine closed ?_ ?_ <;> (dsimp only; split <;> nofun)
      · exact openPane hT b
    | selectMember => exact openPane hT b
    | detail => exact h
    | filter => exact h

/-- Every key in the prompt gives the pane a new text, whether it edits the filter, keeps it or drops
it. -/
theorem filterKey (b : Browser T) (k : T.Key) : (b.filterKey k).Fresh := by
  unfold Browser.filterKey
  repeat' split
  · exact openPane hT _
  · exact openPane hT _
  · exact refresh hT _

theorem plainKey (hprompts : T.prompts.Keeping) (h : b.Fresh) (hfilter : b.mode ≠ .filter)
    (k : T.Key) : (b.plainKey k).Fresh := by
  unfold Browser.plainKey
  repeat' split
  · exact h.enter hT
  · exact h.back
  · exact h.withPrompt hprompts ‹_›
  · exact h.withPane (hT.key b.pane k)
  · rename_i hdetail
    exact closed (by rwa [mode_menuKey]) (by rwa [mode_menuKey])

/-- Every event but a second arrival of the class keeps the pane fresh. Before the class is there, the
pane is closed. -/
theorem update (hprompts : T.prompts.Keeping) (h : b.Fresh) (hsound : b.Sound) (e : Event T)
    (he : e.isLoad = true → b.loaded = none) : (b.update e).1.Fresh := by
  cases e with
  | loaded result =>
    have hmode := hsound.unloaded (he rfl)
    cases result <;> exact closed (by simp [Browser.update, hmode]) (by simp [Browser.update, hmode])
  | resized width height => exact h.withPane (hT.resize _ _ _)
  | signal s =>
    simp only [Browser.update]
    split
    · exact h.withPane (hT.signal b.pane s)
    · exact h
  | key k =>
    simp only [Browser.update]
    split
    · exact h
    · split
      · exact filterKey hT b k
      · exact h.plainKey hT hprompts ‹_› k

end

end Fresh

/-! ## Runs -/

/-- **The pane is never stale.** With any toolkit whose panes and prompts keep their texts, and after
any events of which at most one is the arrival of the class: while the pane is open, with or without the
prompt, the text it was given last is the text that is found now for the class, the section, the member
and the filter. -/
theorem pane_current {T : Toolkit} (hpanes : T.panes.Keeping) (hprompts : T.prompts.Keeping)
    (filename : String) (events : List (Event T)) (h : events.countP Event.isLoad ≤ 1) :
    let b := (start filename).run events
    b.mode = .detail ∨ b.mode = .filter →
      b.detail? = some b.detail ∧ T.panes.content b.pane = some b.detail := by
  intro b hmode
  have hstart : (start filename : Browser T).Sound ∧ (start filename : Browser T).Fresh :=
    ⟨.atSections rfl, Fresh.closed nofun nofun⟩
  obtain ⟨hsound, hfresh⟩ : b.Sound ∧ b.Fresh :=
    run_start_keeps (P := fun b => b.Sound ∧ b.Fresh)
      (fun b e hb he => ⟨hb.1.update e he, hb.2.update hpanes hprompts hb.1 e he⟩) hstart h
  have hopen : b.mode ≠ .selectSection := by
    rcases hmode with hmode | hmode <;> simp [hmode]
  exact ⟨(hsound.shown hopen).2, hfresh hmode⟩

/-- The pool is opened, a filter is typed and kept, a method is looked at in between, and the pool is
opened again. The filter is typed with two characters at once, one that is pasted and deleted, and one
more. -/
def reopening : List (Event .terminal) :=
  [.key (.ofName "down"),
    .loaded (.ok ⟨ClassForm.nested.tree ClassForm.nestedPool [], ClassForm.nested.bytes⟩),
    .key (.ofName "enter"), .key (.ofName "/"), .key (.typed ['C', 'o'] false), .key (.pasted ['x']),
    .key (.ofName "backspace"), .key (.ofName "d"), .key (.ofName "left"), .signal .wheelDown,
    .key (.ofName "enter"), .key (.ofName "esc"), .key (.ofName "down"), .key (.ofName "down"),
    .key (.ofName "enter"), .key (.ofName "enter"), .key (.ofName "esc"), .key (.ofName "esc"),
    .key (.ofName "up"), .key (.ofName "up"), .key (.ofName "enter")]

theorem pane_current_reopening :
    let b := (start "A.class").run reopening
    Viewport.kit.Keeping ∧ Prompt.kit.Keeping ∧ reopening.countP Event.isLoad ≤ 1
      ∧ (b.mode = .detail ∧ b.selected = .constantPool ∧ Prompt.kit.text b.prompt = "Cod")
      ∧ b.detail? = some b.detail ∧ Viewport.kit.content b.pane = some b.detail := by
  intro b
  have hcount : reopening.countP Event.isLoad ≤ 1 := by decide
  exact ⟨Viewport.kit_keeping, Prompt.kit_keeping, hcount, ⟨rfl, rfl, rfl⟩,
    pane_current Viewport.kit_keeping Prompt.kit_keeping "A.class" reopening hcount (.inl rfl)⟩

end ClassAtlas.Browser

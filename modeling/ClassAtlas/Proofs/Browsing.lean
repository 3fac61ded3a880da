import ClassAtlas.Browser
import ClassAtlas.Browser.Terminal
import ClassAtlas.Proofs.ClassLayout

/-! # Browsing is safe

What holds in every state of the browser, whatever happens in whatever order, if the class is loaded
at most once: nothing but the menu of sections is open before the class is there, and wherever a
member is shown or marked there is such a member. So nothing is ever read that is not there. All of
this holds with any toolkit, and for the focus of the prompt only `PromptKit.Focusing` is asked of it.

* `Browser.Sound`: what holds in every state.
* `Browser.Attentive`: the prompt has the focus while it is open.
* `Browser.members?`, `Browser.detail?`, `Browser.view?`, `Browser.update?`: the same work as without
  the question mark, given up where it needs a class that is not loaded or a member that the class
  does not have.
* `Browser.Sound.update`: what an event keeps.
* `Browser.run_safe`: what holds after any events.
-/

namespace ClassAtlas
set_option autoImplicit false

/-! ## Sections -/

theorem Section.index_lt (s : Section) : s.index < Section.all.length := by
  cases s <;> decide

theorem Section.hasMembers_iff (s : Section) :
    s.hasMembers = true ↔ s = .fields ∨ s = .methods := by
  cases s <;> decide

namespace Browser

variable {T : Toolkit}

/-- The class arrives, or the news that it cannot be loaded. -/
def Event.isLoad : Event T → Bool
  | .loaded _ => true
  | _ => false

/-! ## Work that can be given up -/

section

variable (b : Browser T)

def members? : Option (List Member) :=
  b.loaded.map fun l => membersOf b.selected l.classFile

def detail? : Option String := do
  let l ← b.loaded
  if b.selected.hasMembers then
    let members ← b.members?
    let m ← members[b.member]?
    pure (T.theme.render (Listing.member m))
  else pure (T.theme.render (b.document l))

def refresh? : Option (Browser T) := do
  let text ← b.detail?
  pure { b with pane := T.panes.setContent b.pane text }

def openPane? : Option (Browser T) := do
  let b ← b.refresh?
  pure { b with pane := T.panes.toTop b.pane, mode := .detail }

def enter? : Option (Browser T) :=
  if b.loaded.isNone then some b
  else
    match b.mode with
    | .selectSection =>
      if b.selected.hasMembers then do
        let members ← b.members?
        pure { b with member := 0, mode := if members.isEmpty then b.mode else .selectMember }
      else b.openPane?
    | .selectMember => b.openPane?
    | _ => some b

/-- Only the end of the menu of members has to be known. -/
def menuKey? (name : String) : Option (Browser T) :=
  if b.mode = .selectMember ∧ (name = "down" ∨ name = "j") then do
    let members ← b.members?
    pure (if b.member + 1 < members.length then { b with member := b.member + 1 } else b)
  else some (b.menuKey name)

def filterKey? (k : T.Key) : Option (Browser T) :=
  if T.name k = "enter" then openPane? { b with prompt := T.prompts.blur b.prompt }
  else if T.name k = "esc" then
    openPane? { b with prompt := T.prompts.blur (T.prompts.setText b.prompt "") }
  else refresh? { b with prompt := T.prompts.key b.prompt k }

def plainKey? (k : T.Key) : Option (Browser T) :=
  if T.name k = "enter" then b.enter?
  else if T.name k = "esc" then some b.back
  else if b.mode = .detail then some (b.plainKey k)
  else b.menuKey? (T.name k)

def update? : Event T → Option (Browser T × Bool)
  | .key k =>
    if b.isQuit (T.name k) then some (b, true)
    else if b.mode = .filter then (b.filterKey? k).map (·, false)
    else (b.plainKey? k).map (·, false)
  | e => some (b.update e)

def view? : Option String :=
  if b.failure.isNone ∧ b.loaded.isSome ∧ b.mode = .selectMember then do
    let _ ← b.members?
    pure b.view
  else some b.view

end

variable {b : Browser T}

theorem members?_eq (hl : b.loaded ≠ none) : b.members? = some b.members := by
  obtain ⟨l, hl⟩ := Option.ne_none_iff_exists'.1 hl
  simp only [members?, members, hl, Option.map_some]

theorem detail?_eq (hl : b.loaded ≠ none)
    (hm : b.selected.hasMembers = true → b.member < b.members.length) :
    b.detail? = some b.detail := by
  have hmembers := members?_eq hl
  obtain ⟨l, hl⟩ := Option.ne_none_iff_exists'.1 hl
  have hof : b.members = membersOf b.selected l.classFile := by simp only [members, hl]
  by_cases hs : b.selected.hasMembers = true
  · obtain ⟨m, hget⟩ : ∃ m, b.members[b.member]? = some m :=
      ⟨_, List.getElem?_eq_getElem (hm hs)⟩
    have hdocument : b.document l = Listing.member m := by
      rw [hof] at hget
      rcases (Section.hasMembers_iff _).1 hs with h | h
      · simp only [document, h] at hget ⊢
        rw [hget]
      · simp only [document, h] at hget ⊢
        rw [hget]
    simp [detail?, detail, hl, hs, hmembers, hget, hdocument]
  · simp [detail?, detail, hl, hs]

theorem refresh?_eq (hl : b.loaded ≠ none)
    (hm : b.selected.hasMembers = true → b.member < b.members.length) :
    b.refresh? = some b.refresh := by
  simp [refresh?, refresh, detail?_eq hl hm]

theorem openPane?_eq (hl : b.loaded ≠ none)
    (hm : b.selected.hasMembers = true → b.member < b.members.length) :
    b.openPane? = some b.openPane := by
  simp [openPane?, openPane, refresh?_eq hl hm]

/-! ## Sound states -/

/-- What holds whatever happened. -/
structure Sound (b : Browser T) : Prop where
  selected : b.selected.index < 6
  unloaded : b.loaded = none → b.mode = .selectSection
  choosing : b.mode = .selectMember → b.selected = .fields ∨ b.selected = .methods
  filtering : b.mode = .filter → b.selected = .constantPool
  inRange : b.mode = .selectMember
    ∨ b.mode = .detail ∧ (b.selected = .fields ∨ b.selected = .methods) →
    b.member < b.members.length

namespace Sound

theorem loaded_ne (h : b.Sound) (hmode : b.mode ≠ .selectSection) : b.loaded ≠ none :=
  fun hl => hmode (h.unloaded hl)

/-- The pane plays no part. -/
theorem withPane (h : b.Sound) (pane : T.panes.Pane) : { b with pane := pane }.Sound :=
  ⟨h.selected, h.unloaded, h.choosing, h.filtering, h.inRange⟩

/-- The prompt plays no part. -/
theorem withPrompt (h : b.Sound) (prompt : T.prompts.Prompt) : { b with prompt := prompt }.Sound :=
  ⟨h.selected, h.unloaded, h.choosing, h.filtering, h.inRange⟩

/-- The menu of sections is always sound. -/
theorem atSections (hmode : b.mode = .selectSection) : b.Sound where
  selected := b.selected.index_lt
  unloaded _ := hmode
  choosing hm := by simp [hmode] at hm
  filtering hm := by simp [hmode] at hm
  inRange hm := by simp [hmode] at hm

theorem atMembers (hmode : b.mode = .selectMember) (hl : b.loaded ≠ none)
    (hs : b.selected.hasMembers = true) (hm : b.member < b.members.length) : b.Sound where
  selected := b.selected.index_lt
  unloaded hnone := absurd hnone hl
  choosing _ := (Section.hasMembers_iff _).1 hs
  filtering hfilter := by simp [hmode] at hfilter
  inRange _ := hm

theorem opened (hl : b.loaded ≠ none)
    (hm : b.selected.hasMembers = true → b.member < b.members.length) : b.openPane.Sound where
  selected := b.selected.index_lt
  unloaded hnone := absurd hnone hl
  choosing := nofun
  filtering := nofun
  inRange hs := by
    have hs' : b.selected = .fields ∨ b.selected = .methods := by
      simpa [openPane, refresh] using hs
    exact hm ((Section.hasMembers_iff _).2 hs')

theorem member_lt (h : b.Sound) (hmode : b.mode = .selectMember ∨ b.mode = .detail)
    (hs : b.selected.hasMembers = true) : b.member < b.members.length := by
  rcases hmode with hmode | hmode
  · exact h.inRange (.inl hmode)
  · exact h.inRange (.inr ⟨hmode, (Section.hasMembers_iff _).1 hs⟩)

end Sound

/-! ## What an event keeps -/

/-- The work is not given up, and leads to a sound state. -/
structure Done (outcome : Option (Browser T)) (b : Browser T) : Prop where
  outcome_eq : outcome = some b
  sound : b.Sound

theorem Sound.done (h : b.Sound) : Done (some b) b := ⟨rfl, h⟩

theorem openPane_done (hl : b.loaded ≠ none)
    (hm : b.selected.hasMembers = true → b.member < b.members.length) :
    Done b.openPane? b.openPane :=
  ⟨openPane?_eq hl hm, Sound.opened hl hm⟩

theorem enterMembers_done (hl : b.loaded ≠ none) (hmode : b.mode = .selectSection)
    (hs : b.selected.hasMembers = true) :
    Done (b.members?.bind fun members =>
        some { b with member := 0, mode := if members.isEmpty then b.mode else .selectMember })
      { b with member := 0, mode := if b.members.isEmpty then b.mode else .selectMember } := by
  rw [members?_eq hl]
  refine ⟨rfl, ?_⟩
  by_cases hempty : b.members.isEmpty = true
  · exact .atSections (by simp [hempty, hmode])
  · have hpos : 0 < b.members.length := by
      simpa [List.length_pos_iff] using hempty
    exact .atMembers (by simp [hempty]) hl hs hpos

theorem enter_done (h : b.Sound) : Done b.enter? b.enter := by
  unfold enter enter?
  by_cases hnone : b.loaded.isNone = true
  · simp only [hnone, if_true]
    exact h.done
  · have hl : b.loaded ≠ none := by simpa using hnone
    simp only [hnone]
    cases hmode : b.mode with
    | selectSection =>
      by_cases hs : b.selected.hasMembers = true
      · have hmenu := enterMembers_done hl hmode hs
        simp only [hmode] at hmenu
        simp only [hs, if_true]
        exact hmenu
      · simp only [hs]
        exact openPane_done hl fun hs' => absurd hs' hs
    | selectMember => exact openPane_done hl (h.member_lt (.inl hmode))
    | detail => exact h.done
    | filter => exact h.done

theorem back_sound (h : b.Sound) : b.back.Sound := by
  unfold back
  cases hmode : b.mode with
  | detail =>
    have hl := h.loaded_ne (by simp [hmode])
    by_cases hs : b.selected.hasMembers = true
    · exact .atMembers (by simp [hs]) hl hs (h.member_lt (.inr hmode) hs)
    · exact .atSections (by simp [hs])
  | selectMember => exact .atSections rfl
  | selectSection => exact h
  | filter => exact h

/-- Among members the mark stays in range. -/
theorem mark_sound (h : b.Sound) (hmode : b.mode = .selectMember) {i : Nat}
    (hi : i < b.members.length) : { b with member := i }.Sound :=
  .atMembers hmode (h.loaded_ne (by simp [hmode])) ((Section.hasMembers_iff _).2 (h.choosing hmode))
    hi

theorem menuKey_sound (h : b.Sound) (name : String) : (b.menuKey name).Sound := by
  have hsections : b.mode = .selectSection → ∀ s, { b with selected := s }.Sound := by
    intro hmode s
    exact .atSections hmode
  have hup : b.mode = .selectMember → { b with member := b.member - 1 }.Sound := by
    intro hmode
    have hlt := h.inRange (.inl hmode)
    exact mark_sound h hmode (by omega)
  have hdown : b.mode = .selectMember →
      (if b.member + 1 < b.members.length then { b with member := b.member + 1 } else b).Sound := by
    intro hmode
    split
    · exact mark_sound h hmode ‹_›
    · exact h
  unfold menuKey
  split
  · exact hsections ‹_› _
  · exact hsections ‹_› _
  · exact hsections ‹_› _
  · exact hsections ‹_› _
  · exact hup ‹_›
  · exact hup ‹_›
  · exact hdown ‹_›
  · exact hdown ‹_›
  · exact h

theorem menuKey_done (h : b.Sound) (name : String) : Done (b.menuKey? name) (b.menuKey name) := by
  refine ⟨?_, menuKey_sound h name⟩
  unfold menuKey?
  split
  · rename_i hdown
    obtain ⟨hmode, rfl | rfl⟩ := hdown
    all_goals
      have hmembers := members?_eq (h.loaded_ne (by simp [hmode]))
      simp [hmembers, menuKey, hmode]
  · rfl

theorem filterKey_done (h : b.Sound) (hmode : b.mode = .filter) (k : T.Key) :
    Done (b.filterKey? k) (b.filterKey k) := by
  have hl := h.loaded_ne (by simp [hmode])
  have hpool := h.filtering hmode
  have hnone : b.selected.hasMembers = true → b.member < b.members.length := by
    intro hs
    rw [hpool] at hs
    cases hs
  unfold filterKey? filterKey
  repeat' split
  · exact openPane_done hl hnone
  · exact openPane_done hl hnone
  · exact ⟨refresh?_eq hl hnone, (h.withPrompt _).withPane _⟩

/-- A key in the pane scrolls it, or opens the prompt on the constant pool. -/
theorem detailKey_sound (h : b.Sound) (hmode : b.mode = .detail) {k : T.Key}
    (henter : T.name k ≠ "enter") (hesc : T.name k ≠ "esc") : (b.plainKey k).Sound := by
  have hl := h.loaded_ne (by simp [hmode])
  rw [plainKey, if_neg henter, if_neg hesc, if_pos hmode]
  split
  · rename_i hslash
    exact ⟨h.selected, fun hnone => absurd hnone hl, nofun, fun _ => hslash.2, nofun⟩
  · exact h.withPane _

theorem plainKey_done (h : b.Sound) (k : T.Key) : Done (b.plainKey? k) (b.plainKey k) := by
  by_cases henter : T.name k = "enter"
  · rw [plainKey?, if_pos henter, plainKey, if_pos henter]
    exact enter_done h
  by_cases hesc : T.name k = "esc"
  · rw [plainKey?, if_neg henter, if_pos hesc, plainKey, if_neg henter, if_pos hesc]
    exact (back_sound h).done
  by_cases hdetail : b.mode = .detail
  · rw [plainKey?, if_neg henter, if_neg hesc, if_pos hdetail]
    exact (detailKey_sound h hdetail henter hesc).done
  · rw [plainKey?, if_neg henter, if_neg hesc, if_neg hdetail, plainKey, if_neg henter, if_neg hesc,
      if_neg hdetail]
    exact menuKey_done h (T.name k)

theorem key_done (h : b.Sound) (k : T.Key) :
    (b.update (.key k)).1.Sound ∧ b.update? (.key k) = some (b.update (.key k)) := by
  simp only [update, update?]
  by_cases hquit : b.isQuit (T.name k) = true
  · simp only [hquit, if_true]
    exact ⟨h, trivial⟩
  · by_cases hmode : b.mode = .filter
    · have hdone := filterKey_done h hmode k
      simp only [hquit, hmode, hdone.outcome_eq, if_true]
      exact ⟨hdone.sound, rfl⟩
    · have hdone := plainKey_done h k
      simp only [hquit, hmode, hdone.outcome_eq, if_false]
      exact ⟨hdone.sound, rfl⟩

theorem update?_eq (h : b.Sound) (e : Event T) : b.update? e = some (b.update e) := by
  cases e with
  | key k => exact (key_done h k).2
  | _ => rfl

/-- Every event but a second arrival of the class keeps a sound state sound. -/
theorem Sound.update (h : b.Sound) (e : Event T) (he : e.isLoad = true → b.loaded = none) :
    (b.update e).1.Sound := by
  cases e with
  | loaded result =>
    have hmode := h.unloaded (he rfl)
    cases result with
    | ok l => exact .atSections hmode
    | error c => exact .atSections hmode
  | resized width height => exact h.withPane _
  | signal s =>
    simp only [Browser.update]
    split
    · exact h.withPane _
    · exact h
  | key k => exact (key_done h k).1

/-- Nothing else brings a class. -/
theorem loaded_update {e : Event T} (he : e.isLoad ≠ true) : (b.update e).1.loaded = b.loaded := by
  have hopen : ∀ b : Browser T, b.openPane.loaded = b.loaded := fun _ => rfl
  have henter : b.enter.loaded = b.loaded := by
    unfold enter
    repeat' split
    all_goals rfl
  have hback : b.back.loaded = b.loaded := by
    unfold back
    split <;> rfl
  have hmenu : ∀ name, (b.menuKey name).loaded = b.loaded := by
    intro name
    unfold menuKey
    repeat' split
    all_goals rfl
  have hplain : ∀ k, (b.plainKey k).loaded = b.loaded := by
    intro k
    unfold plainKey
    repeat' split
    all_goals first | rfl | exact henter | exact hback | exact hmenu _
  have hfilter : ∀ k, (b.filterKey k).loaded = b.loaded := by
    intro k
    unfold filterKey
    repeat' split
    all_goals rfl
  cases e with
  | loaded result => exact absurd rfl he
  | resized width height => rfl
  | signal s =>
    simp only [update]
    split <;> rfl
  | key k =>
    simp only [update]
    repeat' split
    · rfl
    · exact hfilter k
    · exact hplain k

/-! ## The focus -/

/-- The prompt has the focus exactly while it is open. -/
def Attentive (b : Browser T) : Prop :=
  T.prompts.focused b.prompt = true ↔ b.mode = .filter

/-- Where the prompt is not open, all that matters is that it has no focus. -/
theorem attentive_iff (hmode : b.mode ≠ .filter) :
    b.Attentive ↔ T.prompts.focused b.prompt = false := by
  simp [Attentive, hmode]

/-- With no prompt open, the prompt stays as it is and closed, unless a key opens it. -/
theorem plainKey_prompt (hmode : b.mode ≠ .filter) (k : T.Key) :
    (b.plainKey k).mode = .filter ∧ (b.plainKey k).prompt = T.prompts.focus b.prompt
      ∨ (b.plainKey k).mode ≠ .filter ∧ (b.plainKey k).prompt = b.prompt := by
  have henter : b.enter.mode ≠ .filter ∧ b.enter.prompt = b.prompt := by
    unfold enter
    repeat' split
    all_goals simp_all [openPane, refresh]
  have hback : b.back.mode ≠ .filter ∧ b.back.prompt = b.prompt := by
    unfold back
    split
    · refine ⟨?_, rfl⟩
      dsimp only
      split <;> nofun
    · exact ⟨nofun, rfl⟩
    · exact ⟨hmode, rfl⟩
  have hmenu : ∀ name, (b.menuKey name).mode ≠ .filter ∧ (b.menuKey name).prompt = b.prompt := by
    intro name
    unfold menuKey
    repeat' split
    all_goals exact ⟨hmode, rfl⟩
  unfold plainKey
  repeat' split
  · exact .inr henter
  · exact .inr hback
  · exact .inl ⟨rfl, rfl⟩
  · exact .inr ⟨hmode, rfl⟩
  · exact .inr (hmenu _)

section

variable (hT : T.prompts.Focusing)

include hT

theorem filterKey_attentive (h : b.Attentive) (hmode : b.mode = .filter) (k : T.Key) :
    (b.filterKey k).Attentive := by
  unfold filterKey
  repeat' split
  · exact (attentive_iff (by simp [openPane])).2 (hT.blur _)
  · exact (attentive_iff (by simp [openPane])).2 (hT.blur _)
  · have hfocused := (hT.key b.prompt k).trans (h.2 hmode)
    simp [Attentive, refresh, hfocused, hmode]

theorem plainKey_attentive (h : b.Attentive) (hmode : b.mode ≠ .filter) (k : T.Key) :
    (b.plainKey k).Attentive := by
  rcases plainKey_prompt hmode k with ⟨hopen, hprompt⟩ | ⟨hclosed, hprompt⟩
  · simp [Attentive, hopen, hprompt, hT.focus]
  · rw [attentive_iff hclosed, hprompt]
    exact (attentive_iff hmode).1 h

theorem Attentive.update (h : b.Attentive) (e : Event T) : (b.update e).1.Attentive := by
  cases e with
  | loaded result => cases result <;> exact h
  | resized width height => exact h
  | signal s =>
    simp only [Browser.update]
    split <;> exact h
  | key k =>
    simp only [Browser.update]
    split
    · exact h
    · split
      · exact filterKey_attentive hT h ‹_› k
      · exact plainKey_attentive hT h ‹_› k

end

/-! ## Runs -/

/-- The state after events in turn. -/
def run (b : Browser T) (events : List (Event T)) : Browser T :=
  events.foldl (fun b e => (b.update e).1) b

/-- What every event but a second arrival of the class keeps, a run keeps in which the class arrives at
most once. The one arrival, if it comes, leaves none for the events after it. -/
theorem run_keeps {P : Browser T → Prop}
    (hP : ∀ (b : Browser T) (e : Event T), P b → (e.isLoad = true → b.loaded = none) →
      P (b.update e).1)
    (h : P b) {events : List (Event T)}
    (hcount : events.countP Event.isLoad ≤ if b.loaded = none then 1 else 0) : P (b.run events) := by
  induction events generalizing b with
  | nil => exact h
  | cons e events ih =>
    rw [List.countP_cons] at hcount
    by_cases he : e.isLoad = true
    · rw [if_pos he] at hcount
      have hnone : b.loaded = none := by
        split at hcount
        · assumption
        · omega
      rw [if_pos hnone] at hcount
      exact ih (hP b e h fun _ => hnone) (by omega)
    · rw [if_neg he] at hcount
      refine ih (hP b e h fun hload => absurd hload he) ?_
      rw [loaded_update he]
      exact hcount

/-- The same from the start. -/
theorem run_start_keeps {P : Browser T → Prop}
    (hP : ∀ (b : Browser T) (e : Event T), P b → (e.isLoad = true → b.loaded = none) →
      P (b.update e).1)
    {filename : String} (h : P (start filename)) {events : List (Event T)}
    (hcount : events.countP Event.isLoad ≤ 1) : P ((start filename).run events) := by
  have hnone : (start filename : Browser T).loaded = none := rfl
  refine run_keeps hP h ?_
  rwa [if_pos hnone]

theorem view?_eq (b : Browser T) : b.view? = some b.view := by
  unfold view?
  split
  · rename_i hmenu
    have hl : b.loaded ≠ none := Option.isSome_iff_ne_none.1 hmenu.2.1
    rw [members?_eq hl]
    rfl
  · rfl

theorem Sound.shown (h : b.Sound) (hmode : b.mode ≠ .selectSection) :
    b.members? = some b.members ∧ b.detail? = some b.detail := by
  have hl := h.loaded_ne hmode
  refine ⟨members?_eq hl, detail?_eq hl fun hs => ?_⟩
  cases hm : b.mode with
  | selectSection => exact absurd hm hmode
  | selectMember => exact h.member_lt (.inl hm) hs
  | detail => exact h.member_lt (.inr hm) hs
  | filter =>
    rw [h.filtering hm] at hs
    cases hs

/-- **Browsing is safe.** With any toolkit whose prompts get the focus and lose it as they should, and
after any events of which at most one is the arrival of the class, the state is sound: the section is
one of the six, only the menu of sections is open while there is no class, members are chosen among
fields or methods only, the prompt is open on the constant pool only and has the focus exactly then, and
the member that is marked or shown exists. So the picture, the details and the next state are always
found without reading a class that is not there or a member that it does not have. -/
theorem run_safe {T : Toolkit} (hT : T.prompts.Focusing) (filename : String)
    (events : List (Event T)) (h : events.countP Event.isLoad ≤ 1) :
    let b := (start filename).run events
    b.Sound ∧ (T.prompts.focused b.prompt = true ↔ b.mode = .filter) ∧ b.view? = some b.view
      ∧ (b.mode ≠ .selectSection → b.members? = some b.members ∧ b.detail? = some b.detail)
      ∧ ∀ e, b.update? e = some (b.update e) := by
  intro b
  have hsound : b.Sound := run_start_keeps (fun _ e hb he => hb.update e he) (.atSections rfl) h
  have hstart : (start filename : Browser T).Attentive :=
    (attentive_iff (by simp [start])).2 (hT.new _ _ _)
  have hattentive : b.Attentive := run_start_keeps (fun _ e hb _ => hb.update hT e) hstart h
  exact ⟨hsound, hattentive, view?_eq b, hsound.shown, update?_eq hsound⟩

/-- The class arrives after the first keys; then a method is opened, closed and opened again. -/
def visit : List (Event .terminal) :=
  [.key (.ofName "down"), .key (.ofName "enter"), .key (.ofName "down"), .key (.ofName "down"),
    .loaded (.ok ⟨ClassForm.nested.tree ClassForm.nestedPool [], ClassForm.nested.bytes⟩),
    .key (.ofName "enter"), .key (.ofName "down"), .key (.ofName "enter"), .signal .wheelDown,
    .key (.ofName "esc"), .resized 80 3, .signal .other, .key (.ofName "enter")]

theorem run_safe_visit :
    let b := (start "A.class").run visit
    Prompt.kit.Focusing ∧ visit.countP Event.isLoad ≤ 1
      ∧ (b.mode = .detail ∧ b.selected = .methods ∧ b.member = 0)
      ∧ b.Sound ∧ (Prompt.kit.focused b.prompt = true ↔ b.mode = .filter) ∧ b.view? = some b.view
      ∧ (b.mode ≠ .selectSection → b.members? = some b.members ∧ b.detail? = some b.detail)
      ∧ ∀ e, b.update? e = some (b.update e) := by
  intro b
  have hcount : visit.countP Event.isLoad ≤ 1 := by decide
  exact ⟨Prompt.kit_focusing, hcount, ⟨rfl, rfl, rfl⟩,
    run_safe Prompt.kit_focusing "A.class" visit hcount⟩

end Browser

end ClassAtlas

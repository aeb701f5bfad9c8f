/-
# The options of the menu are in range

Each select of the menu points to a field of the settings and has as many options as this
field has values (`Menu.Inv`).  A press moves a field around inside these values, so what
the menu prints is always there, once the first values are in range.  The choices of the
XML come with a value that is clamped.  That of the automatic updates is taken from the
settings file as it is, and so nothing holds it below 2 (`menu_in_range_iff`).
-/

import RrLauncher.Settings.Codec
import RrLauncher.Settings.Menu

namespace RrLauncher

open CStr (lit)

/-! ### Around a range -/

section Around

variable {value : UInt32} {count : ℕ}

/-- A step down inside a range of values stays inside: from the first value it goes to the last one.
The range is not empty, as there is a value in it, so the subtraction does not wrap. -/
theorem toNat_wrapDown (hvalue : value.toNat < count) (hcount : count < 2 ^ 32) :
    (if value > 0 then value - 1 else UInt32.ofNat count - 1).toNat < count := by
  have hone : (1 : UInt32).toNat = 1 := rfl
  split_ifs with hpos
  · have hle : 1 ≤ value := by
      rw [UInt32.le_iff_toNat_le, hone]
      exact UInt32.lt_iff_toNat_lt.mp hpos
    rw [UInt32.toNat_sub_of_le _ _ hle]
    omega
  · have hnat : (UInt32.ofNat count).toNat = count := UInt32.toNat_ofNat_of_lt' hcount
    have hle : 1 ≤ UInt32.ofNat count := by
      rw [UInt32.le_iff_toNat_le, hnat, hone]
      omega
    rw [UInt32.toNat_sub_of_le _ _ hle, hnat, hone]
    omega

/-- A step up inside a range of values stays inside: from the last value it goes to the first one.
The addition does not wrap, as the range fits into 32 bits. -/
theorem toNat_wrapUp (hvalue : value.toNat < count) (hcount : count < 2 ^ 32) :
    (if value + 1 ≥ UInt32.ofNat count then 0 else value + 1).toNat < count := by
  have hnat : (UInt32.ofNat count).toNat = count := UInt32.toNat_ofNat_of_lt' hcount
  split_ifs with hlast
  · show 0 < count
    omega
  · rw [ge_iff_le, UInt32.le_iff_toNat_le, hnat] at hlast
    omega

end Around

/-! ### The invariant -/

/-- A select that points to a field with so many values, and has an option for each. -/
def SettingsEntry.Fits (count : SettingsField → ℕ) (entry : SettingsEntry) : Prop :=
  entry.type = .select → ∃ field options, entry.selectedOption = some field ∧
    entry.options = some options ∧ options.length = count field ∧ entry.optionCount = count field

/-- All fields of the settings are in range. -/
def RrcSettingsfile.InRange (count : SettingsField → ℕ) (settings : RrcSettingsfile) : Prop :=
  ∀ field, (settings.get field).toNat < count field

/-- **What holds at the head of the outer loop.** -/
structure Menu.Inv (count : SettingsField → ℕ) (menu : Menu) : Prop where
  fits : ∀ entry ∈ menu.entries, entry.Fits count
  settings : menu.storedSettings.InRange count
  selected : menu.selectedIdx < menu.entries.length

/-- The selected option of every select is one of its options, and the selected entry is
one of the entries. -/
def Menu.InRange (menu : Menu) : Prop :=
  menu.selectedIdx < menu.entries.length ∧
    ∀ entry ∈ menu.entries, entry.type = .select → ∃ field, entry.selectedOption = some field ∧
      (menu.storedSettings.get field).toNat < entry.optionCount

section Steps

variable {count : SettingsField → ℕ} {menu menu' : Menu} {entry : SettingsEntry}
  {settings settings' : RrcSettingsfile}

/-- The invariant includes what the menu owes its caller: the selected row exists, and every setting
is one of the options of its row. -/
theorem Menu.Inv.inRange (h : menu.Inv count) : menu.InRange := by
  refine ⟨h.selected, fun entry hentry hselect => ?_⟩
  obtain ⟨field, options, hfield, -, -, hcount⟩ := h.fits entry hentry hselect
  refine ⟨field, hfield, ?_⟩
  rw [hcount]
  exact h.settings field

/-- Setting one field to a value in its range leaves all of the fields in range. -/
theorem RrcSettingsfile.InRange.set {value : UInt32} {field : SettingsField}
    (h : settings.InRange count) (hvalue : value.toNat < count field) :
    (settings.set value field).InRange count := by
  intro field'
  rw [RrcSettingsfile.get_set]
  split_ifs with heq
  · rwa [heq]
  · exact h field'

/-- Left keeps the settings in range: the field of the entry goes down by one, or around to its last
value. -/
theorem SettingsEntry.Fits.left (h : entry.Fits count) (hcount : ∀ field, count field < 2 ^ 32)
    (hsettings : settings.InRange count) (hselect : entry.type = .select)
    (hleft : entry.left settings = some settings') : settings'.InRange count := by
  obtain ⟨field, options, hfield, -, -, hoptions⟩ := h hselect
  rw [SettingsEntry.left, hfield, Option.map_some, hoptions] at hleft
  cases hleft
  exact hsettings.set (toNat_wrapDown (hsettings field) (hcount field))

/-- Right keeps the settings in range: the field of the entry goes up by one, or around to its first
value. -/
theorem SettingsEntry.Fits.right (h : entry.Fits count) (hcount : ∀ field, count field < 2 ^ 32)
    (hsettings : settings.InRange count) (hselect : entry.type = .select)
    (hright : entry.right settings = some settings') : settings'.InRange count := by
  obtain ⟨field, options, hfield, -, -, hoptions⟩ := h hselect
  rw [SettingsEntry.right, hfield, Option.map_some, hoptions] at hright
  cases hright
  exact hsettings.set (toNat_wrapUp (hsettings field) (hcount field))

/-- Noting the saved value in an entry does not touch the field it points to or its options, so the
entry still fits. -/
theorem SettingsEntry.Fits.markSaved (h : entry.Fits count) (settings : RrcSettingsfile) :
    (entry.markSaved settings).Fits count := by
  unfold SettingsEntry.markSaved
  split
  · exact h
  · exact h

/-- An entry that fits can be printed: the option that its field is set to is there to be shown. -/
theorem SettingsEntry.Fits.draw (h : entry.Fits count) (hsettings : settings.InRange count)
    (maxLabelLen : ℕ) (alert : Option CStr) (isSelected : Bool) :
    (entry.draw settings maxLabelLen alert isSelected).isSome := by
  unfold SettingsEntry.draw
  cases htype : entry.type with
  | button => rfl
  | select =>
    obtain ⟨field, options, hfield, hoptions, hlength, -⟩ := h htype
    have hlt : (settings.get field).toNat < options.length := by
      rw [hlength]
      exact hsettings field
    simp [hfield, hoptions, List.getElem?_eq_getElem hlt]

namespace Menu

/-- Going down keeps the invariant: the selection moves to the next row, or from the last one to the
first. -/
theorem Inv.down (h : menu.Inv count) : menu.down.Inv count := by
  refine ⟨h.fits, h.settings, ?_⟩
  have := h.selected
  show (if menu.selectedIdx < menu.entries.length - 1 then menu.selectedIdx + 1 else 0) <
    menu.entries.length
  split_ifs <;> omega

/-- Going up keeps the invariant: the selection moves to the row above, or from the first one to the
last. -/
theorem Inv.up (h : menu.Inv count) : menu.up.Inv count := by
  refine ⟨h.fits, h.settings, ?_⟩
  have := h.selected
  show (if menu.selectedIdx > 0 then menu.selectedIdx - 1 else menu.entries.length - 1) <
    menu.entries.length
  split_ifs <;> omega

/-- Saving keeps the invariant, whether it works or not: no setting is changed, and the entries only
note what was saved. -/
theorem Inv.save (h : menu.Inv count) (answers : Answers) : (menu.save answers).Inv count := by
  unfold Menu.save
  dsimp only
  split
  · exact ⟨h.fits, h.settings, h.selected⟩
  · refine ⟨?_, h.settings, ?_⟩
    · intro entry hentry
      obtain ⟨entry', hentry', rfl⟩ := List.mem_map.mp hentry
      exact (h.fits entry' hentry').markSaved _
    · show menu.selectedIdx < (menu.entries.map _).length
      rw [List.length_map]
      exact h.selected

/-- Looking for updates keeps the invariant where the menu goes on afterwards. -/
theorem Inv.performUpdates (h : menu.Inv count) {answers : Answers}
    (hpoll : menu.performUpdates answers = .again menu') : menu'.Inv count := by
  unfold Menu.performUpdates at hpoll
  split at hpoll
  · cases hpoll
    exact h
  · split_ifs at hpoll
    · cases hpoll
      exact ⟨h.fits, h.settings, h.selected⟩
    · cases hpoll
      exact ⟨h.fits, h.settings, h.selected⟩

/-- Pressing A keeps the invariant, whatever the button under the selection does, where the menu
goes on afterwards. -/
theorem Inv.pressA (h : menu.Inv count) {hasUnsavedChanges : Bool} {answers : Answers}
    (hpoll : menu.pressA hasUnsavedChanges entry answers = .again menu') : menu'.Inv count := by
  unfold Menu.pressA at hpoll
  split_ifs at hpoll
  · cases hpoll
    exact h.save answers
  · exact h.performUpdates hpoll
  · cases hpoll
    exact ⟨h.fits, h.settings, h.selected⟩
  · cases hpoll
    exact h

/-- **A turn of the inner loop keeps the invariant**, whichever button is pressed in it, where the
menu goes on. -/
theorem Inv.poll (h : menu.Inv count) (hcount : ∀ field, count field < 2 ^ 32)
    {hasUnsavedChanges : Bool} {pad : Pad} {answers : Answers}
    (hpoll : menu.poll hasUnsavedChanges pad answers = .again menu') : menu'.Inv count := by
  -- the settings that left and right turn to are in range
  have hturn : ∀ {turned : Option RrcSettingsfile},
      (∀ settings', turned = some settings' → settings'.InRange count) →
      menu.turn turned = .again menu' → menu'.Inv count := by
    intro turned hturned hagain
    cases turned with
    | none => cases hagain
    | some settings' =>
      cases hagain
      exact ⟨h.fits, hturned settings' rfl, h.selected⟩
  unfold Menu.poll at hpoll
  split at hpoll
  · cases hpoll
  split at hpoll
  · cases hpoll
    exact h.down
  split at hpoll
  · cases hpoll
    exact h.up
  split at hpoll
  · cases hpoll
  rename_i entry hentry
  have hfits := h.fits entry (List.mem_of_getElem? hentry)
  split_ifs at hpoll with hleft hright
  · exact hturn (fun _ => hfits.left hcount h.settings hleft.2) hpoll
  · exact hturn (fun _ => hfits.right hcount h.settings hright.2) hpoll
  · exact h.pressA hpoll

/-- Printing changes the status message of the menu at most, and none of its entries or settings. -/
theorem draw_menu {rows : ℕ} {alert : Option CStr} {drawn : Drawn}
    (h : menu.draw rows alert = some drawn) :
    ∃ statusMessage, drawn.menu = { menu with statusMessage := statusMessage } := by
  unfold Menu.draw at h
  obtain ⟨⟨printed, hasUnsavedChanges⟩, -, h⟩ := Option.bind_eq_some_iff.mp h
  cases h
  dsimp only
  split_ifs
  · exact ⟨_, rfl⟩
  · exact ⟨_, rfl⟩

/-- Drawing the rows keeps the invariant in the menu that is handed on behind it. -/
theorem Inv.drawn (h : menu.Inv count) {rows : ℕ} {alert : Option CStr} {drawn : Drawn}
    (hdraw : menu.draw rows alert = some drawn) : drawn.menu.Inv count := by
  obtain ⟨statusMessage, hmenu⟩ := draw_menu hdraw
  rw [hmenu]
  exact ⟨h.fits, h.settings, h.selected⟩

/-- **Everything that the menu prints is there**: no row is printed with an option that its list
does not have. -/
theorem Inv.draw (h : menu.Inv count) (rows : ℕ) (alert : Option CStr) :
    (menu.draw rows alert).isSome := by
  have hentries : ∀ (entries : List SettingsEntry) (i row : ℕ), (∀ entry ∈ entries, entry.Fits count) →
      (menu.drawEntries alert i row entries).isSome := by
    intro entries
    induction entries with
    | nil => exact fun _ _ _ => rfl
    | cons entry entries ih =>
      intro i row hfits
      rw [List.forall_mem_cons] at hfits
      obtain ⟨drawn, hdrawn⟩ := Option.isSome_iff_exists.mp
        (hfits.1.draw h.settings menu.maxLabelLen alert (menu.selectedIdx = i))
      obtain ⟨rest, hrest⟩ := Option.isSome_iff_exists.mp
        (ih (i + 1) (row + entry.marginTop + 1) hfits.2)
      rw [Menu.drawEntries, hdrawn, Option.bind_eq_bind, Option.bind_some, hrest]
      rfl
  obtain ⟨drawn, hdrawn⟩ := Option.isSome_iff_exists.mp
    (hentries menu.entries 0 rrcSettingsRowStart h.fits)
  rw [Menu.draw, hdrawn]
  rfl

/-- **A run keeps the invariant**, by induction on its steps, whatever is pressed and answered in
it. -/
theorem Inv.reachable {start : Menu} (h : start.Inv count) (hcount : ∀ field, count field < 2 ^ 32)
    (hmenu : start.Reachable menu) : menu.Inv count := by
  induction hmenu with
  | init => exact h
  | step _ hdraw hpoll ih => exact (ih.drawn hdraw).poll hcount hpoll

end Menu

end Steps

/-! ### The first menu -/

section Init

variable {findFirst : XmlPlace → CStr → Option XmlPlace}

/-- How many values each field has. -/
def optionCounts (myStuffOptions savegameOptions : List CStr) : SettingsField → ℕ
  | .myStuff => myStuffOptions.length
  | .separateSavegame => savegameOptions.length
  | .autoUpdate => autoupdateOptions.length

/-- **How the menu begins**: the settings are those of the file, with two of them clamped
to the choices that the XML has for them. -/
theorem Menu.init_ok {xmlFile : Except ℕ (Option XmlNode)} {settings : RrcSettingsfile}
    {start : Menu} (h : Menu.init findFirst xmlFile settings = .ok start) :
    ∃ settings' myStuffOptions savegameOptions,
      start.storedSettings = settings' ∧ settings'.autoUpdate = settings.autoUpdate ∧
      start.entries = settingsEntries settings' myStuffOptions savegameOptions ∧
      start.selectedIdx = 0 ∧
      myStuffOptions.length ≤ intMax ∧ settings'.myStuff.toNat < myStuffOptions.length ∧
      savegameOptions.length ≤ intMax ∧
      settings'.separateSavegame.toNat < savegameOptions.length := by
  unfold Menu.init at h
  split at h
  · cases h
  · cases h
  split at h
  · cases h
  rename_i xmlTop _ xmlOptions _
  cases hmyStuff : xmlFindOptionChoices findFirst xmlTop.place xmlOptions (lit "My Stuff")
      settings.myStuff with
  | error stop =>
    rw [hmyStuff] at h
    cases h
  | ok myStuff =>
    cases hsavegame : xmlFindOptionChoices findFirst xmlTop.place xmlOptions (lit "Seperate Savegame")
        settings.separateSavegame with
    | error stop =>
      rw [hmyStuff] at h
      simp only [bind, Except.bind, hsavegame] at h
      cases h
    | ok savegame =>
      rw [hmyStuff] at h
      simp only [bind, Except.bind, hsavegame] at h
      split_ifs at h
      cases h
      obtain ⟨hmyStuffInt, hmyStuffLt⟩ := xmlFindOptionChoices_clamps hmyStuff
      obtain ⟨hsavegameInt, hsavegameLt⟩ := xmlFindOptionChoices_clamps hsavegame
      exact ⟨_, myStuff.1, savegame.1, rfl, rfl, rfl, rfl, hmyStuffInt, hmyStuffLt,
        hsavegameInt, hsavegameLt⟩

/-- The selects of the menu fit their fields: each has as many options as its field has values. -/
theorem settingsEntries_fits (settings : RrcSettingsfile)
    (myStuffOptions savegameOptions : List CStr) :
    ∀ entry ∈ settingsEntries settings myStuffOptions savegameOptions,
      entry.Fits (optionCounts myStuffOptions savegameOptions) := by
  unfold settingsEntries
  simp only [List.forall_mem_cons]
  refine ⟨nofun, nofun, nofun, nofun, fun _ => ?_, fun _ => ?_, fun _ => ?_, nofun, nofun, nofun⟩
  · exact ⟨.myStuff, _, rfl, rfl, rfl, rfl⟩
  · exact ⟨.separateSavegame, _, rfl, rfl, rfl, rfl⟩
  · exact ⟨.autoUpdate, _, rfl, rfl, rfl, rfl⟩

/-- **The first menu** has the invariant if the automatic updates are off or on. -/
theorem Menu.Inv.init {xmlFile : Except ℕ (Option XmlNode)} {settings : RrcSettingsfile}
    {start : Menu} (hinit : Menu.init findFirst xmlFile settings = .ok start)
    (hauto : settings.autoUpdate.toNat < 2) :
    ∃ count : SettingsField → ℕ, (∀ field, count field < 2 ^ 32) ∧ start.Inv count := by
  obtain ⟨settings', myStuffOptions, savegameOptions, hsettings, hauto', hentries, hselected,
    hmyStuffInt, hmyStuff, hsavegameInt, hsavegame⟩ := Menu.init_ok hinit
  have hmax : intMax < 2 ^ 32 := by decide
  refine ⟨optionCounts myStuffOptions savegameOptions, fun field => ?_, ?_, ?_, ?_⟩
  · cases field with
    | myStuff => exact lt_of_le_of_lt hmyStuffInt hmax
    | separateSavegame => exact lt_of_le_of_lt hsavegameInt hmax
    | autoUpdate => exact (by decide : 2 < 2 ^ 32)
  · rw [hentries]
    exact settingsEntries_fits _ _ _
  · rw [hsettings]
    intro field
    cases field with
    | myStuff => exact hmyStuff
    | separateSavegame => exact hsavegame
    | autoUpdate =>
      show settings'.autoUpdate.toNat < 2
      rwa [hauto']
  · rw [hentries, hselected]
    exact Nat.succ_pos _

/-- In the first menu, the options are in range only if the automatic updates are off or
on: their select shows the value that the settings file has. -/
theorem Menu.autoUpdate_of_inRange {xmlFile : Except ℕ (Option XmlNode)}
    {settings : RrcSettingsfile} {start : Menu} (hinit : Menu.init findFirst xmlFile settings = .ok start)
    (h : start.InRange) : settings.autoUpdate.toNat < 2 := by
  obtain ⟨settings', myStuffOptions, savegameOptions, hsettings, hauto, hentries, -⟩ :=
    Menu.init_ok hinit
  obtain ⟨-, hselects⟩ := h
  rw [hentries, hsettings] at hselects
  unfold settingsEntries at hselects
  simp only [List.forall_mem_cons] at hselects
  obtain ⟨-, -, -, -, -, -, hautoupdate, -⟩ := hselects
  obtain ⟨field, hfield, hlt⟩ := hautoupdate trivial
  cases hfield
  rwa [← hauto]

/-- **The options stay in range** for every run of the menu just if the settings file
has 0 or 1 for the automatic updates. -/
theorem menu_in_range_iff {content : Stdio.Bytes} {xmlFile : Except ℕ (Option XmlNode)}
    {start : Menu} (hinit : Menu.init findFirst xmlFile (parseContent content).2 = .ok start) :
    (∀ menu, start.Reachable menu → menu.InRange) ↔ (parseContent content).2.autoUpdate < 2 := by
  rw [UInt32.lt_iff_toNat_lt, show (2 : UInt32).toNat = 2 from rfl]
  constructor
  · intro h
    exact Menu.autoUpdate_of_inRange hinit (h start .init)
  · intro hauto menu hmenu
    obtain ⟨count, hcount, hinv⟩ := Menu.Inv.init hinit hauto
    exact (hinv.reachable hcount hmenu).inRange

/-- **The menu never reads behind its options**, whatever is pressed, where the settings
file has 0 or 1 for the automatic updates. -/
theorem menu_always_draws {content : Stdio.Bytes} {xmlFile : Except ℕ (Option XmlNode)}
    {start menu : Menu} (hinit : Menu.init findFirst xmlFile (parseContent content).2 = .ok start)
    (hauto : (parseContent content).2.autoUpdate < 2) (hmenu : start.Reachable menu) (rows : ℕ)
    (alert : Option CStr) : (menu.draw rows alert).isSome := by
  obtain ⟨count, hcount, hinv⟩ := Menu.Inv.init hinit (UInt32.lt_iff_toNat_lt.mp hauto)
  exact (hinv.reachable hcount hmenu).draw rows alert

end Init

/-- An option with one choice. -/
def optionNamed (name : CStr) : XmlNode :=
  .element (lit "option") [(lit "name", name)]
    [.other, .element (lit "choice") [(lit "name", lit "Enabled")] []]

/-- A document with the two options of the menu. -/
def menuDocument : XmlNode :=
  .element (lit "wiidisc") []
    [.element (lit "options") []
      [.element (lit "section") [] [optionNamed (lit "My Stuff"), optionNamed (lit "Seperate Savegame")]]]

/-- The menu for a settings file in which another option is out of range. -/
theorem menu_in_range_iff_my_stuff :
    ∃ start, Menu.init XmlPlace.findFirst (.ok (some menuDocument))
        (parseContent (encode [(rrcSettingsfileMyStuffKey, 7)])).2 = .ok start ∧
      ((∀ menu, start.Reachable menu → menu.InRange) ↔
        (parseContent (encode [(rrcSettingsfileMyStuffKey, 7)])).2.autoUpdate < 2) := by
  have hparse : (parseContent (encode [(rrcSettingsfileMyStuffKey, 7)])).2 = ⟨7, 0, 1⟩ := by
    decide +kernel
  have hinit : ∃ start,
      Menu.init XmlPlace.findFirst (.ok (some menuDocument)) ⟨7, 0, 1⟩ = .ok start := ⟨_, rfl⟩
  rw [← hparse] at hinit
  obtain ⟨start, hstart⟩ := hinit
  exact ⟨start, hstart, menu_in_range_iff hstart⟩

/-- **Automatic updates that are neither off nor on** are taken over from a settings
file, and there is no text for them. -/
theorem menu_autoupdate_out_of_range :
    ¬ ∀ (content : Stdio.Bytes) (settings : RrcSettingsfile)
      (xmlFile : Except ℕ (Option XmlNode)) (start : Menu),
      parseContent content = (.ok (), settings) →
        Menu.init XmlPlace.findFirst xmlFile settings = .ok start →
        ∀ menu, start.Reachable menu → menu.InRange := by
  intro h
  have hparse : parseContent (encode [(rrcSettingsfileAutoupdateKey, 2)]) =
      (.ok (), ⟨0, 0, 2⟩) := by decide +kernel
  have hinit : ∃ start,
      Menu.init XmlPlace.findFirst (.ok (some menuDocument)) ⟨0, 0, 2⟩ = .ok start := ⟨_, rfl⟩
  obtain ⟨start, hstart⟩ := hinit
  have hlt := Menu.autoUpdate_of_inRange hstart (h _ _ _ start hparse hstart start .init)
  exact absurd hlt (by decide)

end RrLauncher

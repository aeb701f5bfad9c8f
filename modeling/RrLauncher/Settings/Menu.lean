/-
# The settings menu

`rrc_settings_display` of `settings.c`.  The entries of the menu are buttons, and selects
that point into the settings; the outer loop prints them all, and the inner loop waits for
a button.  What a press changes is one function for each button of the pad, and what the
calls made on A come to is part of the input (`Answers`).
-/

import RrLauncher.Settings.Choices

namespace RrLauncher

open CStr (lit)

/-! ### Texts -/

/-- `RRC_CON_ANSI_FG_WHITE`. -/
def rrcConAnsiFgWhite : String := "\x1b[37;0m"

/-- `RRC_CON_ANSI_FG_BRIGHT_GREEN`. -/
def rrcConAnsiFgBrightGreen : String := "\x1b[32;1m"

/-- `RRC_CON_ANSI_FG_BRIGHT_YELLOW`. -/
def rrcConAnsiFgBrightYellow : String := "\x1b[33;1m"

/-- `RRC_CON_ANSI_FG_BRIGHT_MAGENTA`. -/
def rrcConAnsiFgBrightMagenta : String := "\x1b[35;1m"

/-- `RRC_CON_ANSI_FG_BRIGHT_WHITE`. -/
def rrcConAnsiFgBrightWhite : String := "\x1b[37;1m"

/-- `RRC_CON_ANSI_BG_BLACK`. -/
def rrcConAnsiBgBlack : String := "\x1b[40;0m"

/-- `RRC_CON_ANSI_BG_BRIGHT_RED`. -/
def rrcConAnsiBgBrightRed : String := "\x1b[41;1m"

/-- `RRC_CON_ANSI_CLR`. -/
def rrcConAnsiClr : String := rrcConAnsiFgWhite ++ rrcConAnsiBgBlack

/-- `launch_label`. -/
def launchLabel : CStr := lit "Launch Game"

/-- `save_label`. -/
def saveLabel : CStr := lit "Save changes"

/-- `changes_saved_status`. -/
def changesSavedStatus : CStr := lit (rrcConAnsiFgBrightGreen ++ "Changes saved." ++ rrcConAnsiClr)

/-- `changes_not_saved_status`. -/
def changesNotSavedStatus : CStr :=
  lit (rrcConAnsiBgBrightRed ++ "Error saving changes." ++ rrcConAnsiClr)

/-- `my_stuff_label`. -/
def myStuffLabel : CStr := lit "My Stuff"

/-- `savegame_label`. -/
def savegameLabel : CStr := lit "Separate savegame"

/-- `autoupdate_label`. -/
def autoupdateLabel : CStr := lit "Automatic updates"

/-- `perform_updates_label`. -/
def performUpdatesLabel : CStr := lit "Perform updates"

/-- `manage_channel_installation_label`. -/
def manageChannelInstallationLabel : CStr := lit "Manage channel installation"

/-- `extras_label`. -/
def extrasLabel : CStr := lit "Extras"

/-- `exit_label`. -/
def exitLabel : CStr := lit "Exit Channel"

/-- `cursor_icon`. -/
def cursorIcon : CStr := lit ">> "

/-! ### The entries -/

/-- What a `u32 *selected_option` points to: a field of the settings. -/
inductive SettingsField
  | myStuff
  | separateSavegame
  | autoUpdate
  deriving DecidableEq

namespace RrcSettingsfile

/-- `*selected_option`. -/
def get (settings : RrcSettingsfile) : SettingsField → UInt32
  | .myStuff => settings.myStuff
  | .separateSavegame => settings.separateSavegame
  | .autoUpdate => settings.autoUpdate

/-- `*selected_option = value`. -/
def set (settings : RrcSettingsfile) (value : UInt32) : SettingsField → RrcSettingsfile
  | .myStuff => { settings with myStuff := value }
  | .separateSavegame => { settings with separateSavegame := value }
  | .autoUpdate => { settings with autoUpdate := value }

/-- Setting a field changes that field, and no other one. -/
theorem get_set (settings : RrcSettingsfile) (value : UInt32) (field field' : SettingsField) :
    (settings.set value field).get field' = if field' = field then value else settings.get field' := by
  cases field <;> cases field' <;> rfl

end RrcSettingsfile

/-- `enum settings_entry_type`. -/
inductive SettingsEntryType
  | select
  | button
  deriving DecidableEq

/-- `struct settings_entry`: the fields that an initializer leaves out are zero. -/
structure SettingsEntry where
  type : SettingsEntryType
  label : CStr
  marginTop : ℕ := 0
  initialSelectedOption : UInt32 := 0
  selectedOption : Option SettingsField := none
  options : Option (List CStr) := none
  optionCount : ℕ := 0

namespace SettingsEntry

/-- The validation of an entry before the menu is shown. -/
def IsValid (entry : SettingsEntry) : Prop :=
  entry.type = .select →
    entry.options ≠ none ∧ entry.optionCount ≠ 0 ∧ entry.selectedOption ≠ none

instance (entry : SettingsEntry) : Decidable entry.IsValid :=
  inferInstanceAs (Decidable (_ → _))

/-- What a turn of the loop over the entries prints, and whether it finds an unsaved change.
It fails where it follows a null pointer or reads behind the options. -/
def draw (entry : SettingsEntry) (settings : RrcSettingsfile) (maxLabelLen : ℕ)
    (alert : Option CStr) (isSelected : Bool) : Option (List UInt8 × Bool) :=
  let cursor :=
    if isSelected then (lit rrcConAnsiFgBrightWhite).bytes ++ cursorIcon.bytes
    else List.replicate cursorIcon.len 32
  let label :=
    match alert with
    | some color =>
      if entry.label = extrasLabel then
        color.bytes ++ (lit "Extras (1)").bytes ++ (lit rrcConAnsiClr).bytes
      else entry.label.bytes
    | none => entry.label.bytes
  let start := cursor ++ label ++ (lit "  ").bytes
  match entry.type with
  | .button => some (start ++ (lit rrcConAnsiClr).bytes, false)
  | .select => do
    let options ← entry.options
    let field ← entry.selectedOption
    let option ← options[(settings.get field).toNat]?
    let unsaved := settings.get field ≠ entry.initialSelectedOption
    some
      (start ++ List.replicate (maxLabelLen - entry.label.len) 32 ++
        (if isSelected then (lit "> ").bytes else []) ++ option.bytes ++
        (if isSelected then (lit " <").bytes else []) ++
        (if unsaved then (lit rrcConAnsiFgWhite).bytes ++ (lit " *").bytes else []) ++
        (lit rrcConAnsiClr).bytes, unsaved)

/-- Left on a select: the option before, or the last one. -/
def left (entry : SettingsEntry) (settings : RrcSettingsfile) : Option RrcSettingsfile :=
  entry.selectedOption.map fun field =>
    settings.set
      (if settings.get field > 0 then settings.get field - 1
        else UInt32.ofNat entry.optionCount - 1) field

/-- Right on a select: the option behind, or the first one. -/
def right (entry : SettingsEntry) (settings : RrcSettingsfile) : Option RrcSettingsfile :=
  entry.selectedOption.map fun field =>
    settings.set
      (if settings.get field + 1 ≥ UInt32.ofNat entry.optionCount then 0
        else settings.get field + 1) field

/-- `entry.initial_selected_option = *entry.selected_option` for a select. -/
def markSaved (entry : SettingsEntry) (settings : RrcSettingsfile) : SettingsEntry :=
  match entry.type, entry.selectedOption with
  | .select, some field => { entry with initialSelectedOption := settings.get field }
  | _, _ => entry

end SettingsEntry

/-! ### The menu -/

/-- The variables of `rrc_settings_display` that live through its loops. -/
structure Menu where
  storedSettings : RrcSettingsfile
  entries : List SettingsEntry
  maxLabelLen : ℕ
  selectedIdx : ℕ
  statusMessage : CStr
  statusMessageRow : ℕ
  statusMessageCol : ℕ

/-- `enum rrc_settings_result`, where there is no error. -/
inductive RrcSettingsResult
  | launch
  | exit
  deriving DecidableEq

/-- `mxmlFindElement(top, top, element, NULL, NULL, MXML_DESCEND)`: how many places come
before the one behind the first element with the name. -/
def XmlPlace.findNamed (top : XmlPlace) (name : CStr) : Option ℕ :=
  (top.below.findIdx? fun p => p.node.isNamed name).map (· + 1)

/-- `autoupdate_options`. -/
def autoupdateOptions : List CStr := [lit "Disabled", lit "Enabled"]

/-- `entries`, with the choices that the XML has for `my_stuff` and `separate_savegame`. -/
def settingsEntries (settings : RrcSettingsfile) (myStuffOptions savegameOptions : List CStr) :
    List SettingsEntry :=
  [{ type := .button, label := launchLabel },
    { type := .button, label := performUpdatesLabel, marginTop := 1 },
    { type := .button, label := manageChannelInstallationLabel, marginTop := 1 },
    { type := .button, label := extrasLabel, marginTop := 1 },
    { type := .select
      label := myStuffLabel
      options := some myStuffOptions
      selectedOption := some .myStuff
      initialSelectedOption := settings.myStuff
      optionCount := myStuffOptions.length
      marginTop := 1 },
    { type := .select
      label := savegameLabel
      options := some savegameOptions
      selectedOption := some .separateSavegame
      initialSelectedOption := settings.separateSavegame
      optionCount := savegameOptions.length },
    { type := .select
      label := autoupdateLabel
      options := some autoupdateOptions
      selectedOption := some .autoUpdate
      initialSelectedOption := settings.autoUpdate
      optionCount := autoupdateOptions.length },
    { type := .button, label := saveLabel, marginTop := 1 },
    { type := .button, label := exitLabel, marginTop := 1 }]

/-- `rrc_settings_display` up to its loop, for the error of `fopen` or the tree of the XML,
which is null where it cannot be parsed, and for what the library finds from a place. -/
def Menu.init (findFirst : XmlPlace → CStr → Option XmlPlace)
    (xmlFile : Except ℕ (Option XmlNode)) (settings : RrcSettingsfile) :
    Except (Stdio.Stop RrcResultError) Menu :=
  match xmlFile with
  | .error eno =>
    .error (.error
      (rrcResultCreateErrorErrno eno "Failed to open /RetroRewind6/xml/RetroRewind6.xml"))
  | .ok none => .error .halt
  | .ok (some xmlTop) =>
    match xmlTop.place.findNamed (lit "options") with
    | none => .error .halt -- `RRC_ASSERT`
    | some xmlOptions => do
      let (myStuffOptions, myStuff) ←
        xmlFindOptionChoices findFirst xmlTop.place xmlOptions (lit "My Stuff") settings.myStuff
      let settings := { settings with myStuff := myStuff }
      let (savegameOptions, separateSavegame) ←
        xmlFindOptionChoices findFirst xmlTop.place xmlOptions (lit "Seperate Savegame")
          settings.separateSavegame
      let settings := { settings with separateSavegame := separateSavegame }
      let entries := settingsEntries settings myStuffOptions savegameOptions
      if ∀ entry ∈ entries, entry.IsValid then
        .ok
          { storedSettings := settings
            entries := entries
            maxLabelLen := entries.foldl (fun len entry => max len entry.label.len) 0
            selectedIdx := 0
            statusMessage := lit ""
            statusMessageRow := 0
            statusMessageCol := 0 }
      else .error .halt

/-! ### Printing -/

/-- A text, and where on the console it begins. -/
structure Printed where
  row : ℕ
  col : ℕ
  text : List UInt8

/-- The loop over the entries, from the one with index `i` on, which is to go to `row`. -/
def Menu.drawEntries (menu : Menu) (alert : Option CStr) :
    ℕ → ℕ → List SettingsEntry → Option (List Printed × Bool)
  | _, _, [] => some ([], false)
  | i, row, entry :: entries => do
    let row := row + entry.marginTop
    let (text, unsaved) ←
      entry.draw menu.storedSettings menu.maxLabelLen alert (menu.selectedIdx = i)
    let (printed, unsaved') ← menu.drawEntries alert (i + 1) (row + 1) entries
    some (⟨row, 0, text⟩ :: printed, unsaved || unsaved')

/-- What the outer loop comes to before it waits for a button. -/
structure Drawn where
  printed : List Printed
  hasUnsavedChanges : Bool
  menu : Menu

/-- `RRC_SETTINGS_ROW_START`. -/
def rrcSettingsRowStart : ℕ := 1

/-- The outer loop up to the inner one, on a console with so many rows; `alert` is the color
of an alert of the server. -/
def Menu.draw (menu : Menu) (rows : ℕ) (alert : Option CStr) : Option Drawn := do
  let (printed, hasUnsavedChanges) ← menu.drawEntries alert 0 rrcSettingsRowStart menu.entries
  let menu :=
    if hasUnsavedChanges ∧ menu.statusMessage = changesSavedStatus then
      { menu with statusMessage := lit "" }
    else menu
  some
    { printed := printed ++
        [⟨menu.statusMessageRow, menu.statusMessageCol, menu.statusMessage.bytes⟩,
          ⟨rows - 2, cursorIcon.len, (lit "Use the D-Pad to navigate.").bytes⟩]
      hasUnsavedChanges := hasUnsavedChanges
      menu := menu }

/-! ### Presses -/

/-- What `rrc_pad_home_pressed` and the like find in one `struct pad_state`. -/
structure Pad where
  home : Bool
  down : Bool
  up : Bool
  left : Bool
  right : Bool
  a : Bool

/-- What the calls made on A return: whether the user wants to save, the error of
`rrc_settingsfile_store`, and the result of `rrc_update_do_updates` with the number of
updates and whether there were any. -/
structure Answers where
  save : Bool
  store : Option RrcResultError
  updates : Except RrcResultError (ℤ × Bool)

/-- How a turn of the inner loop ends: with a `break`, by waiting on, by leaving, after a
call of `rrc_settingsfile_store` or without one, or where the source has no meaning. -/
inductive Poll
  | again (menu : Menu)
  | wait
  | leave (result : RrcSettingsResult) (stores : Bool)
  | undefined

namespace Menu

/-- A status message right of the button with this label. -/
def setStatusPosition (menu : Menu) (row : ℕ) (label : CStr) : Menu :=
  { menu with
    statusMessageRow := row
    statusMessageCol := cursorIcon.len + label.len + 3 }

/-- A on the button that saves. -/
def save (menu : Menu) (answers : Answers) : Menu :=
  let menu := menu.setStatusPosition 13 saveLabel
  match answers.store with
  | some _ => { menu with statusMessage := changesNotSavedStatus }
  | none =>
    { menu with
      entries := menu.entries.map fun entry => entry.markSaved menu.storedSettings
      statusMessage := changesSavedStatus }

/-- A on the button that updates. -/
def performUpdates (menu : Menu) (answers : Answers) : Poll :=
  match answers.updates with
  | .error _ => .again menu
  | .ok (updateCount, updated) =>
    if updateCount = 0 then
      .again
        { menu.setStatusPosition 3 performUpdatesLabel with
          statusMessage :=
            lit (rrcConAnsiFgBrightYellow ++ "No updates available." ++ rrcConAnsiClr) }
    else if updated then .leave .exit false
    else .again (menu.setStatusPosition 3 performUpdatesLabel)

/-- A on the button for the installation of the channel. -/
def manageChannelInstallation (menu : Menu) : Menu :=
  { menu.setStatusPosition 5 manageChannelInstallationLabel with
    statusMessage := lit (rrcConAnsiFgBrightMagenta ++ "Oops" ++ rrcConAnsiClr) }

/-- A on an entry.  The labels that are compared as pointers all have different texts. -/
def pressA (menu : Menu) (hasUnsavedChanges : Bool) (entry : SettingsEntry) (answers : Answers) :
    Poll :=
  if entry.label = launchLabel then .leave .launch (hasUnsavedChanges && answers.save)
  else if entry.label = saveLabel then .again (menu.save answers)
  else if entry.label = performUpdatesLabel then menu.performUpdates answers
  else if entry.label = manageChannelInstallationLabel then .again menu.manageChannelInstallation
  else if entry.label = extrasLabel then .again menu
  else if entry.label = exitLabel then .leave .exit (hasUnsavedChanges && answers.save)
  else .wait

/-- Down: the row below, or the first one. -/
def down (menu : Menu) : Menu :=
  { menu with
    selectedIdx :=
      if menu.selectedIdx < menu.entries.length - 1 then menu.selectedIdx + 1 else 0 }

/-- Up: the row above, or the last one. -/
def up (menu : Menu) : Menu :=
  { menu with
    selectedIdx :=
      if menu.selectedIdx > 0 then menu.selectedIdx - 1 else menu.entries.length - 1 }

/-- Left or right, for what it does to the settings. -/
def turn (menu : Menu) : Option RrcSettingsfile → Poll
  | none => .undefined
  | some settings => .again { menu with storedSettings := settings }

/-- A turn of the inner loop. -/
def poll (menu : Menu) (hasUnsavedChanges : Bool) (pad : Pad) (answers : Answers) : Poll :=
  if pad.home then .leave .exit false
  else if pad.down then .again menu.down
  else if pad.up then .again menu.up
  else
    match menu.entries[menu.selectedIdx]? with
    | none => .undefined
    | some entry =>
      if pad.left ∧ entry.type = .select then menu.turn (entry.left menu.storedSettings)
      else if pad.right ∧ entry.type = .select then menu.turn (entry.right menu.storedSettings)
      else if pad.a then menu.pressA hasUnsavedChanges entry answers
      else .wait

/-- The menu at the head of the outer loop, after any number of turns. -/
inductive Reachable (start : Menu) : Menu → Prop
  | init : Reachable start start
  | step {menu menu' : Menu} {rows : ℕ} {alert : Option CStr} {drawn : Drawn} {pad : Pad}
      {answers : Answers} (hmenu : Reachable start menu) (hdraw : menu.draw rows alert = some drawn)
      (hpoll : drawn.menu.poll drawn.hasUnsavedChanges pad answers = .again menu') :
      Reachable start menu'

end Menu

end RrLauncher

import AcharyaOS.Config.Settings
import AcharyaOS.Desktop.Explorer

/-!
# The settings application

The functions of `gui/settings.c`, `gui/settings_data.c` and `gui/settings_ui.c`, and what they
show: the view is larger than the screen, so of all it draws only the bars of the sidebar and
the marks of the items that have a value are seen.
-/

namespace AcharyaOS.Desktop

open Foundation Foundation.Run Framebuffer Window Config

/-! ## The data -/

/-- `settings_panel_id_t`. -/
inductive SettingsPanelId
  | display | audio | network | users | about
  deriving DecidableEq

def SettingsPanelId.ofNat? : Nat → Option SettingsPanelId
  | 0 => some .display
  | 1 => some .audio
  | 2 => some .network
  | 3 => some .users
  | 4 => some .about
  | _ => none

/-- `settings_item_t`, with the value as text. -/
structure SettingsItem where
  key : CString
  value : List UInt8

/-- `settings_panel_t`, with the items that are in use. -/
structure SettingsPanel where
  id : SettingsPanelId
  title : List UInt8
  items : List SettingsItem

/-- The static variables of `settings_data.c`. -/
structure SettingsData where
  panels : SettingsPanelId → SettingsPanel
  activePanel : SettingsPanelId

def settingsKeys : SettingsPanelId → List String
  | .display => ["prompt", "editor_tabwidth", "loglevel"]
  | .audio => ["audio_volume", "audio_mute"]
  | .network => ["hostname", "dns_server"]
  | .users => ["default_user", "guest_login"]
  | .about => ["os_name", "os_version"]

def settingsTitle : SettingsPanelId → String
  | .display => "Display"
  | .audio => "Audio"
  | .network => "Network"
  | .users => "Users"
  | .about => "About"

/-- The panels of `settings_data_apply_defaults`, without values. -/
def settingsDefaults (id : SettingsPanelId) : SettingsPanel where
  id := id
  title := asciiText (settingsTitle id)
  items := (settingsKeys id).map fun key => ⟨.read (asciiText key), []⟩

/-- The value of an item is read through an array of 96 bytes. -/
def settingsReadItem (t : ConfigTable) (item : SettingsItem) : SettingsItem :=
  { item with
    value :=
      match configGet t (some item.key) (some (List.replicate configValueMax 0)) with
      | some value => (cText value).take (configValueMax - 1)
      | none => [] }

def settingsDataRefreshFromConfig (t : ConfigTable) (d : SettingsData) : SettingsData :=
  { d with
    panels := fun id =>
      { d.panels id with items := (d.panels id).items.map (settingsReadItem t) } }

def settingsDataApplyDefaults (t : ConfigTable) (d : SettingsData) : SettingsData :=
  settingsDataRefreshFromConfig t { d with panels := settingsDefaults }

def settingsDataInit (t : ConfigTable) : SettingsData :=
  settingsDataApplyDefaults t ⟨settingsDefaults, .display⟩

def settingsDataSetActive (d : SettingsData) (panel : UInt32) : SettingsData :=
  match SettingsPanelId.ofNat? panel.toNat with
  | some id => { d with activePanel := id }
  | none => d

/-! ## The application -/

/-- `settings_stats_t`. -/
structure SettingsStats where
  ready : Bool
  activePanel : SettingsPanelId
  panelCount : UInt64
  renderCount : UInt32

/-- The static variables of `settings.c` and of `settings_data.c`. -/
structure SettingsApp where
  data : SettingsData
  stats : SettingsStats
  isReady : Bool

def settingsRefreshStats (s : SettingsApp) : SettingsApp :=
  { s with
    stats :=
      { s.stats with ready := s.isReady, activePanel := s.data.activePanel, panelCount := 5 } }

def settingsRefreshFromConfig (t : ConfigTable) (s : SettingsApp) : SettingsApp :=
  settingsRefreshStats { s with data := settingsDataRefreshFromConfig t s.data }

def settingsApplyDefaults (t : ConfigTable) (s : SettingsApp) : SettingsApp :=
  settingsRefreshStats { s with data := settingsDataApplyDefaults t s.data }

def settingsInit (t : ConfigTable) : SettingsApp :=
  settingsRefreshStats
    (settingsRefreshFromConfig t ⟨settingsDataInit t, ⟨false, .display, 0, 0⟩, true⟩)

def settingsShowPanel (s : SettingsApp) (panel : UInt32) : SettingsApp :=
  settingsRefreshStats { s with data := settingsDataSetActive s.data panel }

def settingsBg : UInt32 := 0xFF112233

def settingsSidebar : UInt32 := 0xFF1E2A38

def settingsPanelBg : UInt32 := 0xFF243447

def settingsBorder : UInt32 := 0xFF0B1320

def settingsAccent : UInt32 := 0xFF4C78A8

def settingsHilite : UInt32 := 0xFFF4A261

def settingsTextBox : UInt32 := 0xFFE9ECEF

def settingsUiDrawFrame (x y w h : UInt32) (fb : FbState) : Option FbState := do
  let fb ← fill fb x y w h settingsBorder
  if w > 2 && h > 2 then fill fb (x + 1) (y + 1) (w - 2) (h - 2) settingsBg else return fb

def settingsUiDrawSidebar (x y w h : UInt32) (fb : FbState) : Option FbState := do
  let barW := if w > 12 then w - 12 else w
  let fb ← fill fb x y w h settingsSidebar
  let fb ← fill fb (x + 6) (y + 8) barW 18 settingsAccent
  let fb ← fill fb (x + 6) (y + 34) barW 18 settingsHilite
  let fb ← fill fb (x + 6) (y + 60) barW 18 settingsAccent
  let fb ← fill fb (x + 6) (y + 86) barW 18 settingsHilite
  fill fb (x + 6) (y + 112) barW 18 settingsAccent

/-- The loop of `settings_ui_draw_panel`, from item `i` on. -/
def settingsUiDrawItems (x y w : UInt32) :
    List SettingsItem → UInt32 → FbState → Option FbState
  | [], _, fb => some fb
  | item :: items, i, fb => do
      let rowY := y + 16 + i * 24
      let fb ← fill fb (x + 16) rowY (if w > 32 then w - 32 else w) 16 settingsTextBox
      if item.value != [] then
        let fb ← fill fb (x + 20) (rowY + 4) 8 8 settingsAccent
        settingsUiDrawItems x y w items (i + 1) fb
      else settingsUiDrawItems x y w items (i + 1) fb

def settingsUiDrawPanel (panel : SettingsPanel) (x y w h : UInt32) (fb : FbState) :
    Option FbState := do
  let fb ← fill fb x y w h settingsPanelBg
  settingsUiDrawItems x y w panel.items 0 fb

def settingsViewX : UInt32 := 24

def settingsViewY : UInt32 := 24

def settingsViewW : UInt32 := 720

def settingsViewH : UInt32 := 500

def settingsSidebarW : UInt32 := 180

def settingsPaint (panel : SettingsPanel) (fb : FbState) : Option FbState := do
  let fb ← settingsUiDrawFrame settingsViewX settingsViewY settingsViewW settingsViewH fb
  let fb ← settingsUiDrawSidebar (settingsViewX + 1) (settingsViewY + 1) settingsSidebarW
    (settingsViewH - 2) fb
  settingsUiDrawPanel panel (settingsViewX + settingsSidebarW + 1) (settingsViewY + 1)
    (settingsViewW - settingsSidebarW - 2) (settingsViewH - 2) fb

/-- The counts that `settings_render` leaves. -/
def settingsRendered (s : SettingsApp) : SettingsApp :=
  settingsRefreshStats { s with stats := { s.stats with renderCount := s.stats.renderCount + 1 } }

def settingsRender (s : SettingsApp) (fb : FbState) : Option (SettingsApp × FbState) :=
  if !s.isReady || !fbReady fb then some (s, fb)
  else
    (settingsPaint (s.data.panels s.data.activePanel) fb).map fun fb => (settingsRendered s, fb)

/-! ## The picture -/

/-- The bars of the sidebar. -/
def barsLayer : Layer Point UInt32 :=
  .stack [box 31 33 168 18 0xFF4C78A8, box 31 59 168 18 0xFFF4A261, box 31 85 168 18 0xFF4C78A8,
    box 31 111 168 18 0xFFF4A261, box 31 137 168 18 0xFF4C78A8]

/-- The marks of the items that have a value, from row `k` on. -/
def marksLayer : Nat → List (List UInt8) → Layer Point UInt32
  | _, [] => .clear
  | k, value :: values =>
      (marksLayer (k + 1) values).above
        (if value = [] then .clear else box 225 (45 + k * 24) 8 8 0xFF4C78A8)

/-! ## Drawing -/

theorem fill_outside (x y width height : UInt32) {a b : Nat} (hx : x.toNat = a) (hy : y.toNat = b)
    (hout : fbWidth < a + width.toNat ∨ fbHeight < b + height.toNat) (color : UInt32) :
    Draws .clear fun fb => fill fb x y width height color := by
  rw [← rect_of_not_inside (x := x) (y := y) (h := ?_)]
  · exact fill_draws x y width height color
  · rintro ⟨-, -, hright, hbottom⟩
    omega

theorem settingsUiDrawItems_draws (items : List SettingsItem) :
    ∀ k, k + items.length ≤ 8 → Draws (marksLayer k (items.map SettingsItem.value))
      (settingsUiDrawItems 205 25 538 items (.ofNat k)) := by
  induction items with
  | nil => exact fun _ _ => Paints.nothing
  | cons item items ih =>
    intro k hk
    rw [List.length_cons] at hk
    obtain ⟨row, hrow⟩ : ∃ row : UInt32, row = 25 + 16 + UInt32.ofNat k * 24 := ⟨_, rfl⟩
    have htextRow : row.toNat = 41 + k * 24 := by
      rw [hrow, UInt32.toNat_add, UInt32.toNat_mul, UInt32.toNat_ofNat']
      show (41 + k % 2 ^ 32 * 24 % 2 ^ 32) % 2 ^ 32 = _
      omega
    have hmarkRow : (row + 4).toNat = 45 + k * 24 := by
      rw [UInt32.toNat_add, htextRow]
      show (41 + k * 24 + 4) % 2 ^ 32 = _
      omega
    have htext := fill_outside 221 row 506 16 rfl htextRow (.inl (by decide)) settingsTextBox
    have hmark : Draws (box 225 (45 + k * 24) 8 8 _) _ :=
      fill_box 225 (row + 4) 8 8 rfl hmarkRow (by decide) settingsAccent
    have hrest := ih (k + 1) (by omega)
    have hitem := hmark.ite_bind (p := (item.value != []) = true) hrest
    have hnext : (.ofNat k : UInt32) + 1 = .ofNat (k + 1) := (UInt32.ofNat_add k 1).symm
    refine (htext.bind hitem).congr ?_ fun fb => ?_
    · rw [Layer.above_clear, List.map_cons, marksLayer]
      congr 1
      by_cases hvalue : item.value = []
      · rw [if_pos hvalue, if_neg (by simp [hvalue])]
      · rw [if_neg hvalue, if_pos (by simp [hvalue])]
        rfl
    · rw [settingsUiDrawItems, ← hrow, hnext]
      rfl

/-- The frame does not fit on the screen. -/
theorem settingsUiDrawFrame_draws : Draws .clear (settingsUiDrawFrame 24 24 720 500) := by
  have hborder := fill_outside 24 24 720 500 rfl rfl (.inl (by decide)) settingsBorder
  have hinner := fill_outside 25 25 718 498 rfl rfl (.inl (by decide)) settingsBg
  exact (hborder.bind hinner).congr rfl fun fb => rfl

theorem settingsUiDrawSidebar_draws : Draws barsLayer (settingsUiDrawSidebar 25 25 180 498) := by
  have hside := fill_outside 25 25 180 498 rfl rfl (.inr (by decide)) settingsSidebar
  have hbar : ∀ (y color : UInt32), Draws (box 31 y.toNat 168 18 color) fun fb =>
      fill fb 31 y 168 18 color :=
    fun y color => fill_box 31 y 168 18 rfl rfl (by decide) color
  have hbars := (hbar 33 settingsAccent).bind ((hbar 59 settingsHilite).bind
    ((hbar 85 settingsAccent).bind ((hbar 111 settingsHilite).bind (hbar 137 settingsAccent))))
  exact (hside.bind hbars).congr (Layer.above_clear _) fun fb => rfl

theorem settingsPaint_draws {panel : SettingsPanel} (hitems : panel.items.length ≤ 8) :
    Draws ((marksLayer 0 (panel.items.map SettingsItem.value)).above barsLayer)
      (settingsPaint panel) := by
  have hpanel := fill_outside 205 25 538 498 rfl rfl (.inl (by decide)) settingsPanelBg
  have hall := settingsUiDrawFrame_draws.bind (settingsUiDrawSidebar_draws.bind
    (hpanel.bind (settingsUiDrawItems_draws panel.items 0 (by omega))))
  refine hall.congr ?_ fun fb => rfl
  rw [Layer.above_clear, Layer.above_clear]

/-! ## Runs -/

inductive SettingsCall
  | showPanel (panel : UInt32)
  | refreshFromConfig (t : ConfigTable)
  | applyDefaults (t : ConfigTable)
  | rendered

def settingsStep (s : SettingsApp) : SettingsCall → SettingsApp
  | .showPanel panel => settingsShowPanel s panel
  | .refreshFromConfig t => settingsRefreshFromConfig t s
  | .applyDefaults t => settingsApplyDefaults t s
  | .rendered => settingsRendered s

/-- The settings that were read last, and the panel that was asked for last. -/
structure SettingsView where
  config : ConfigTable
  panel : SettingsPanelId

def viewStep (v : SettingsView) : SettingsCall → SettingsView
  | .showPanel panel => { v with panel := (SettingsPanelId.ofNat? panel.toNat).getD v.panel }
  | .refreshFromConfig t => { v with config := t }
  | .applyDefaults t => { v with config := t }
  | .rendered => v

/-- The values of the panel, empty for keys that are not set. -/
def SettingsView.values (v : SettingsView) : List (List UInt8) :=
  (settingsKeys v.panel).map fun key => (configLookup v.config (asciiText key)).getD []

/-- The application shows the view. -/
structure Views (s : SettingsApp) (v : SettingsView) : Prop where
  ready : s.isReady = true
  active : s.data.activePanel = v.panel
  panels : ∀ id, s.data.panels id =
    { settingsDefaults id with items := (settingsDefaults id).items.map (settingsReadItem v.config) }

theorem Views.refresh {s : SettingsApp} {v : SettingsView} (h : Views s v) (t : ConfigTable) :
    Views (settingsRefreshFromConfig t s) { v with config := t } where
  ready := h.ready
  active := h.active
  panels := fun id => by
    show { s.data.panels id with items := (s.data.panels id).items.map (settingsReadItem t) } = _
    rw [h.panels id, List.map_map]
    rfl

theorem settingsDataSetActive_eq (d : SettingsData) (panel : UInt32) :
    settingsDataSetActive d panel =
      { d with activePanel := (SettingsPanelId.ofNat? panel.toNat).getD d.activePanel } := by
  unfold settingsDataSetActive
  cases SettingsPanelId.ofNat? panel.toNat <;> rfl

theorem Views.step {s : SettingsApp} {v : SettingsView} (h : Views s v) (c : SettingsCall) :
    Views (settingsStep s c) (viewStep v c) := by
  cases c with
  | showPanel panel =>
      have hactive := congrArg SettingsData.activePanel (settingsDataSetActive_eq s.data panel)
      have hpanels := congrArg SettingsData.panels (settingsDataSetActive_eq s.data panel)
      refine ⟨h.ready, ?_, fun id => (congrFun hpanels id).trans (h.panels id)⟩
      rw [h.active] at hactive
      exact hactive
  | refreshFromConfig t => exact h.refresh t
  | applyDefaults t => exact ⟨h.ready, h.active, fun _ => rfl⟩
  | rendered => exact ⟨h.ready, h.active, h.panels⟩

theorem views_settingsInit (t : ConfigTable) : Views (settingsInit t) ⟨t, .display⟩ := by
  have hinit : Views ⟨settingsDataInit t, ⟨false, .display, 0, 0⟩, true⟩ ⟨t, .display⟩ :=
    ⟨rfl, rfl, fun _ => rfl⟩
  have hread := hinit.refresh t
  exact ⟨hread.ready, hread.active, hread.panels⟩

theorem zero_notMem_settingsKeys (id : SettingsPanelId) :
    ∀ key ∈ settingsKeys id, 0 ∉ asciiText key := by
  cases id <;> decide

theorem value_settingsReadItem (t : ConfigTable) (item : SettingsItem) :
    (settingsReadItem t item).value = (configLookup t item.key.bytes).getD [] := by
  have hne : List.replicate configValueMax (0 : UInt8) ≠ [] := by simp
  unfold settingsReadItem
  dsimp only
  rw [configGet_eq t item.key hne]
  cases hlookup : configLookup t item.key.bytes with
  | none => rfl
  | some value =>
      obtain ⟨i, -, rfl⟩ := Option.map_eq_some_iff.mp hlookup
      have hlt := CField.length_text_lt (t i).value
      have hle : (t i).value.text.length ≤ configValueMax - 1 := Nat.le_sub_one_of_lt hlt
      rw [Option.map_some, Option.getD_some]
      dsimp only
      rw [cText_boundedCopy _ _ (CField.zero_notMem_text _), List.length_replicate,
        List.take_of_length_le hle, List.take_of_length_le hle]

theorem Views.values_eq {s : SettingsApp} {v : SettingsView} (h : Views s v) :
    (s.data.panels s.data.activePanel).items.map SettingsItem.value = v.values := by
  rw [h.panels, h.active]
  unfold SettingsView.values settingsDefaults
  rw [List.map_map, List.map_map]
  refine List.map_congr_left fun key hkey => ?_
  show (settingsReadItem v.config ⟨.read (asciiText key), []⟩).value = _
  rw [value_settingsReadItem, CString.read_bytes (zero_notMem_settingsKeys v.panel key hkey)]

/-- After every sequence of calls the settings application draws over the screen its bars and a
mark for every setting of the panel asked for last that had a value when the settings were read
last. -/
theorem settings_shows (guiCalls : List GuiCall) (t : ConfigTable) (calls : List SettingsCall) :
    ∃ g, guiRun guiCalls = some g ∧ ∃ fb,
      settingsRender (runSteps settingsStep (settingsInit t) calls) g.fb =
        some (settingsRendered (runSteps settingsStep (settingsInit t) calls), fb) ∧
      ∀ p, fb.px p = ((marksLayer 0 (runSteps viewStep ⟨t, .display⟩ calls).values).above
        barsLayer).onto g.fb.px p := by
  obtain ⟨g, hrun, hg⟩ := running_guiRun guiCalls
  have hviews := sim_runSteps (R := Views) (fun _ _ c h => h.step c) calls _ _
    (views_settingsInit t)
  generalize runSteps settingsStep (settingsInit t) calls = s at hviews
  generalize runSteps viewStep ⟨t, .display⟩ calls = v at hviews
  have hvalues := hviews.values_eq
  have hlength : (s.data.panels s.data.activePanel).items.length ≤ 8 := by
    have hlen := congrArg List.length hvalues
    rw [List.length_map, SettingsView.values, List.length_map] at hlen
    rw [hlen]
    cases v.panel <;> decide
  obtain ⟨fb, hpaint, -, hpx⟩ := settingsPaint_draws hlength g.fb hg.screen
  refine ⟨g, hrun, fb, ?_, fun p => ?_⟩
  · have hguard : ¬ (!s.isReady || !fbReady g.fb) = true := by
      unfold fbReady
      rw [hviews.ready, hg.screen.ready]
      decide
    unfold settingsRender
    rw [if_neg hguard, hpaint, Option.map_some]
  · rw [hpx, hvalues]

end AcharyaOS.Desktop

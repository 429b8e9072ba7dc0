import AcharyaOS.Desktop.Picture
import AcharyaOS.Fs.Code

/-!
# The file explorer

The functions of `gui/files.c`, and what they show: of all files the first two as tiles, and of
the next two the dots of their tiles.
-/

namespace AcharyaOS.Desktop

open Foundation Framebuffer Window Fs

/-! ## The code -/

def filesBg : UInt32 := 0xFF172A3A

def filesPanelBg : UInt32 := 0xFF1F3245

def filesTileBg : UInt32 := 0xFF2A3E52

def filesTileSel : UInt32 := 0xFFF4A261

def filesTileHead : UInt32 := 0xFF4C78A8

def filesStatusBg : UInt32 := 0xFF10151F

abbrev filesMaxShow : Nat := 16

def filesMargin : UInt32 := 20

def filesTileW : UInt32 := 92

def filesTileH : UInt32 := 76

def filesTileGap : UInt32 := 14

def filesHeaderH : UInt32 := 28

def filesStatusH : UInt32 := 24

/-- `files_stats_t`. -/
structure FilesStats where
  ready : Bool
  renderCount : UInt32
  fileCount : UInt64
  selectedIndex : UInt64

/-- The static variables of `files.c`. -/
structure FilesState where
  stats : FilesStats
  isReady : Bool

def filesDrawTile (fb : FbState) (x y color : UInt32) (selected : Bool) : Option FbState := do
  let frame := if selected then filesTileSel else filesTileHead
  let fb ← fill fb x y filesTileW filesTileH frame
  let fb ← fill fb (x + 4) (y + 4) (filesTileW - 8) (filesTileH - 8) color
  fill fb (x + 26) (y + 20) 20 20 0xFFE9ECEF

def filesReady (s : FilesState) (fs : FsState) : Bool := s.isReady && fsMounted fs

/-- The loop of `files_render`, from file `i` on. -/
def filesDrawTiles (screenW : UInt32) (selected : UInt64) :
    List FsFileEntry → UInt64 → UInt32 → UInt32 → FbState → Option FbState
  | [], _, _, _, fb => some fb
  | file :: files, i, x, y, fb => do
      let fb ← filesDrawTile fb x y (if file.used != 0 then filesTileBg else filesStatusBg)
        (i == selected)
      let x := x + (filesTileW + filesTileGap)
      if x + filesTileW > screenW - filesMargin then
        filesDrawTiles screenW selected files (i + 1) (filesMargin + filesTileGap)
          (y + (filesTileH + filesTileGap)) fb
      else filesDrawTiles screenW selected files (i + 1) x y fb

/-- The files that `files_render` goes through. -/
def filesShown (fs : FsState) : List FsFileEntry := (fsListFiles fs fsFilesMax).take filesMaxShow

def filesPaint (info : FbInfo) (files : List FsFileEntry) (selected : UInt64) (fb : FbState) :
    Option FbState := do
  let fb ← fill fb 0 0 info.width info.height filesBg
  let fb ← fill fb filesMargin filesMargin (info.width - filesMargin * 2)
    (info.height - filesMargin * 2) filesPanelBg
  let fb ← fill fb filesMargin filesMargin (info.width - filesMargin * 2) filesHeaderH filesTileHead
  let fb ← filesDrawTiles info.width selected files 0 (filesMargin + filesTileGap)
    (filesMargin + filesHeaderH + filesTileGap) fb
  fill fb filesMargin (info.height - filesMargin - filesStatusH) (info.width - filesMargin * 2)
    filesStatusH filesStatusBg

/-- The counts that `files_render` leaves. -/
def FilesState.rendered (s : FilesState) (count : Nat) : FilesState :=
  { s with
    stats := { s.stats with fileCount := .ofNat count, renderCount := s.stats.renderCount + 1 } }

def filesRender (s : FilesState) (fs : FsState) (fb : FbState) : Option (FilesState × FbState) :=
  if !filesReady s fs then some (s, fb)
  else
    let files := filesShown fs
    (filesPaint fb.info files s.stats.selectedIndex fb).map fun fb => (s.rendered files.length, fb)

/-! ## The picture -/

/-- The corner of a tile. -/
def tileX (k : Nat) : Nat := 34 + k % 2 * 106

def tileY (k : Nat) : Nat := 62 + k / 2 * 90

/-- The tiles of the first row have room on the screen, of the second row the dots. -/
def tileLayer (k : Nat) (file : FsFileEntry) (selected : Bool) : Layer Point UInt32 :=
  let dot := box (tileX k + 26) (tileY k + 20) 20 20 0xFFE9ECEF
  if k / 2 = 0 then
    dot.above ((box (tileX k + 4) (tileY k + 4) 84 68
      (if file.used ≠ 0 then 0xFF2A3E52 else 0xFF10151F)).above
        (box (tileX k) (tileY k) 92 76 (if selected then 0xFFF4A261 else 0xFF4C78A8)))
  else if k / 2 = 1 then dot
  else .clear

/-- The tiles from number `k` on. -/
def tilesLayer (selected : Nat) : Nat → List FsFileEntry → Layer Point UInt32
  | _, [] => .clear
  | k, file :: files =>
      (tilesLayer selected (k + 1) files).above (tileLayer k file (k = selected))

/-- The panel with its header, the tiles and the status bar. -/
def explorerPicture (files : List FsFileEntry) (selected : Nat) : Point → UInt32 :=
  Layer.overAll [box 20 20 280 160 0xFF1F3245, box 20 20 280 28 0xFF4C78A8,
    tilesLayer selected 0 files, box 20 156 280 24 0xFF10151F] fun _ => 0xFF172A3A

/-! ## Drawing -/

theorem box_of_outside {a b w h : Nat} (hout : ¬ (a + w ≤ fbWidth ∧ b + h ≤ fbHeight))
    (color : UInt32) : box a b w h color = .clear := by
  funext p
  exact Layer.region_apply_of_neg (fun hp => hout hp.1) _

theorem box_all (color : UInt32) : box 0 0 320 200 color = fun _ => some color := by
  funext p
  have hx := p.1.isLt
  have hy := p.2.isLt
  refine Layer.region_apply_of_pos ⟨by decide, ?_⟩ _
  unfold Between
  unfold fbWidth at hx
  unfold fbHeight at hy
  omega

theorem fill_box (x y width height : UInt32) {a b : Nat} (hx : x.toNat = a) (hy : y.toNat = b)
    (hsize : 0 < width.toNat ∧ 0 < height.toNat) (color : UInt32) :
    Draws (box a b width.toNat height.toNat color) fun fb => fill fb x y width height color := by
  rw [← rect_eq_box hx hy rfl rfl hsize]
  exact fill_draws x y width height color

theorem toNat_tile {a : Nat} (ha : a < 1000) (offset : UInt32) (hoffset : offset.toNat < 1000) :
    (UInt32.ofNat a + offset).toNat = a + offset.toNat := by
  rw [UInt32.toNat_add, UInt32.toNat_ofNat']
  omega

theorem filesDrawTile_draws {k : Nat} (hk : k < 16) (file : FsFileEntry) (selected : Bool) :
    Draws (tileLayer k file selected) fun fb =>
      filesDrawTile fb (.ofNat (tileX k)) (.ofNat (tileY k))
        (if file.used != 0 then filesTileBg else filesStatusBg) selected := by
  have hx : tileX k < 1000 := by
    unfold tileX
    omega
  have hy : tileY k < 1000 := by
    unfold tileY
    omega
  have hframe : Draws (box (tileX k) (tileY k) 92 76 _) _ := fill_box _ _ filesTileW filesTileH
    (UInt32.toNat_ofNat_of_lt' (by omega : tileX k < 2 ^ 32))
    (UInt32.toNat_ofNat_of_lt' (by omega : tileY k < 2 ^ 32)) (by decide)
    (if selected then filesTileSel else filesTileHead)
  have hface : Draws (box (tileX k + 4) (tileY k + 4) 84 68 _) _ :=
    fill_box _ _ (filesTileW - 8) (filesTileH - 8) (toNat_tile hx 4 (by decide))
      (toNat_tile hy 4 (by decide)) (by decide)
      (if file.used != 0 then filesTileBg else filesStatusBg)
  have hdot : Draws (box (tileX k + 26) (tileY k + 20) 20 20 _) _ :=
    fill_box _ _ 20 20 (toNat_tile hx 26 (by decide)) (toNat_tile hy 20 (by decide)) (by decide)
      0xFFE9ECEF
  unfold tileLayer
  by_cases hfirst : k / 2 = 0
  · have hused : (if file.used != 0 then filesTileBg else filesStatusBg) =
        if file.used ≠ 0 then 0xFF2A3E52 else 0xFF10151F := if_congr bne_iff_ne rfl rfl
    refine (hframe.bind (hface.bind hdot)).congr ?_ fun _ => rfl
    rw [if_pos hfirst, hused, Layer.above_assoc]
    rfl
  · have hlow : 138 < tileY k := by
      unfold tileY
      omega
    rw [box_of_outside (by unfold fbHeight; omega)] at hframe hface
    by_cases hsecond : k / 2 = 1
    · refine (hframe.bind (hface.bind hdot)).congr ?_ fun _ => rfl
      rw [if_neg hfirst, if_pos hsecond, Layer.above_clear, Layer.above_clear]
    · have hlower : 200 < tileY k := by
        unfold tileY
        omega
      rw [box_of_outside (by unfold fbHeight; omega)] at hdot
      refine (hframe.bind (hface.bind hdot)).congr ?_ fun _ => rfl
      rw [if_neg hfirst, if_neg hsecond, Layer.above_clear, Layer.above_clear]

theorem filesDrawTiles_draws (selected : UInt64) (files : List FsFileEntry) :
    ∀ k, k + files.length ≤ 16 → Draws (tilesLayer selected.toNat k files)
      (filesDrawTiles 320 selected files (.ofNat k) (.ofNat (tileX k)) (.ofNat (tileY k))) := by
  induction files with
  | nil => exact fun _ _ => Paints.nothing
  | cons file files ih =>
    intro k hk
    rw [List.length_cons] at hk
    have hhere := filesDrawTile_draws (by omega : k < 16) file ((UInt64.ofNat k) == selected)
    have hselected : ((UInt64.ofNat k) == selected) = decide (k = selected.toNat) := by
      rw [Bool.eq_iff_iff, beq_iff_eq, decide_eq_true_iff, ← UInt64.toNat_inj,
        UInt64.toNat_ofNat_of_lt' (by omega : k < 2 ^ 64)]
    have hnext : (.ofNat k : UInt64) + 1 = .ofNat (k + 1) := (UInt64.ofNat_add k 1).symm
    rw [hselected] at hhere
    refine (hhere.bind (ih (k + 1) (by omega))).congr rfl fun fb => ?_
    rw [filesDrawTiles, hselected, hnext]
    refine congrArg (Option.bind _) (funext fun fb => ?_)
    rcases Nat.mod_two_eq_zero_or_one k with heven | hodd
    · have hx : tileX k = 34 := by
        unfold tileX
        omega
      have hx' : tileX (k + 1) = 140 := by
        unfold tileX
        omega
      have hy' : tileY (k + 1) = tileY k := by
        unfold tileY
        omega
      rw [hx, hx', hy']
      rfl
    · have hx : tileX k = 140 := by
        unfold tileX
        omega
      have hx' : tileX (k + 1) = 34 := by
        unfold tileX
        omega
      have hy' : tileY (k + 1) = tileY k + 90 := by
        unfold tileY
        omega
      rw [hx, hx', hy', UInt32.ofNat_add]
      rfl

theorem filesPaint_draws {info : FbInfo} (hwidth : info.width = .ofNat fbWidth)
    (hheight : info.height = .ofNat fbHeight) {files : List FsFileEntry}
    (hfiles : files.length ≤ 16) (selected : UInt64) :
    Draws (fun p => some (explorerPicture files selected.toNat p))
      (filesPaint info files selected) := by
  have hbg : Draws (fun _ => some filesBg) _ :=
    (fill_box 0 0 320 200 rfl rfl (by decide) filesBg).congr (box_all filesBg) fun _ => rfl
  have hpanel : Draws (box 20 20 280 160 _) _ :=
    fill_box 20 20 280 160 rfl rfl (by decide) filesPanelBg
  have hheader : Draws (box 20 20 280 28 _) _ :=
    fill_box 20 20 280 28 rfl rfl (by decide) filesTileHead
  have htiles := filesDrawTiles_draws selected files 0 (by omega)
  have hstatus : Draws (box 20 156 280 24 _) _ :=
    fill_box 20 156 280 24 rfl rfl (by decide) filesStatusBg
  refine (hbg.bind (hpanel.bind (hheader.bind (htiles.bind hstatus)))).congr
    ?_ fun fb => ?_
  · rw [Layer.above_some]
    funext p
    rw [Layer.onto_above, Layer.onto_above, Layer.onto_above]
    rfl
  · unfold filesPaint
    rw [hwidth, hheight]
    rfl

theorem length_filesShown (fs : FsState) : (filesShown fs).length ≤ 16 := List.length_take_le _ _

/-- Whatever was on the screen, the file explorer shows its picture of the files. -/
theorem explorer_shows (calls : List GuiCall) (s : FilesState) (fs : FsState) :
    ∃ g, guiRun calls = some g ∧ ∃ fb,
      filesRender s fs g.fb =
        some (if filesReady s fs then s.rendered (filesShown fs).length else s, fb) ∧
      ∀ p, fb.px p =
        if filesReady s fs then explorerPicture (filesShown fs) s.stats.selectedIndex.toNat p
        else g.fb.px p := by
  obtain ⟨g, hrun, hg⟩ := running_guiRun calls
  refine ⟨g, hrun, ?_⟩
  unfold filesRender
  cases hready : filesReady s fs with
  | false => exact ⟨g.fb, rfl, fun _ => rfl⟩
  | true =>
      obtain ⟨fb, hpaint, -, hpx⟩ := filesPaint_draws hg.screen.width hg.screen.height
        (length_filesShown fs) s.stats.selectedIndex g.fb hg.screen
      refine ⟨fb, ?_, fun p => congrFun hpx p⟩
      dsimp only
      rw [hpaint]
      rfl

end AcharyaOS.Desktop

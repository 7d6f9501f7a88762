import Mathlib.Data.Set.Function
import Onde.Mbtiles.Zooms

/-!
# Rows from the north and rows from the south

A zoom level has `2 ^ zoom` rows of tiles. The file counts them from the south (TMS), its users from the north (XYZ).

* `xyzRowToTms_eq_some`: a row and its conversion add up to the last row, whatever the zoom level;
* `getTileXyz_eq`: the two lookups agree at such rows, in what they find and in what they refuse;
* `turnsRows`: so both conversions turn the rows of a supported zoom level around, and refuse the others;
* `OpenFile.found`: in a file that leaves its levels open, every tile on the grid is found from either end.
-/

namespace Onde.Mbtiles

open Onde.Lib

def maxSupportedZoom : UInt8 := 30

/-! ## Rows -/

/-- A shift by less than the width. -/
def checkedShl (x : UInt64) (n : UInt32) : Option UInt64 := if n < 64 then some (x <<< n.toUInt64) else none

/-- A number that fits 32 bits. -/
def tryFromU64 (v : UInt64) : Option UInt32 := if v.toNat < 2 ^ 32 then some v.toUInt32 else none

def xyzRowToTms (y : UInt32) (zoom : UInt8) : Option UInt32 := do
  let span ← checkedShl 1 zoom.toUInt32
  let y := y.toUInt64
  if span ≤ y then none else tryFromU64 (span - 1 - y)

def tmsRowToXyz (y : UInt32) (zoom : UInt8) : Option UInt32 := xyzRowToTms y zoom

/-- The rows of a zoom level. -/
def gridRows (zoom : UInt8) : Set UInt32 := {y | y.toNat < 2 ^ zoom.toNat}

variable {zoom : UInt8} {x y t : UInt32} {span v : UInt64}

theorem toNat_one_shiftLeft (h : zoom.toNat < 64) : ((1 : UInt64) <<< zoom.toUInt64).toNat = 2 ^ zoom.toNat := by
  have hpow : 2 ^ zoom.toNat < 2 ^ 64 := Nat.pow_lt_pow_right (by decide) h
  rw [UInt64.toNat_shiftLeft, UInt8.toNat_toUInt64, Nat.mod_eq_of_lt h, Nat.shiftLeft_eq, UInt64.toNat_one, Nat.one_mul,
    Nat.mod_eq_of_lt hpow]

/-- The number of rows is a word up to zoom level 63. -/
theorem checkedShl_eq_some : checkedShl 1 zoom.toUInt32 = some span ↔
    zoom.toNat < 64 ∧ span.toNat = 2 ^ zoom.toNat := by
  have hlt : zoom.toUInt32 < 64 ↔ zoom.toNat < 64 := by
    rw [UInt32.lt_iff_toNat_lt, UInt8.toNat_toUInt32]
    rfl
  unfold checkedShl
  by_cases h : zoom.toNat < 64
  · have hspan := toNat_one_shiftLeft h
    rw [if_pos (hlt.mpr h), and_iff_right h, Option.some.injEq, UInt8.toUInt64_toUInt32, ← hspan, UInt64.toNat_inj]
    exact eq_comm
  · rw [if_neg (mt hlt.mp h)]
    exact ⟨nofun, fun hspan => absurd hspan.1 h⟩

theorem tryFromU64_eq_some : tryFromU64 v = some t ↔ v.toNat = t.toNat := by
  unfold tryFromU64
  by_cases h : v.toNat < 2 ^ 32
  · rw [if_pos h, Option.some.injEq, ← UInt32.toNat_inj, UInt64.toNat_toUInt32, Nat.mod_eq_of_lt h]
  · rw [if_neg h]
    exact ⟨nofun, fun heq => absurd (heq ▸ t.toNat_lt) h⟩

/-- Neither subtraction of the conversion goes below zero. -/
theorem toNat_turned (hspan : checkedShl 1 zoom.toUInt32 = some span) (hrow : ¬span ≤ y.toUInt64) :
    1 ≤ span ∧ y.toUInt64 ≤ span - 1 ∧ (span - 1 - y.toUInt64).toNat = 2 ^ zoom.toNat - 1 - y.toNat := by
  have hlt : y.toNat < span.toNat := by
    rwa [UInt64.le_iff_toNat_le, Nat.not_le, UInt32.toNat_toUInt64] at hrow
  have hone : 1 ≤ span := by
    rw [UInt64.le_iff_toNat_le, UInt64.toNat_one]
    omega
  have hpred : (span - 1).toNat = span.toNat - 1 := UInt64.toNat_sub_of_le _ _ hone
  have hle : y.toUInt64 ≤ span - 1 := by
    rw [UInt64.le_iff_toNat_le, hpred, UInt32.toNat_toUInt64]
    omega
  refine ⟨hone, hle, ?_⟩
  rw [UInt64.toNat_sub_of_le _ _ hle, hpred, UInt32.toNat_toUInt64, (checkedShl_eq_some.mp hspan).2]

/-- **A row and its conversion add up to the last row.** -/
theorem xyzRowToTms_eq_some : xyzRowToTms y zoom = some t ↔ y.toNat + t.toNat + 1 = 2 ^ zoom.toNat := by
  have hy := y.toNat_lt
  have ht := t.toNat_lt
  unfold xyzRowToTms
  rw [Option.bind_eq_bind, Option.bind_eq_some_iff]
  constructor
  · rintro ⟨span, hspan, h⟩
    by_cases hrow : span ≤ y.toUInt64
    · rw [if_pos hrow] at h
      cases h
    · rw [if_neg hrow, tryFromU64_eq_some, (toNat_turned hspan hrow).2.2] at h
      rw [UInt64.le_iff_toNat_le, (checkedShl_eq_some.mp hspan).2, UInt32.toNat_toUInt64] at hrow
      omega
  · intro h
    -- the sum of two rows is less than `2 ^ 33`
    have hzoom : zoom.toNat < 33 := (Nat.pow_lt_pow_iff_right (a := 2) (by decide)).mp (by omega)
    have hspan := checkedShl_eq_some.mpr ⟨(by omega : zoom.toNat < 64), toNat_one_shiftLeft (by omega)⟩
    have hrow : ¬(1 : UInt64) <<< zoom.toUInt64 ≤ y.toUInt64 := by
      rw [UInt64.le_iff_toNat_le, (checkedShl_eq_some.mp hspan).2, UInt32.toNat_toUInt64]
      omega
    refine ⟨_, hspan, ?_⟩
    rw [if_neg hrow, tryFromU64_eq_some, (toNat_turned hspan hrow).2.2]
    omega

/-- Partial functions that undo each other are bijections of the sets they map to each other. -/
theorem bijOn_some {α β : Type} {f : α → Option β} {g : β → Option α} {s : Set α} {t : Set β}
    (hinv : ∀ a b, f a = some b ↔ g b = some a) (hf : ∀ a ∈ s, ∃ b ∈ t, f a = some b)
    (hg : ∀ b ∈ t, ∃ a ∈ s, g b = some a) : Set.BijOn f s (some '' t) := by
  refine ⟨fun a ha => ?_, fun a ha a' ha' heq => ?_, ?_⟩
  · obtain ⟨b, hb, hab⟩ := hf a ha
    exact ⟨b, hb, hab.symm⟩
  · obtain ⟨b, -, hab⟩ := hf a ha
    have hba := (hinv a b).mp hab
    rw [heq, hinv, hba] at hab
    exact Option.some.inj hab
  · rintro _ ⟨b, hb, rfl⟩
    obtain ⟨a, ha, hba⟩ := hg b hb
    exact ⟨a, ha, (hinv a b).mpr hba⟩

theorem mem_gridRows : y ∈ gridRows zoom ↔ y.toNat < 2 ^ zoom.toNat := Iff.rfl

theorem inverse_rows : xyzRowToTms y zoom = some t ↔ tmsRowToXyz t zoom = some y := by
  rw [tmsRowToXyz, xyzRowToTms_eq_some, xyzRowToTms_eq_some, Nat.add_comm y.toNat]

/-- A row counted from the other end. -/
theorem turned_row (h : zoom.toNat ≤ 32) (hrow : y ∈ gridRows zoom) :
    UInt32.ofNat (2 ^ zoom.toNat - 1 - y.toNat) ∈ gridRows zoom ∧
      y.toNat + (UInt32.ofNat (2 ^ zoom.toNat - 1 - y.toNat)).toNat + 1 = 2 ^ zoom.toNat := by
  rw [mem_gridRows] at hrow ⊢
  have hpow : 2 ^ zoom.toNat ≤ 2 ^ 32 := Nat.pow_le_pow_right (by decide) h
  rw [UInt32.toNat_ofNat_of_lt' (by unfold UInt32.size; omega)]
  omega

/-- Every row of a zoom level up to 32 has its conversion. -/
theorem exists_turned (h : zoom.toNat ≤ 32) (hrow : y ∈ gridRows zoom) :
    ∃ t ∈ gridRows zoom, xyzRowToTms y zoom = some t := by
  obtain ⟨hmem, hsum⟩ := turned_row h hrow
  exact ⟨_, hmem, xyzRowToTms_eq_some.mpr hsum⟩

theorem xyzRowToTms_eq_none (hrow : y ∉ gridRows zoom) : xyzRowToTms y zoom = none := by
  rw [Option.eq_none_iff_forall_ne_some]
  intro t ht
  rw [mem_gridRows] at hrow
  have hsum := xyzRowToTms_eq_some.mp ht
  omega

/-! ## Tiles -/

structure Tile where
  data : Bytes
  format : TileFormat
  deriving DecidableEq

/-- The answer of a file to the query for the data of a tile: it fails, or gives the first value that is stored for
these coordinates, if there is one. -/
abbrev TileStore := UInt8 → UInt32 → UInt32 → Except SqliteError (Option SqlValue)

namespace MbtilesReader

variable {r : MbtilesReader} {tiles : TileStore}

def ensureTileCoords (r : MbtilesReader) (zoom : UInt8) (x y : UInt32) : Result Unit :=
  if maxSupportedZoom < zoom then .error (.zoomOutOfRange zoom none none)
  else if r.metadata.minZoom.any (zoom < ·) then
    .error (.zoomOutOfRange zoom r.metadata.minZoom r.metadata.maxZoom)
  else if r.metadata.maxZoom.any (· < zoom) then
    .error (.zoomOutOfRange zoom r.metadata.minZoom r.metadata.maxZoom)
  else
    let span := (1 : UInt64) <<< zoom.toUInt64
    if span ≤ x.toUInt64 ∨ span ≤ y.toUInt64 then .error (.coordinatesOutOfBounds zoom x y) else .ok ()

/-- A tile by the row that is stored. -/
def getTileTms (r : MbtilesReader) (tiles : TileStore) (zoom : UInt8) (column row : UInt32) :
    Result (Option Tile) := do
  r.ensureTileCoords zoom column row
  let value ← (tiles zoom column row).mapError .sqlite
  let data ← (value.mapM (getBlob 0 "tile_data")).mapError .sqlite
  pure (data.map fun data => ⟨data, r.metadata.format⟩)

/-- A tile by the row counted from the north. -/
def getTileXyz (r : MbtilesReader) (tiles : TileStore) (zoom : UInt8) (column rowXyz : UInt32) :
    Result (Option Tile) :=
  if maxSupportedZoom < zoom then .error (.zoomOutOfRange zoom none none)
  else
    match xyzRowToTms rowXyz zoom with
    | none => .error (.coordinatesOutOfBounds zoom column rowXyz)
    | some rowTms => r.getTileTms tiles zoom column rowTms

/-- The coordinates of a tile that the reader looks for: a supported zoom level in its range, and a place on the
grid. -/
structure ValidTile (r : MbtilesReader) (zoom : UInt8) (x y : UInt32) : Prop where
  supported : zoom ≤ maxSupportedZoom
  above : ∀ min, r.metadata.minZoom = some min → min ≤ zoom
  below : ∀ max, r.metadata.maxZoom = some max → zoom ≤ max
  column : x ∈ gridRows zoom
  row : y ∈ gridRows zoom

theorem span_le_iff (h : ¬maxSupportedZoom < zoom) :
    (1 : UInt64) <<< zoom.toUInt64 ≤ y.toUInt64 ↔ y ∉ gridRows zoom := by
  have hzoom : zoom.toNat ≤ 30 := UInt8.le_iff_toNat_le.mp (UInt8.not_lt.mp h)
  rw [UInt64.le_iff_toNat_le, toNat_one_shiftLeft (by omega), UInt32.toNat_toUInt64, mem_gridRows, Nat.not_lt]

theorem not_any_iff {o : Option UInt8} {p : UInt8 → Bool} : ¬o.any p = true ↔ ∀ z, o = some z → p z = false := by
  rw [Bool.not_eq_true, Option.any_eq_false]

/-- **The coordinates that are let through are the valid ones.** -/
theorem ensureTileCoords_ok : r.ensureTileCoords zoom x y = .ok () ↔ r.ValidTile zoom x y := by
  unfold ensureTileCoords
  dsimp only
  rw [check_eq_ok, check_eq_ok, check_eq_ok, check_eq_ok, not_any_iff, not_any_iff]
  simp only [decide_eq_false_iff_not, UInt8.not_lt]
  constructor
  · rintro ⟨hzoom, hmin, hmax, hgrid, -⟩
    rw [not_or, span_le_iff (UInt8.not_lt.mpr hzoom), span_le_iff (UInt8.not_lt.mpr hzoom), not_not, not_not] at hgrid
    exact ⟨hzoom, hmin, hmax, hgrid.1, hgrid.2⟩
  · rintro ⟨hzoom, hmin, hmax, hx, hy⟩
    refine ⟨hzoom, hmin, hmax, ?_, trivial⟩
    rw [not_or, span_le_iff (UInt8.not_lt.mpr hzoom), span_le_iff (UInt8.not_lt.mpr hzoom), not_not, not_not]
    exact ⟨hx, hy⟩

/-- **Both lookups answer the same for a row and its conversion**, whatever they answer. -/
theorem getTileXyz_eq (h : y.toNat + t.toNat + 1 = 2 ^ zoom.toNat) :
    r.getTileXyz tiles zoom x y = r.getTileTms tiles zoom x t := by
  unfold getTileXyz
  rw [xyzRowToTms_eq_some.mpr h]
  by_cases hzoom : maxSupportedZoom < zoom
  · have hrefused : r.ensureTileCoords zoom x t = .error (.zoomOutOfRange zoom none none) := if_pos hzoom
    rw [if_pos hzoom, getTileTms, hrefused]
    rfl
  · rw [if_neg hzoom]

end MbtilesReader

/-! ## The rows of a zoom level -/

/-- The conversions turn the rows of a zoom level around and refuse the others, with no subtraction below zero, and a
lookup by one is a lookup by the other. -/
structure TurnsRows (zoom : UInt8) : Prop where
  xyz : Set.BijOn (xyzRowToTms · zoom) (gridRows zoom) (some '' gridRows zoom)
  tms : Set.BijOn (tmsRowToXyz · zoom) (gridRows zoom) (some '' gridRows zoom)
  inverse : ∀ y t, xyzRowToTms y zoom = some t ↔ tmsRowToXyz t zoom = some y
  refuses : ∀ y ∉ gridRows zoom, xyzRowToTms y zoom = none ∧ tmsRowToXyz y zoom = none
  noOverflow : ∀ (y : UInt32) (span : UInt64), checkedShl 1 zoom.toUInt32 = some span → span.toNat = 2 ^ zoom.toNat ∧
    (¬span ≤ y.toUInt64 → 1 ≤ span ∧ y.toUInt64 ≤ span - 1)
  lookups : ∀ (r : MbtilesReader) (tiles : TileStore) (column : UInt32), ∀ row ∈ gridRows zoom,
    r.getTileXyz tiles zoom column row =
      r.getTileTms tiles zoom column (UInt32.ofNat (2 ^ zoom.toNat - 1 - row.toNat))

/-- **Both conversions turn the rows of every supported zoom level around.** -/
theorem turnsRows (h : zoom ≤ maxSupportedZoom) : TurnsRows zoom := by
  have hzoom : zoom.toNat ≤ 30 := UInt8.le_iff_toNat_le.mp h
  have hbij : Set.BijOn (xyzRowToTms · zoom) (gridRows zoom) (some '' gridRows zoom) :=
    bijOn_some (fun _ _ => inverse_rows) (fun _ => exists_turned (by omega)) (fun _ => exists_turned (by omega))
  refine ⟨hbij, hbij, fun _ _ => inverse_rows, ?_, ?_, ?_⟩
  · exact fun y hy => ⟨xyzRowToTms_eq_none hy, xyzRowToTms_eq_none hy⟩
  · intro y span hspan
    refine ⟨(checkedShl_eq_some.mp hspan).2, fun hrow => ?_⟩
    obtain ⟨hone, hle, -⟩ := toNat_turned hspan hrow
    exact ⟨hone, hle⟩
  · intro r tiles column row hrow
    obtain ⟨-, hsum⟩ := turned_row (by omega) hrow
    exact MbtilesReader.getTileXyz_eq hsum

/-- The deepest zoom level. -/
theorem turnsRows_deepest : TurnsRows 30 := turnsRows (by decide)

/-! ## The tiles of a file -/

/-- A row of the table of tiles. -/
structure TileRow where
  zoomLevel : SqlValue
  tileColumn : SqlValue
  tileRow : SqlValue
  tileData : SqlValue

def TileRow.isAt (zoom : UInt8) (column row : UInt32) (tile : TileRow) : Bool :=
  tile.zoomLevel.eqInteger zoom.toNat && tile.tileColumn.eqInteger column.toNat && tile.tileRow.eqInteger row.toNat

/-- The answers of a file with these rows. -/
def storeOf (rows : List TileRow) : TileStore := fun zoom column row =>
  .ok ((rows.find? (TileRow.isAt zoom column row)).map TileRow.tileData)

/-- The rows of a file that leaves its levels open, with a blob in each. -/
structure OpenFile (t : Texts) (db : Database) (rows : List TileRow) : Prop where
  levels : rows.map TileRow.zoomLevel = db.zoomLevels
  noMin : declaredZoom t db "minzoom" = none
  noMax : declaredZoom t db "maxzoom" = none
  blobs : ∀ tile ∈ rows, ∃ data, tile.tileData = .blob data

section

variable {texts : Texts} {db : Database} {rows : List TileRow} {tile : TileRow} {path : String} {r : MbtilesReader}

theorem tileZoom_eq_some {v : SqlValue} (h : tileZoom v = some zoom) : v = .integer zoom.toNat := by
  cases v with
  | integer n =>
    simp only [tileZoom, tryFromI64] at h
    split at h
    · next hrange =>
      cases h
      rw [UInt8.toNat_ofNat', Nat.mod_eq_of_lt (by omega), Int.toNat_of_nonneg hrange.1]
    · cases h
  | _ => cases h

/-- **The levels that come from the tiles leave none of them out.** -/
theorem OpenFile.valid (hf : OpenFile texts db rows) (h : MbtilesReader.open texts path (.database db) = .ok r)
    (htile : tile ∈ rows) (hat : tile.isAt zoom x y = true) (hzoom : zoom ≤ maxSupportedZoom)
    (hx : x ∈ gridRows zoom) (hy : y ∈ gridRows zoom) : r.ValidTile zoom x y := by
  obtain ⟨hmin, hmax, -⟩ := open_range h
  rw [hf.noMin] at hmin
  rw [hf.noMax] at hmax
  have hlevel : tile.zoomLevel.eqInteger zoom.toNat = true := by
    rw [TileRow.isAt, Bool.and_assoc, Bool.and_eq_true] at hat
    exact hat.1
  have hmem : tile.zoomLevel ∈ db.zoomLevels := hf.levels ▸ List.mem_map_of_mem htile
  refine ⟨hzoom, fun min hlo => ?_, fun max hhi => ?_, hx, hy⟩
  · have hle := sqlMin_le_integer (tileZoom_eq_some (hmin.symm.trans hlo)) hmem hlevel
    exact UInt8.le_iff_toNat_le.mpr (Int.ofNat_le.mp hle)
  · have hle := integer_le_sqlMax (tileZoom_eq_some (hmax.symm.trans hhi)) hmem hlevel
    exact UInt8.le_iff_toNat_le.mpr (Int.ofNat_le.mp hle)

/-- **Every tile of the grid is found**, from either end: what is served is the data of the first row there. -/
theorem OpenFile.found (hf : OpenFile texts db rows) (h : MbtilesReader.open texts path (.database db) = .ok r)
    (htile : tile ∈ rows) (hat : tile.isAt zoom x y = true) (hzoom : zoom ≤ maxSupportedZoom)
    (hx : x ∈ gridRows zoom) (hsum : t.toNat + y.toNat + 1 = 2 ^ zoom.toNat) :
    ∃ first ∈ rows, first.isAt zoom x y = true ∧ ∃ data, first.tileData = .blob data ∧
      r.getTileTms (storeOf rows) zoom x y = .ok (some ⟨data, r.metadata.format⟩) ∧
      r.getTileXyz (storeOf rows) zoom x t = .ok (some ⟨data, r.metadata.format⟩) := by
  have hy : y ∈ gridRows zoom := by
    rw [mem_gridRows]
    omega
  obtain ⟨first, hfirst⟩ := Option.isSome_iff_exists.mp (List.find?_isSome.mpr ⟨tile, htile, hat⟩)
  have hmem := List.mem_of_find?_eq_some hfirst
  obtain ⟨data, hdata⟩ := hf.blobs first hmem
  have htms : r.getTileTms (storeOf rows) zoom x y = .ok (some ⟨data, r.metadata.format⟩) := by
    have hvalid := MbtilesReader.ensureTileCoords_ok.mpr (hf.valid h htile hat hzoom hx hy)
    refine bind_eq_ok.mpr ⟨(), hvalid, bind_eq_ok.mpr ⟨some (.blob data), ?_, bind_eq_ok.mpr ⟨some data, rfl, rfl⟩⟩⟩
    rw [storeOf, hfirst, Option.map_some, hdata]
    rfl
  exact ⟨first, hmem, List.find?_some hfirst, data, hdata, htms, (MbtilesReader.getTileXyz_eq hsum).trans htms⟩

end

end Onde.Mbtiles

import Onde.Mbtiles.Reader

/-!
# Is the zoom range of a map file a range?

The declared range is checked, but what is filled in from the tiles afterwards is not.

* `loadMetadata_range`: the declared levels are a range if both are there;
* `open_range`: a level that is not declared is that of the lowest or the highest tiles;
* `open_coherent_iff`: so the range of a reader is one exactly when no declared level lies beyond the tiles.
-/

namespace Onde.Mbtiles

open Onde.Lib

/-- The smallest level of the reader is not above the largest. -/
def RangeCoherent (r : MbtilesReader) : Prop :=
  ∀ lo hi, r.metadata.minZoom = some lo → r.metadata.maxZoom = some hi → lo ≤ hi

/-- The level that the metadata declares. -/
def declaredZoom (t : Texts) (db : Database) (key : String) : Option UInt8 :=
  ((db.metadata.foldlM addRow ∅).toOption.bind fun raw => (parseZoom t raw key).toOption).join

/-- The level that an aggregate stands for. -/
def tileZoom : SqlValue → Option UInt8
  | .integer n => tryFromI64 n
  | _ => none

/-- Of two levels one of which is declared, the declared one does not lie beyond the tiles. -/
structure ZoomsAgree (t : Texts) (db : Database) : Prop where
  above : ∀ lo hi, declaredZoom t db "minzoom" = some lo → declaredZoom t db "maxzoom" = none →
    tileZoom (sqlMax db.zoomLevels) = some hi → lo ≤ hi
  below : ∀ lo hi, declaredZoom t db "minzoom" = none → declaredZoom t db "maxzoom" = some hi →
    tileZoom (sqlMin db.zoomLevels) = some lo → lo ≤ hi

variable {t : Texts} {db : Database} {raw : Table String String} {m m' : MbtilesMetadata} {r : MbtilesReader}
  {a b : Option UInt8} {lo hi : UInt8} {path : String}

/-! ## The declared range -/

theorem declaredRange_ok (h : declaredRange t raw = .ok (a, b)) :
    parseZoom t raw "minzoom" = .ok a ∧ parseZoom t raw "maxzoom" = .ok b ∧
      ∀ lo hi, a = some lo → b = some hi → lo ≤ hi := by
  obtain ⟨min, hmin, h⟩ := bind_eq_ok.mp h
  obtain ⟨max, hmax, h⟩ := bind_eq_ok.mp h
  cases min with
  | none =>
    cases h
    exact ⟨hmin, hmax, nofun⟩
  | some min =>
    cases max with
    | none =>
      cases h
      exact ⟨hmin, hmax, nofun⟩
    | some max =>
      dsimp only at h
      split at h
      · cases h
      · next hle =>
        cases h
        refine ⟨hmin, hmax, fun lo hi hlo hhi => ?_⟩
        cases hlo
        cases hhi
        exact UInt8.not_lt.mp hle

/-- **The declared levels are a range if both are there.** -/
theorem loadMetadata_range (h : loadMetadata t db = .ok m) :
    m.minZoom = declaredZoom t db "minzoom" ∧ m.maxZoom = declaredZoom t db "maxzoom" ∧
      ∀ lo hi, m.minZoom = some lo → m.maxZoom = some hi → lo ≤ hi := by
  unfold loadMetadata at h
  obtain ⟨raw, hraw, h⟩ := bind_eq_ok.mp h
  obtain ⟨name, -, h⟩ := bind_eq_ok.mp h
  split at h
  · cases h
  · obtain ⟨formatRaw, -, h⟩ := bind_eq_ok.mp h
    obtain ⟨format, -, h⟩ := bind_eq_ok.mp h
    obtain ⟨bounds, -, h⟩ := bind_eq_ok.mp h
    obtain ⟨center, -, h⟩ := bind_eq_ok.mp h
    obtain ⟨range, hrange, h⟩ := bind_eq_ok.mp h
    cases h
    obtain ⟨hmin, hmax, hle⟩ := declaredRange_ok hrange
    unfold declaredZoom
    rw [hraw]
    refine ⟨?_, ?_, hle⟩
    · show range.1 = (Option.bind (some raw) fun raw => (parseZoom t raw "minzoom").toOption).join
      rw [Option.bind_some, hmin]
      rfl
    · show range.2 = (Option.bind (some raw) fun raw => (parseZoom t raw "maxzoom").toOption).join
      rw [Option.bind_some, hmax]
      rfl

/-! ## The range of the tiles -/

/-- What an aggregate is read as. -/
theorem bind_tryFromI64 {index : Nat} {name : String} {v : SqlValue} {o : Option Int}
    (h : getOptInteger index name v = .ok o) : o.bind tryFromI64 = tileZoom v := by
  have hiff := getOptInteger_eq_ok h
  cases o with
  | some n =>
    rw [(hiff n).mp rfl]
    rfl
  | none =>
    cases v with
    | integer n => cases (hiff n).mpr rfl
    | null => rfl
    | real x => rfl
    | text bytes => rfl
    | blob bytes => rfl

/-- **A level that is not declared is that of the tiles.** -/
theorem effectiveRange_ok (h : effectiveRange db m = .ok m') :
    m'.minZoom = (m.minZoom <|> tileZoom (sqlMin db.zoomLevels)) ∧
    m'.maxZoom = (m.maxZoom <|> tileZoom (sqlMax db.zoomLevels)) := by
  unfold effectiveRange at h
  split at h
  · obtain ⟨lo, hlo, h⟩ := bind_eq_ok.mp h
    obtain ⟨hi, hhi, h⟩ := bind_eq_ok.mp h
    cases h
    rw [← bind_tryFromI64 (mapError_eq_ok.mp hlo), ← bind_tryFromI64 (mapError_eq_ok.mp hhi)]
    exact ⟨rfl, rfl⟩
  · next hboth =>
    cases h
    rw [not_or] at hboth
    have horElse : ∀ {o o' : Option UInt8}, ¬o.isNone → o = (o <|> o') := fun {o _} ho => by
      cases o with
      | none => exact absurd rfl ho
      | some z => rfl
    exact ⟨horElse hboth.1, horElse hboth.2⟩

theorem tryFromI64_le {v w : Int} (hv : tryFromI64 v = some lo) (hw : tryFromI64 w = some hi) (h : v ≤ w) :
    lo ≤ hi := by
  unfold tryFromI64 at hv hw
  split at hv
  · next hvr =>
    split at hw
    · next hwr =>
      cases hv
      cases hw
      rw [UInt8.le_iff_toNat_le, UInt8.toNat_ofNat', UInt8.toNat_ofNat']
      omega
    · cases hw
  · cases hv

/-- **The levels of the tiles are a range.** -/
theorem tileZoom_le {zooms : List SqlValue} (hlo : tileZoom (sqlMin zooms) = some lo)
    (hhi : tileZoom (sqlMax zooms) = some hi) : lo ≤ hi := by
  cases hmin : sqlMin zooms with
  | integer v =>
    cases hmax : sqlMax zooms with
    | integer w =>
      rw [hmin] at hlo
      rw [hmax] at hhi
      exact tryFromI64_le hlo hhi (sqlMin_le_sqlMax hmin hmax)
    | _ => rw [hmax] at hhi; cases hhi
  | _ => rw [hmin] at hlo; cases hlo

/-! ## The range of a reader -/

/-- The levels of a reader. -/
theorem open_range (h : MbtilesReader.open t path (.database db) = .ok r) :
    r.metadata.minZoom = (declaredZoom t db "minzoom" <|> tileZoom (sqlMin db.zoomLevels)) ∧
    r.metadata.maxZoom = (declaredZoom t db "maxzoom" <|> tileZoom (sqlMax db.zoomLevels)) ∧
    ∀ lo hi, declaredZoom t db "minzoom" = some lo → declaredZoom t db "maxzoom" = some hi → lo ≤ hi := by
  obtain ⟨schema, -, h⟩ := bind_eq_ok.mp h
  obtain ⟨m, hload, h⟩ := bind_eq_ok.mp h
  obtain ⟨m', hrange, h⟩ := bind_eq_ok.mp h
  cases h
  obtain ⟨hmin, hmax, hle⟩ := loadMetadata_range hload
  obtain ⟨hmin', hmax'⟩ := effectiveRange_ok hrange
  rw [hmin, hmax] at hle
  rw [hmin] at hmin'
  rw [hmax] at hmax'
  exact ⟨hmin', hmax', hle⟩

/-- **The range of a reader is one exactly when no declared level lies beyond the tiles.** -/
theorem open_coherent_iff (h : MbtilesReader.open t path (.database db) = .ok r) :
    RangeCoherent r ↔ ZoomsAgree t db := by
  obtain ⟨hmin, hmax, hdeclared⟩ := open_range h
  unfold RangeCoherent
  rw [hmin, hmax]
  constructor
  · intro hle
    constructor
    · intro lo hi hlo hnone hhi
      exact hle lo hi (by rw [hlo]; rfl) (by rw [hnone, hhi]; rfl)
    · intro lo hi hnone hhi hlo
      exact hle lo hi (by rw [hnone, hlo]; rfl) (by rw [hhi]; rfl)
  · intro hagree lo hi hlo hhi
    cases hdmin : declaredZoom t db "minzoom" with
    | some z =>
      rw [hdmin] at hlo
      cases hlo
      cases hdmax : declaredZoom t db "maxzoom" with
      | some z' =>
        rw [hdmax] at hhi
        cases hhi
        exact hdeclared _ _ hdmin hdmax
      | none =>
        rw [hdmax] at hhi
        exact hagree.above _ _ hdmin hdmax hhi
    | none =>
      rw [hdmin] at hlo
      cases hdmax : declaredZoom t db "maxzoom" with
      | some z' =>
        rw [hdmax] at hhi
        cases hhi
        exact hagree.below _ _ hdmin hdmax hlo
      | none =>
        rw [hdmax] at hhi
        exact tileZoom_le hlo hhi

/-! ## A file without a largest level -/

/-- No number is read, and texts are not quoted. -/
def plainTexts : Texts := ⟨fun _ => none, id⟩

/-- A file that declares its smallest level only. -/
def partialDb (minZoom : String) : Database where
  objects := [("metadata", "table"), ("tiles", "table")]
  tilesColumns := requiredColumns
  tilesIndexes := []
  metadata := [("name", "city"), ("format", "png"), ("minzoom", minZoom)].map fun row =>
    (.text (utf8Bytes row.1), .text (utf8Bytes row.2))
  zoomLevels := [.integer 0, .integer 3]

/-- The reader of such a file. -/
def partialReader (minZoom : String) (level : UInt8) : MbtilesReader where
  path := "city.mbtiles"
  conn := partialDb minZoom
  metadata :=
    { name := "city", format := .png, bounds := none, center := none, minZoom := some level, maxZoom := some 3,
      attribution := none, layerType := none, version := none, description := none,
      extra := (((∅ : Table String String).insert "name" "city").insert "format" "png").insert "minzoom" minZoom }
  schema := ⟨.table, false, false, false⟩

theorem addRow_text (raw : Table String String) (key value : String) :
    addRow raw (.text (utf8Bytes key), .text (utf8Bytes value)) =
      .ok (if (raw.lookup key).isSome then raw else raw.insert key value) := by
  unfold addRow getOptText getText
  simp only [fromUtf8_utf8Bytes]
  rfl

theorem rows_partialDb (minZoom : String) : (partialDb minZoom).metadata.foldlM addRow ∅ =
    .ok (partialReader minZoom 0).metadata.extra := by
  unfold partialDb
  simp only [List.map_cons, List.map_nil, List.foldlM_cons, addRow_text]
  rfl

theorem open_partialDb {minZoom : String} {level : UInt8} (hlevel : parseU8 (trimText minZoom) = some level) :
    MbtilesReader.open plainTexts "city.mbtiles" (.database (partialDb minZoom)) =
      .ok (partialReader minZoom level) := by
  have hschema : validateSchema (partialDb minZoom) = .ok ⟨.table, false, false, false⟩ := rfl
  have hzoom : declaredRange plainTexts (partialReader minZoom 0).metadata.extra = .ok (some level, none) := by
    have hlookup : (partialReader minZoom 0).metadata.extra.lookup "minzoom" = some minZoom := rfl
    unfold declaredRange parseZoom
    rw [hlookup]
    simp only [hlevel]
    rfl
  have hload : loadMetadata plainTexts (partialDb minZoom) = .ok { (partialReader minZoom level).metadata with
      maxZoom := none } := by
    unfold loadMetadata
    rw [rows_partialDb]
    refine bind_eq_ok.mpr ⟨_, rfl, bind_eq_ok.mpr ⟨"city", rfl, ?_⟩⟩
    rw [if_neg (by decide)]
    refine bind_eq_ok.mpr ⟨"png", rfl, bind_eq_ok.mpr ⟨.png, rfl, bind_eq_ok.mpr ⟨none, rfl, ?_⟩⟩⟩
    exact bind_eq_ok.mpr ⟨none, rfl, bind_eq_ok.mpr ⟨_, hzoom, rfl⟩⟩
  have hrange : effectiveRange (partialDb minZoom) { (partialReader minZoom level).metadata with maxZoom := none } =
      .ok (partialReader minZoom level).metadata := by
    rfl
  exact bind_eq_ok.mpr ⟨_, hschema, bind_eq_ok.mpr ⟨_, hload, bind_eq_ok.mpr ⟨_, hrange, rfl⟩⟩⟩

theorem agreeing_coherent : RangeCoherent (partialReader "2" 2) ↔ ZoomsAgree plainTexts (partialDb "2") :=
  open_coherent_iff (open_partialDb (by decide))

/-- **A file that declares levels from 5 on and has tiles up to level 3 is opened.** -/
theorem minzoom_beyond : ∃ r, MbtilesReader.open plainTexts "city.mbtiles" (.database (partialDb "5")) = .ok r ∧
    ¬RangeCoherent r := by
  have hfive : parseU8 (trimText "5") = some 5 := by decide
  refine ⟨_, open_partialDb hfive, fun h => ?_⟩
  exact absurd (h 5 3 rfl rfl) (by decide)

end Onde.Mbtiles

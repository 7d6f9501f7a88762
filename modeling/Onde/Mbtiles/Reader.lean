import Onde.Lib.Except
import Onde.Lib.Sql
import Onde.Lib.Table
import Onde.Lib.Text

/-!
# Opening a map file

The reader of MBTiles files over what the database answers.

* `TileFormat.parse`, `Bounds.parse`, `Center.parse`, `parseZoom`: the values of the metadata table;
* `validateSchema`: the tables, the columns and the index;
* `loadMetadata`, `effectiveRange`: the metadata, and the zoom levels of the tiles where it has none;
* `MbtilesReader.open`: the three of them.
-/

namespace Onde.Mbtiles

open Onde.Lib

inductive MbtilesError where
  | io (err : String)
  | sqlite (err : SqliteError)
  | fileNotFound (path : String)
  | notSqlite (detail : String)
  | missingTable (table : String)
  | invalidSchema (detail : String)
  | invalidMetadata (detail : String)
  | zoomOutOfRange (requested : UInt8) (min max : Option UInt8)
  | coordinatesOutOfBounds (zoom : UInt8) (x y : UInt32)
  deriving DecidableEq

abbrev Result := Except MbtilesError

/-- What the standard library makes of texts: the floating point number of a text (`some none` if it is not finite), and
the text in quotes. -/
structure Texts where
  parseF64 : String → Option (Option ℚ)
  debug : String → String

/-! ## Metadata values -/

inductive TileFormat where
  | jpeg | png | vectorPbf | webP
  deriving DecidableEq

def trimText (s : String) : String := String.ofList (trim s.toList)

def toAsciiLowercase (s : String) : String :=
  String.ofList (s.toList.map fun c => if 'A' ≤ c ∧ c ≤ 'Z' then Char.ofNat (c.toNat + 32) else c)

def TileFormat.parse (t : Texts) (raw : String) : Result TileFormat :=
  let format := toAsciiLowercase (trimText raw)
  if format = "jpg" ∨ format = "jpeg" then .ok .jpeg
  else if format = "png" then .ok .png
  else if format = "pbf" then .ok .vectorPbf
  else if format = "webp" then .ok .webP
  else .error (.invalidMetadata
    s!"unsupported `format` value {t.debug format} (expected jpg, png, pbf or webp)")

/-- The values between the commas. -/
def commaParts (raw : String) : List String := (raw.toList.splitOn ',').map fun part => trimText (String.ofList part)

structure Bounds where
  west : ℚ
  south : ℚ
  east : ℚ
  north : ℚ
  deriving DecidableEq

/-- A coordinate of the bounds. -/
def boundsNumber (t : Texts) (part : String) : Result ℚ :=
  match t.parseF64 part with
  | none => .error (.invalidMetadata s!"non-numeric `bounds` value {t.debug part}")
  | some none => .error (.invalidMetadata s!"non-finite `bounds` value {t.debug part}")
  | some (some v) => .ok v

def Bounds.parse (t : Texts) (raw : String) : Result Bounds :=
  match commaParts raw with
  | [west, south, east, north] => do
    let west ← boundsNumber t west
    let south ← boundsNumber t south
    let east ← boundsNumber t east
    let north ← boundsNumber t north
    if ¬(-180 ≤ west ∧ west ≤ 180) ∨ ¬(-180 ≤ east ∧ east ≤ 180) ∨ ¬(-90 ≤ south ∧ south ≤ 90) ∨
        ¬(-90 ≤ north ∧ north ≤ 90) then
      .error (.invalidMetadata s!"`bounds` {t.debug raw} outside WGS84 degree ranges")
    else if east < west ∨ north < south then
      .error (.invalidMetadata
        s!"`bounds` {t.debug raw}: corners are crossed (need west<=east, south<=north)")
    else pure ⟨west, south, east, north⟩
  | _ => .error (.invalidMetadata s!"`bounds` must have 4 comma-separated values, got {t.debug raw}")

structure Center where
  longitude : ℚ
  latitude : ℚ
  zoom : UInt8
  deriving DecidableEq

/-- A number of eight bits. -/
def parseU8 (s : String) : Option UInt8 := (parseUnsigned 255 s.toList).map UInt8.ofNat

def orInvalid {α : Type} (o : Option α) (detail : String) : Result α :=
  match o with
  | some a => .ok a
  | none => .error (.invalidMetadata detail)

def Center.parse (t : Texts) (raw : String) : Result Center :=
  match commaParts raw with
  | [lon, lat, zoom] => do
    let longitude ← orInvalid (t.parseF64 lon) s!"non-numeric `center` lon {t.debug lon}"
    let latitude ← orInvalid (t.parseF64 lat) s!"non-numeric `center` lat {t.debug lat}"
    let zoom ← orInvalid (parseU8 zoom) s!"non-integer `center` zoom {t.debug zoom}"
    match longitude, latitude with
    | some longitude, some latitude =>
      if ¬(-180 ≤ longitude ∧ longitude ≤ 180) ∨ ¬(-90 ≤ latitude ∧ latitude ≤ 90) then
        .error (.invalidMetadata s!"`center` {t.debug raw} outside WGS84 degree ranges")
      else pure ⟨longitude, latitude, zoom⟩
    | _, _ => .error (.invalidMetadata s!"`center` {t.debug raw} outside WGS84 degree ranges")
  | _ => .error (.invalidMetadata s!"`center` must have 3 comma-separated values, got {t.debug raw}")

structure MbtilesMetadata where
  name : String
  format : TileFormat
  bounds : Option Bounds
  center : Option Center
  minZoom : Option UInt8
  maxZoom : Option UInt8
  attribution : Option String
  layerType : Option String
  version : Option String
  description : Option String
  extra : Table String String

/-! ## The database -/

structure IndexInfo where
  unique : Bool
  isPartial : Bool
  columns : List (Option String)

/-- What the database answers: the names and types of its objects, the columns and the indexes of `tiles`, the rows of
`metadata`, and the zoom levels of the rows of `tiles`. -/
structure Database where
  objects : List (String × String)
  tilesColumns : List String
  tilesIndexes : List IndexInfo
  metadata : List (SqlValue × SqlValue)
  zoomLevels : List SqlValue

inductive TilesKind where
  | table | view
  deriving DecidableEq

def TilesKind.debug : TilesKind → String
  | table => "Table"
  | view => "View"

structure SchemaInfo where
  tilesKind : TilesKind
  hasMapTable : Bool
  hasImagesTable : Bool
  hasUniqueTileIndex : Bool
  deriving DecidableEq

/-- The kind of an object, if it is there. -/
def objectKind (db : Database) (name : String) : Option TilesKind :=
  (db.objects.find? fun o => o.1 = name).map fun o => if o.2 = "view" then .view else .table

/-- Is there an index over the three coordinates? -/
def hasUniqueTileIndex : List IndexInfo → Result Bool
  | [] => .ok false
  | index :: rest =>
    if ¬index.unique ∨ index.isPartial then hasUniqueTileIndex rest
    else do
      let cols ← index.columns.mapM fun
        | some name => .ok name
        | none => .error (.sqlite (.invalidColumnType 0 "name" .null))
      if cols.mergeSort (· ≤ ·) = ["tile_column", "tile_row", "zoom_level"] then pure true
      else hasUniqueTileIndex rest

/-- A list of names in quotes. -/
def debugNames (names : List String) : String :=
  "[" ++ ", ".intercalate (names.map fun name => "\"" ++ name ++ "\"") ++ "]"

def requiredColumns : List String := ["zoom_level", "tile_column", "tile_row", "tile_data"]

def validateSchema (db : Database) : Result SchemaInfo := do
  if (objectKind db "metadata").isNone then throw (.missingTable "metadata")
  let hasMap := (objectKind db "map").isSome
  let hasImages := (objectKind db "images").isSome
  let tilesKind ← match objectKind db "tiles" with
    | some kind => pure kind
    | none =>
      if hasMap ∧ hasImages then
        throw (.invalidSchema ("no `tiles` table or view; legacy `map`+`images` layout detected — " ++
          "create the standard view: CREATE VIEW tiles AS SELECT " ++
          "map.zoom_level AS zoom_level, map.tile_column AS tile_column, " ++
          "map.tile_row AS tile_row, images.tile_data AS tile_data " ++
          "FROM map JOIN images ON images.tile_id = map.tile_id"))
      else throw (.missingTable "tiles")
  let missing := requiredColumns.filter fun c => c ∉ db.tilesColumns
  if missing ≠ [] then
    throw (.invalidSchema
      (s!"`tiles` (a {tilesKind.debug}) lacks columns {debugNames missing}; " ++
        s!"required: {debugNames requiredColumns}"))
  let hasIndex ← hasUniqueTileIndex db.tilesIndexes
  pure ⟨tilesKind, hasMap, hasImages, hasIndex⟩

/-! ## Loading -/

/-- A row of the metadata table: the first value of a name is kept. -/
def addRow (raw : Table String String) (row : SqlValue × SqlValue) : Result (Table String String) := do
  let key ← (getText 0 "name" row.1).mapError .sqlite
  let value ← (getOptText 1 "value" row.2).mapError .sqlite
  match value with
  | some value => pure (if (raw.lookup key).isSome then raw else raw.insert key value)
  | none => pure raw

/-- The zoom level that a row of the metadata gives. -/
def parseZoom (t : Texts) (raw : Table String String) (key : String) : Result (Option UInt8) :=
  match raw.lookup key with
  | some s => do
    let z ← orInvalid (parseU8 (trimText s)) s!"`{key}` value {t.debug s} is not an integer 0..=255"
    pure (some z)
  | none => pure none

/-- A value that is parsed if it is there. -/
def parseIfAny {α : Type} (o : Option String) (parse : String → Result α) : Result (Option α) :=
  match o with
  | some s => do
    let a ← parse s
    pure (some a)
  | none => pure none

/-- The range that the metadata declares. -/
def declaredRange (t : Texts) (raw : Table String String) : Result (Option UInt8 × Option UInt8) := do
  let minZoom ← parseZoom t raw "minzoom"
  let maxZoom ← parseZoom t raw "maxzoom"
  match minZoom, maxZoom with
  | some min, some max =>
    if max < min then .error (.invalidMetadata s!"minzoom {min} greater than maxzoom {max}")
    else pure (minZoom, maxZoom)
  | _, _ => pure (minZoom, maxZoom)

def loadMetadata (t : Texts) (db : Database) : Result MbtilesMetadata := do
  let raw ← db.metadata.foldlM addRow ∅
  let name ← orInvalid (raw.lookup "name") "mandatory `name` row missing"
  if trimText name = "" then throw (.invalidMetadata "mandatory `name` row is empty")
  let formatRaw ← orInvalid (raw.lookup "format") "mandatory `format` row missing"
  let format ← TileFormat.parse t formatRaw
  let bounds ← parseIfAny (raw.lookup "bounds") (Bounds.parse t)
  let center ← parseIfAny (raw.lookup "center") (Center.parse t)
  let range ← declaredRange t raw
  pure {
    name, format, bounds, center
    minZoom := range.1
    maxZoom := range.2
    attribution := raw.lookup "attribution"
    layerType := raw.lookup "type"
    version := raw.lookup "version"
    description := raw.lookup "description"
    extra := (((raw.erase "attribution").erase "type").erase "version").erase "description" }

/-- A zoom level that fits eight bits. -/
def tryFromI64 (v : Int) : Option UInt8 := if 0 ≤ v ∧ v ≤ 255 then some (UInt8.ofNat v.toNat) else none

/-- What the metadata leaves open comes from the tiles. -/
def effectiveRange (db : Database) (m : MbtilesMetadata) : Result MbtilesMetadata :=
  if m.minZoom.isNone ∨ m.maxZoom.isNone then do
    let lo ← (getOptInteger 0 "MIN(zoom_level)" (sqlMin db.zoomLevels)).mapError .sqlite
    let hi ← (getOptInteger 1 "MAX(zoom_level)" (sqlMax db.zoomLevels)).mapError .sqlite
    pure { m with
      minZoom := m.minZoom <|> lo.bind tryFromI64
      maxZoom := m.maxZoom <|> hi.bind tryFromI64 }
  else pure m

/-- What a path leads to. -/
inductive MbtilesFile where
  | missing
  | unreadable (err : String)
  | directory
  | failing (err : SqliteError)
  | foreign (detail : String)
  | database (db : Database)

structure MbtilesReader where
  path : String
  conn : Database
  metadata : MbtilesMetadata
  schema : SchemaInfo

def MbtilesReader.open (t : Texts) (path : String) : MbtilesFile → Result MbtilesReader
  | .missing => .error (.fileNotFound path)
  | .unreadable err => .error (.io err)
  | .directory => .error (.notSqlite s!"{path} is a directory")
  | .failing err => .error (.sqlite err)
  | .foreign detail => .error (.notSqlite s!"file rejected by SQLite ({detail})")
  | .database db => do
    let schema ← validateSchema db
    let metadata ← loadMetadata t db
    let metadata ← effectiveRange db metadata
    pure ⟨path, db, metadata, schema⟩

end Onde.Mbtiles

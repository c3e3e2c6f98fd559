import Konnekt.Commands.Links
import Konnekt.Go.Map
import Konnekt.Js.Json
import Konnekt.Run.Writes

/-!
# The stores of the frontend that write to disk

The settings, the command buttons and the tiles. Each of their writes sends the backend a
whole value that is computed from what the store holds when it is called.
-/

namespace Konnekt.Stores

open Commands Go Writes

/-- `AppSettings`, by the names of its fields. -/
abbrev AppSettings : Type := GoMap Js.Json

/-- `TileLayout`. -/
inductive TileLayout where
  | detailed | default | compact
  deriving DecidableEq, Repr

/-- What `useSettingsStore`, `useCommandsStore` and `useTileStore` hold; the two parts of the tile
store share its error. -/
structure Frontend where
  settings : Cell AppSettings
  settingsError : Option String := none
  items : Cell (List CommandButton)
  itemsError : Option String := none
  activeTileIds : Cell (List String)
  layouts : Cell (GoMap TileLayout)
  tilesError : Option String := none

/-- The values that are written apart from each other. -/
inductive Target where
  | settings | items | activeTileIds | layouts
  deriving DecidableEq, Repr

namespace Frontend

/-- The stores as they have been read from disk. -/
def load (settings : AppSettings) (items : List CommandButton) (activeTileIds : List String)
    (layouts : GoMap TileLayout) : Frontend :=
  { settings := .load settings, items := .load items, activeTileIds := .load activeTileIds,
    layouts := .load layouts }

/-! ## Calls -/

/-- `update` of the settings store; `reorderCrate` computes its patch from the settings shown. -/
def update (patch : AppSettings → AppSettings) (s : Frontend) : Frontend :=
  { s with
    settings := s.settings.begin .sent fun prev => some (prev.overlay (patch prev))
    settingsError := none }

/-- `save` of the commands store, whose callers compute the list from the items shown. -/
def save (next : List CommandButton → List CommandButton) (s : Frontend) : Frontend :=
  { s with items := s.items.begin .sent fun prev => some (next prev), itemsError := none }

def add (item : CommandButton) (s : Frontend) : Frontend := s.save (· ++ [item])

def remove (id : String) (s : Frontend) : Frontend := s.save (·.filter (·.id ≠ id))

/-- `addTile`: a tile that is shown already is not written. -/
def addTile (id : String) (s : Frontend) : Frontend :=
  if id ∈ s.activeTileIds.shown.value then s
  else
    { s with
      activeTileIds := s.activeTileIds.begin .stored fun ids => some (ids ++ [id])
      tilesError := none }

def removeTile (id : String) (s : Frontend) : Frontend :=
  { s with
    activeTileIds := s.activeTileIds.begin .stored fun ids => some (ids.filter (· ≠ id))
    tilesError := none }

/-- `setLayout`: `default` is the absence of an entry. -/
def setLayout (id : String) (layout : TileLayout) (s : Frontend) : Frontend :=
  { s with
    layouts := s.layouts.begin .sent fun previous =>
      some (if layout = .default then previous.erase id else previous.insert id layout)
    tilesError := none }

/-! ## What becomes of a write -/

/-- The backend takes or refuses a write. -/
def finish (target : Target) (id : Nat) (refusal : Option String) (s : Frontend) : Frontend :=
  match target with
  | .settings => { s with settings := s.settings.finish id refusal }
  | .items => { s with items := s.items.finish id refusal }
  | .activeTileIds => { s with activeTileIds := s.activeTileIds.finish id refusal }
  | .layouts => { s with layouts := s.layouts.finish id refusal }

/-- The error of a write that was refused, where there is a backend; any other leaves it. -/
def errorOf {α : Type} (bridge : Bool) (id : Nat) (c : Cell α) (error : Option String) :
    Option String :=
  match c.find id with
  | some { fate := .refused reason, .. } => if bridge then some reason else error
  | _ => error

/-- The rest of a call, behind its write. -/
def settle (bridge : Bool) (target : Target) (id : Nat) (s : Frontend) : Frontend :=
  match target with
  | .settings =>
    { s with settings := s.settings.settle .sent bridge id
             settingsError := errorOf bridge id s.settings s.settingsError }
  | .items =>
    { s with items := s.items.settle .sent bridge id
             itemsError := errorOf bridge id s.items s.itemsError }
  | .activeTileIds =>
    { s with activeTileIds := s.activeTileIds.settle .stored bridge id
             tilesError := errorOf bridge id s.activeTileIds s.tilesError }
  | .layouts =>
    { s with layouts := s.layouts.settle .sent bridge id
             tilesError := errorOf bridge id s.layouts s.tilesError }

end Frontend

/-- What happens while the bridge is present. -/
inductive Event where
  | update (patch : AppSettings → AppSettings)
  | save (next : List CommandButton → List CommandButton)
  | addTile (id : String)
  | removeTile (id : String)
  | setLayout (id : String) (layout : TileLayout)
  | finish (target : Target) (id : Nat) (refusal : Option String)
  | settle (target : Target) (id : Nat)

def Frontend.act (s : Frontend) : Event → Frontend
  | .update patch => s.update patch
  | .save next => s.save next
  | .addTile id => s.addTile id
  | .removeTile id => s.removeTile id
  | .setLayout id layout => s.setLayout id layout
  | .finish target id refusal => s.finish target id refusal
  | .settle target id => s.settle true target id

end Konnekt.Stores

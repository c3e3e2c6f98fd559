import Konnekt.Run.Labelled
import Konnekt.Stores.Optimistic

/-!
# Overlapping writes of the stores

A store that shows a write before it is stored goes back, where the write is refused, to
what it showed before, whatever has been written since. As long as the backend takes
writes in the order they were sent and only the last of them is taken back, each store
ends on what is on disk.
-/

namespace Konnekt.Stores

open Commands Go Writes

/-- The stores, while the bridge is present. -/
def stores : Labelled.System Frontend Event Unit where
  act e s := ((), s.act e)
  enabled _ _ := True

/-- Any event may come next. -/
def Unrestricted : Labelled.History Frontend Event → Frontend → Event → Prop := fun _ _ _ => True

/-- Every value of which no write is under way is the one the backend last stored. -/
structure Frontend.Agrees (s : Frontend) : Prop where
  settings : s.settings.Agrees
  items : s.items.Agrees
  activeTileIds : s.activeTileIds.Agrees
  layouts : s.layouts.Agrees

/-- No stored write is undone because another is refused. -/
def Frontend.Keeps (s : Frontend) : Event → Prop
  | .settle .settings id => s.settings.Keeps .sent (.settle id)
  | .settle .items id => s.items.Keeps .sent (.settle id)
  | .settle .activeTileIds id => s.activeTileIds.Keeps .stored (.settle id)
  | .settle .layouts id => s.layouts.Keeps .sent (.settle id)
  | _ => True

/-- The event keeps the value it is about in order. -/
def Frontend.InOrder (s : Frontend) : Event → Prop
  | .finish .settings id refusal => s.settings.InOrder .sent (.finish id refusal)
  | .finish .items id refusal => s.items.InOrder .sent (.finish id refusal)
  | .finish .activeTileIds id refusal => s.activeTileIds.InOrder .stored (.finish id refusal)
  | .finish .layouts id refusal => s.layouts.InOrder .sent (.finish id refusal)
  | .settle .settings id => s.settings.InOrder .sent (.settle id)
  | .settle .items id => s.items.InOrder .sent (.settle id)
  | .settle .activeTileIds id => s.activeTileIds.InOrder .stored (.settle id)
  | .settle .layouts id => s.layouts.InOrder .sent (.settle id)
  | _ => True

/-! ## Orderly runs -/

structure Frontend.Orderly (s : Frontend) : Prop where
  settings : s.settings.Orderly .sent
  items : s.items.Orderly .sent
  activeTileIds : s.activeTileIds.Orderly .stored
  layouts : s.layouts.Orderly .sent

theorem Frontend.orderly_load (settings : AppSettings) (items : List CommandButton)
    (activeTileIds : List String) (layouts : GoMap TileLayout) :
    (Frontend.load settings items activeTileIds layouts).Orderly :=
  ⟨Cell.orderly_load _ _, Cell.orderly_load _ _, Cell.orderly_load _ _, Cell.orderly_load _ _⟩

section

variable {s : Frontend}

theorem Frontend.Orderly.agrees (h : s.Orderly) : s.Agrees :=
  ⟨h.settings.agrees, h.items.agrees, h.activeTileIds.agrees, h.layouts.agrees⟩

theorem Frontend.Orderly.keeps (h : s.Orderly) {e : Event} (horder : s.InOrder e) : s.Keeps e := by
  cases e with
  | settle target id =>
    cases target with
    | settings => exact h.settings.keeps (a := .settle id) horder
    | items => exact h.items.keeps (a := .settle id) horder
    | activeTileIds => exact h.activeTileIds.keeps (a := .settle id) horder
    | layouts => exact h.layouts.keeps (a := .settle id) horder
  | _ => trivial

/-- An event is one of the value it is about, and leaves the others alone. -/
theorem Frontend.Orderly.act (h : s.Orderly) {e : Event} (horder : s.InOrder e) :
    (s.act e).Orderly := by
  cases e with
  | update patch => exact { h with settings := h.settings.begin fun prev => some (prev.overlay (patch prev)) }
  | save next => exact { h with items := h.items.begin fun prev => some (next prev) }
  | addTile id =>
    show (s.addTile id).Orderly
    unfold Frontend.addTile
    split
    · exact h
    · exact { h with activeTileIds := h.activeTileIds.begin fun ids => some (ids ++ [id]) }
  | removeTile id =>
    exact { h with activeTileIds := h.activeTileIds.begin fun ids => some (ids.filter (· ≠ id)) }
  | setLayout id layout =>
    have hbegin := h.layouts.begin fun previous =>
      some (if layout = .default then previous.erase id else previous.insert id layout)
    exact { h with layouts := hbegin }
  | finish target id refusal =>
    cases target with
    | settings => exact { h with settings := h.settings.finish horder }
    | items => exact { h with items := h.items.finish horder }
    | activeTileIds => exact { h with activeTileIds := h.activeTileIds.finish horder }
    | layouts => exact { h with layouts := h.layouts.finish horder }
  | settle target id =>
    cases target with
    | settings => exact { h with settings := h.settings.settle horder }
    | items => exact { h with items := h.items.settle horder }
    | activeTileIds => exact { h with activeTileIds := h.activeTileIds.settle horder }
    | layouts => exact { h with layouts := h.layouts.settle horder }

end

/-- In every run of the stores in order, each value without a write under way is the one the
backend last stored, and no refusal undoes what has been stored. -/
theorem stores_end_on_disk {settings : AppSettings} {items : List CommandButton}
    {activeTileIds : List String} {layouts : GoMap TileLayout}
    {h : Labelled.History Frontend Event} {s : Frontend}
    (hrun : Labelled.Run stores (fun _ s e => s.InOrder e)
      (Frontend.load settings items activeTileIds layouts) h s) :
    s.Agrees ∧ ∀ e ∈ h, e.1.Keeps e.2 := by
  suffices horderly : s.Orderly ∧ ∀ e ∈ h, e.1.Keeps e.2 from ⟨horderly.1.agrees, horderly.2⟩
  refine hrun.invariant (P := fun h s => s.Orderly ∧ ∀ e ∈ h, e.1.Keeps e.2) ?_ ?_
  · exact ⟨Frontend.orderly_load _ _ _ _, fun _ h => nomatch h⟩
  · rintro h s e - ⟨horderly, hkeeps⟩ - horder
    refine ⟨horderly.act horder, fun d hd => ?_⟩
    rcases List.mem_cons.mp hd with rfl | hd
    · exact horderly.keeps horder
    · exact hkeeps d hd

/-- A button without a link. -/
def button (id : String) : CommandButton := { id := id, label := id, kind := "cmd", value := id }

/-- One button is added after the other, and the second write is refused; the last event comes
first. -/
def sequence : List Event :=
  [.settle .items 1, .finish .items 1 (some "disk full"), .save (· ++ [button "b"]),
    .settle .items 0, .finish .items 0 none, .save (· ++ [button "a"])]

theorem stores_end_on_disk_sequence :
    (stores.play (Frontend.load ∅ [] [] ∅) sequence).2.Agrees ∧
      ∀ e ∈ (stores.play (Frontend.load ∅ [] [] ∅) sequence).1, e.1.Keeps e.2 := by
  have hplay : stores.Playable (fun _ s e => s.InOrder e) (Frontend.load ∅ [] [] ∅) sequence := by
    refine ⟨⟨⟨⟨⟨⟨trivial, trivial, trivial⟩, trivial, fun _ i hi => ?_⟩, trivial, fun _ => ?_⟩,
      trivial, trivial⟩, trivial, trivial⟩, trivial, fun _ => ?_⟩
    · exact absurd hi List.not_mem_nil
    · decide
    · decide
  exact stores_end_on_disk hplay.run

/-! ## Two writes that overlap -/

/-- Two buttons are added, the second write is stored, and then the first one is refused; the last
event comes first. -/
def overlap : List Event :=
  [.settle .items 0, .finish .items 0 (some "disk full"), .settle .items 1, .finish .items 1 none,
    .save (· ++ [button "b"]), .save (· ++ [button "a"])]

/-- The stored list is no longer shown: the refusal of the first write has undone the second. -/
theorem not_stores_end_on_disk :
    ¬ ∀ (settings : AppSettings) (items : List CommandButton) (activeTileIds : List String)
      (layouts : GoMap TileLayout) (h : Labelled.History Frontend Event) (s : Frontend),
      Labelled.Run stores Unrestricted (Frontend.load settings items activeTileIds layouts) h s →
        s.Agrees ∧ ∀ e ∈ h, e.1.Keeps e.2 := by
  intro h
  have hplay : stores.Playable Unrestricted (Frontend.load ∅ [] [] ∅) overlap := by
    simp [Labelled.System.Playable, overlap, stores, Unrestricted]
  have hagrees := (h ∅ [] [] ∅ _ _ hplay.run).1.items
  have hnone : (stores.play (Frontend.load ∅ [] [] ∅) overlap).2.items.inFlight = [] := by decide
  have hdiffer : (stores.play (Frontend.load ∅ [] [] ∅) overlap).2.items.shown.value ≠
      (stores.play (Frontend.load ∅ [] [] ∅) overlap).2.items.stored.value := by decide
  exact hdiffer (hagrees hnone)

end Konnekt.Stores

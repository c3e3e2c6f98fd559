import Mathlib.Data.List.Basic
import Konnekt.Go.Map

/-!
# Links of command buttons

`CommandsService` owns the list of buttons on disk. A linked button follows its original
in the shared file of Kommands, and is never created or removed for it.
-/

namespace Konnekt.Commands

open Go

/-! ## Command buttons

The entries of the Commands tile, as the backend and the frontend both have them. -/

/-- `CommandLink`: what binds a button to its original in another application. -/
structure CommandLink where
  source : String
  id : String
  revision : Int
  status : String
  deriving DecidableEq, Repr

/-- `CommandButton`. -/
structure CommandButton where
  id : String
  label : String
  kind : String
  value : String
  group : String := ""
  link : Option CommandLink := none
  deriving DecidableEq, Repr

/-- One command saved in Kommands; `revision` increments on every saved edit. -/
structure KommandsSavedCommand where
  id : String
  revision : Int
  label : String
  command : String
  updatedAt : Int := 0
  deriving DecidableEq, Repr

def linkStatusOK : String := "ok"

def linkStatusChanged : String := "changed"

def linkStatusBroken : String := "broken"

/-- The only source of links in use. -/
def linkSourceKommands : String := "kommands"

/-! ## The list on disk -/

/-- How the disk answers while a call reads the list and writes it back. -/
inductive Access where
  | granted
  | readFails (error : String)
  | writeFails (error : String)
  deriving DecidableEq, Repr

/-- `Save`: the whole list is replaced. -/
def save (items : List CommandButton) (access : Access) (stored : Option (List CommandButton)) :
    Option String × Option (List CommandButton) :=
  match access with
  | .writeFails error => (some error, stored)
  | _ => (none, some items)

/-- The steps of `SyncLinks` and `MarkLinksBroken`: the buttons of a seeded list that have to
change are changed, and the list is written when there is one. -/
def reconcile (f : CommandButton → Option CommandButton) (access : Access)
    (stored : Option (List CommandButton)) : Except String Bool × Option (List CommandButton) :=
  match access, stored with
  | .readFails error, _ => (.error error, stored)
  | _, none => (.ok false, none)
  | access, some items =>
    if items.any fun b => (f b).isSome then
      match save (items.map fun b => (f b).getD b) access stored with
      | (some error, stored') => (.error error, stored')
      | (none, stored') => (.ok true, stored')
    else (.ok false, stored)

/-! ## Following an original -/

/-- What a sync makes of a button, if it changes it. -/
def syncButton (byID : GoMap KommandsSavedCommand) (b : CommandButton) : Option CommandButton :=
  match b.link with
  | none => none
  | some link =>
    if link.source ≠ linkSourceKommands then none
    -- The value of any other kind is no text that a link could rewrite.
    else if b.kind ≠ "cmd" then none
    else
      match byID.lookup link.id with
      | none =>
        if link.status ≠ linkStatusBroken then
          some { b with link := some { link with status := linkStatusBroken } }
        else none
      | some orig =>
        if orig.revision ≠ link.revision then
          some { b with
            label := orig.label
            value := orig.command
            link := some { link with revision := orig.revision, status := linkStatusChanged } }
        else if link.status = linkStatusBroken then
          some { b with link := some { link with status := linkStatusOK } }
        else none

/-- `SyncLinks`. -/
def syncLinks (saved : List KommandsSavedCommand) :
    Access → Option (List CommandButton) → Except String Bool × Option (List CommandButton) :=
  reconcile (syncButton (.ofList (saved.map fun c => (c.id, c))))

/-- What a button becomes when the shared file is gone; links of every kind are marked. -/
def breakButton (b : CommandButton) : Option CommandButton :=
  match b.link with
  | none => none
  | some link =>
    if link.source ≠ linkSourceKommands then none
    else if link.status = linkStatusBroken then none
    else some { b with link := some { link with status := linkStatusBroken } }

/-- `MarkLinksBroken`. -/
def markLinksBroken :
    Access → Option (List CommandButton) → Except String Bool × Option (List CommandButton) :=
  reconcile breakButton

end Konnekt.Commands

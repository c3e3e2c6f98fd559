import Konnekt.Go.Map
import Konnekt.Go.Text

/-!
# Backup metadata

`meta.json` of a backup folder maps archive names to what is recorded about them.
Each operation loads the whole map, changes the entry of one archive and saves
the map again.
-/

namespace Konnekt.Backup

open Go

/-- `backupFileMeta`. -/
structure BackupFileMeta where
  displayName : String := ""
  tags : List String := []
  /-- The archive lacks the Distant Horizons databases. -/
  lodsSkipped : Bool := false
  deriving DecidableEq, Repr

/-- The entries of a `meta.json`. -/
abbrev Meta := GoMap BackupFileMeta

/-- `loadMeta`: a file that is missing or does not parse has no entries. -/
def loadMeta (file : Option Meta) : Meta := file.getD ∅

/-- The entry of an archive, empty when there is none. -/
def metaOf (m : Meta) (filename : String) : BackupFileMeta := (m.lookup filename).getD {}

/-- The tags as `UpdateBackupMeta` stores them: without a leading `#`, trimmed, none empty. -/
def sanitizeTags (tags : List String) : List String :=
  (tags.map fun t => trimSpace (trimPrefix t "#")).filter (· ≠ "")

/-- An operation on the metadata of an archive. -/
inductive MetaCall where
  /-- `UpdateBackupMeta`. -/
  | updateBackupMeta (filename displayName : String) (tags : List String)
  /-- `DeleteBackup`. -/
  | deleteBackup (filename : String)
  /-- `finishLods` of a copy that left databases out. -/
  | finishLods (filename : String)
  deriving DecidableEq

namespace MetaCall

/-- The archive a call names. -/
def filename : MetaCall → String
  | updateBackupMeta filename _ _ | deleteBackup filename | finishLods filename => filename

/-- What a call makes of the map it loaded. -/
def apply : MetaCall → Meta → Meta
  | updateBackupMeta filename displayName tags, m =>
    -- the entry is replaced whole, so the flag is carried across
    m.insert filename
      { displayName := trimSpace displayName
        tags := sanitizeTags tags
        lodsSkipped := (metaOf m filename).lodsSkipped }
  | deleteBackup filename, m => m.erase filename
  | finishLods filename, m => m.insert filename { metaOf m filename with lodsSkipped := true }

/-- What a call saves to the file, having loaded it. -/
def save (call : MetaCall) (file : Option Meta) : Option Meta := some (call.apply (loadMeta file))

/-- A call leaves the entries of the other archives alone. -/
theorem lookup_apply_of_ne {call : MetaCall} {other : String} (h : other ≠ call.filename)
    (m : Meta) : (call.apply m).lookup other = m.lookup other := by
  cases call with
  | updateBackupMeta name displayName tags => exact AList.lookup_insert_ne h
  | deleteBackup name => exact AList.lookup_erase_ne h
  | finishLods name => exact AList.lookup_insert_ne h

end MetaCall

end Konnekt.Backup

import Konnekt.Backup.Meta
import Konnekt.Run.ReadModifyWrite

/-!
# Concurrent changes of the backup metadata

Nothing orders the load and the save of one call against those of another. Calls
on different archives keep each other's entries as long as `meta.json` is still
what a call loaded when it saves; a call that saves an older map takes back what
was saved in between.
-/

namespace Konnekt.Backup

open Relation ReadModifyWrite

/-- The steps of concurrent calls on one folder. -/
def MetaStep (allowed : State (Option Meta) MetaCall → MetaCall × Option Meta → Prop) :
    State (Option Meta) MetaCall → State (Option Meta) MetaCall → Prop :=
  Step MetaCall.save allowed

/-- What a call is to leave in the file. -/
def MetaCall.Recorded (m : Meta) : MetaCall → Prop
  | .updateBackupMeta filename displayName tags =>
    ∃ e, m.lookup filename = some e ∧ e.displayName = Go.trimSpace displayName ∧
      e.tags = sanitizeTags tags
  | .deleteBackup filename => m.lookup filename = none
  | .finishLods filename => ∃ e, m.lookup filename = some e ∧ e.lodsSkipped = true

theorem MetaCall.recorded_apply (call : MetaCall) (m : Meta) : call.Recorded (call.apply m) := by
  cases call with
  | updateBackupMeta filename displayName tags => exact ⟨_, AList.lookup_insert m, rfl, rfl⟩
  | deleteBackup filename => exact AList.lookup_erase filename m
  | finishLods filename => exact ⟨_, AList.lookup_insert m, rfl⟩

/-- Whether a call is recorded depends on its own entry. -/
theorem MetaCall.recorded_congr {call : MetaCall} {m m' : Meta}
    (h : m'.lookup call.filename = m.lookup call.filename) :
    call.Recorded m' ↔ call.Recorded m := by
  cases call <;> simp only [Recorded, filename] at h ⊢ <;> rw [h]

/-- Calls on other archives leave what is recorded. -/
theorem recorded_foldl_of_ne {call : MetaCall} {calls : List MetaCall} {file : Option Meta}
    (hne : ∀ c ∈ calls, call.filename ≠ c.filename) (h : call.Recorded (loadMeta file)) :
    call.Recorded (loadMeta (calls.foldl (fun v k => k.save v) file)) := by
  induction calls generalizing file with
  | nil => exact h
  | cons c calls ih =>
    refine ih (fun d hd => hne d (List.mem_cons_of_mem _ hd)) ?_
    have hlookup := MetaCall.lookup_apply_of_ne (hne c List.mem_cons_self) (loadMeta file)
    exact (MetaCall.recorded_congr hlookup).2 h

/-- Calls on different archives made one after the other are all recorded. -/
theorem recorded_foldl {calls : List MetaCall} (hnames : (calls.map MetaCall.filename).Nodup)
    (file : Option Meta) : ∀ call ∈ calls,
      call.Recorded (loadMeta (calls.foldl (fun v k => k.save v) file)) := by
  induction calls generalizing file with
  | nil => exact fun call h => absurd h List.not_mem_nil
  | cons c calls ih =>
    rw [List.map_cons, List.nodup_cons] at hnames
    intro call hcall
    rcases List.mem_cons.1 hcall with rfl | hrest
    · have hne : ∀ d ∈ calls, call.filename ≠ d.filename := by
        intro d hd heq
        exact hnames.1 (heq ▸ List.mem_map_of_mem hd)
      rw [List.foldl_cons]
      exact recorded_foldl_of_ne hne (call.recorded_apply _)
    · exact ih hnames.2 _ call hrest

/-- Once all calls have returned, each has left its mark. -/
def AllRecorded (calls : List MetaCall) (s : State (Option Meta) MetaCall) : Prop :=
  s.waiting = [] → s.opened = [] → ∀ call ∈ calls, call.Recorded (loadMeta s.file)

/-- In every run of calls on different archives in which no call saves after the file has
changed since it was loaded, all calls are recorded. -/
theorem allRecorded_of_current {file : Option Meta} {calls : List MetaCall}
    {s : State (Option Meta) MetaCall} (hnames : (calls.map MetaCall.filename).Nodup)
    (hrun : ReflTransGen (MetaStep Current) (State.initial file calls) s) :
    AllRecorded calls s := by
  intro hwaiting hopened call hcall
  obtain ⟨order, hperm, hfile⟩ := exists_order hrun hwaiting hopened
  rw [hfile]
  exact recorded_foldl ((hperm.map _).nodup_iff.2 hnames) file call (hperm.mem_iff.2 hcall)

/-! ## A rename during a backup -/

/-- A rename of one archive while the end of a running backup records another. -/
def renameCalls : List MetaCall :=
  [.updateBackupMeta "a.zip" "Before the update" ["safe"], .finishLods "b.zip"]

/-- The rename saves the map it loaded before the flag was recorded. -/
def overwrittenState : State (Option Meta) MetaCall where
  file := (MetaCall.updateBackupMeta "a.zip" "Before the update" ["safe"]).save none
  waiting := []
  opened := []
  done := [.finishLods "b.zip", .updateBackupMeta "a.zip" "Before the update" ["safe"]]

/-- The flag of the new archive is lost when the rename read first and writes last. -/
theorem not_allRecorded_overwritten :
    (renameCalls.map MetaCall.filename).Nodup ∧
      ReflTransGen (MetaStep Unordered) (State.initial none renameCalls) overwrittenState ∧
      ¬ AllRecorded renameCalls overwrittenState := by
  refine ⟨by decide, ?_, fun h => ?_⟩
  · refine .head (.read [] _ _ rfl) (.head (.read [] _ _ rfl) ?_)
    exact .head (.write [_] _ _ [] rfl trivial) (.single (.write [] _ _ [] rfl trivial))
  · obtain ⟨e, he, -⟩ := h rfl rfl (.finishLods "b.zip") (by decide)
    cases he

/-- The same calls one after the other. -/
theorem allRecorded_of_current_sequential : ∃ s, AllRecorded renameCalls s ∧
    s.done = renameCalls := by
  have hrun : ReflTransGen (MetaStep Current) (State.initial none renameCalls)
      ⟨renameCalls.foldl (fun v k => k.save v) none, [], [], renameCalls⟩ := by
    refine .head (.read [] _ _ rfl) (.head (.write [] _ _ [] rfl rfl) ?_)
    exact .head (.read [] _ _ rfl) (.single (.write [] _ _ [] rfl rfl))
  exact ⟨_, allRecorded_of_current (by decide) hrun, rfl⟩

end Konnekt.Backup

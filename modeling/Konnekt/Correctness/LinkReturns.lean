import Konnekt.Correctness.LinkedButtons

/-!
# A shared file that goes and comes back

While the file of Kommands is gone every linked button is marked broken, and once it is
back a sync takes the marks off again. What the mark has overwritten is not restored: a
badge that was waiting to be seen is gone, and a button that follows no text stays marked.
-/

namespace Konnekt.Commands

open Go

/-- A disk that does not refuse has every button changed that has to change. -/
theorem reconcile_granted (f : CommandButton → Option CommandButton) (items : List CommandButton) :
    (reconcile f .granted (some items)).2 = some (items.map fun b => (f b).getD b) := by
  cases h : reconcile f .granted (some items) with
  | mk r stored =>
    cases r with
    | error error => exact absurd rfl (reconcile_error h).1
    | ok changed => exact reconcile_ok h

/-! ## Calls -/

/-- The two calls a poll makes for the buttons. -/
inductive LinkCall where
  | markLinksBroken
  | syncLinks (saved : List KommandsSavedCommand)

namespace LinkCall

/-- A call, with a disk that does not refuse it. -/
def run : LinkCall → Option (List CommandButton) → Except String Bool × Option (List CommandButton)
  | .markLinksBroken => Commands.markLinksBroken .granted
  | .syncLinks saved => Commands.syncLinks saved .granted

/-- The list after some calls. -/
def after (calls : List LinkCall) (stored : Option (List CommandButton)) :
    Option (List CommandButton) :=
  calls.foldl (fun stored c => (c.run stored).2) stored

/-- What a call makes of one button. -/
def button : LinkCall → CommandButton → CommandButton
  | .markLinksBroken, b => (breakButton b).getD b
  | .syncLinks saved, b => (syncButton (byID saved) b).getD b

/-- The entry a call finds for an original. -/
def entry : LinkCall → String → Option KommandsSavedCommand
  | .markLinksBroken, _ => none
  | .syncLinks saved, id => (byID saved).lookup id

/-- One button after some calls. -/
def buttonAfter (calls : List LinkCall) (b : CommandButton) : CommandButton :=
  calls.foldl (fun b c => c.button b) b

theorem run_some (c : LinkCall) (items : List CommandButton) :
    (c.run (some items)).2 = some (items.map c.button) := by
  cases c with
  | markLinksBroken => exact reconcile_granted _ items
  | syncLinks saved => exact reconcile_granted _ items

theorem after_some (calls : List LinkCall) (items : List CommandButton) :
    after calls (some items) = some (items.map (buttonAfter calls)) := by
  induction calls generalizing items with
  | nil => exact congrArg some (List.map_id items).symm
  | cons c calls ih =>
    have hrest := ih (items.map c.button)
    rw [List.map_map] at hrest
    rw [after, List.foldl_cons, run_some]
    exact hrest

end LinkCall

/-! ## Without a trace -/

/-- A button says this about its link. -/
def CommandButton.Says (b : CommandButton) (status : String) : Prop :=
  ∃ link, b.link = some link ∧ link.status = status

/-- No badge that says changed is cleared by the calls, in any of the lists on the way. -/
def BadgesKept (items : List CommandButton) (calls : List LinkCall) : Prop :=
  ∀ before after, calls = before ++ after → ∀ b ∈ items, b.Says linkStatusChanged →
    ¬ (LinkCall.buttonAfter before b).Says linkStatusOK

/-- A mark does no harm to the button: it has one, or a sync takes it off again. -/
def Unharmed (saved : List KommandsSavedCommand) (b : CommandButton) : Prop :=
  ∀ link, b.link = some link → link.source = linkSourceKommands →
    (b.kind ≠ "cmd" → link.status = linkStatusBroken) ∧
    (b.kind = "cmd" → ∀ e, (byID saved).lookup link.id = some e → e.revision = link.revision →
      link.status = linkStatusOK ∨ link.status = linkStatusBroken)

/-- The revision of an original once some calls have looked for it. -/
def lastRevision (id : String) (revision : Int) (calls : List LinkCall) : Int :=
  calls.foldl (fun r c => ((c.entry id).map (·.revision)).getD r) revision

/-- An original that some calls do not find has moved on when it is found again. -/
def MovesWhileGone (id : String) (revision : Int) (calls : List LinkCall) : Prop :=
  ∀ before gone c after e, calls = before ++ gone ++ c :: after → gone ≠ [] →
    (∀ c' ∈ gone, c'.entry id = none) → c.entry id = some e →
      e.revision ≠ lastRevision id revision before

/-! ## One button -/

section

variable {b : CommandButton} {link : CommandLink} {saved : List KommandsSavedCommand}

/-- What a sync does to a button that follows its original. -/
theorem button_syncLinks (h : b.Follows link) : (LinkCall.syncLinks saved).button b =
    match (byID saved).lookup link.id with
    | none => { b with link := some { link with status := linkStatusBroken } }
    | some e =>
      if e.revision ≠ link.revision then
        { b with
          label := e.label
          value := e.command
          link := some { link with revision := e.revision, status := linkStatusChanged } }
      else if link.status = linkStatusBroken then
        { b with link := some { link with status := linkStatusOK } }
      else b := by
  obtain ⟨id, label, kind, value, group, link'⟩ := b
  obtain ⟨source, target, revision, status⟩ := link
  obtain ⟨rfl, rfl, rfl⟩ := h
  simp only [LinkCall.button, syncButton, ne_eq, not_true_eq_false, if_false]
  cases (byID saved).lookup target with
  | none => by_cases hstatus : status = linkStatusBroken <;> simp [hstatus]
  | some e =>
    by_cases hrevision : e.revision = revision
    · by_cases hstatus : status = linkStatusBroken <;> simp [hrevision, hstatus]
    · simp [hrevision]

/-- A button that follows nothing is left alone by a sync. -/
theorem button_syncLinks_of_not (h : ∀ link, ¬ b.Follows link) :
    (LinkCall.syncLinks saved).button b = b := by
  simp only [LinkCall.button, syncButton]
  cases hlink : b.link with
  | none => rfl
  | some link =>
    by_cases hsource : link.source = linkSourceKommands
    · by_cases hkind : b.kind = "cmd"
      · exact absurd ⟨hkind, hlink, hsource⟩ (h link)
      · simp [hsource, hkind]
    · simp [hsource]

/-- A link to Kommands is marked. -/
theorem button_markLinksBroken (hlink : b.link = some link)
    (hsource : link.source = linkSourceKommands) : LinkCall.markLinksBroken.button b =
      { b with link := some { link with status := linkStatusBroken } } := by
  obtain ⟨id, label, kind, value, group, link'⟩ := b
  obtain ⟨source, target, revision, status⟩ := link
  dsimp only at hlink hsource
  subst hlink hsource
  simp only [LinkCall.button, breakButton, ne_eq, not_true_eq_false, if_false]
  by_cases hstatus : status = linkStatusBroken <;> simp [hstatus]

/-- A button without a link to Kommands is not marked. -/
theorem button_markLinksBroken_of_not
    (h : ∀ link, b.link = some link → link.source ≠ linkSourceKommands) :
    LinkCall.markLinksBroken.button b = b := by
  simp only [LinkCall.button, breakButton]
  cases hlink : b.link with
  | none => rfl
  | some link => simp [h link hlink]

/-- Marking before a sync makes no difference exactly to a button that is unharmed by it. -/
theorem button_mark_sync_iff :
    (LinkCall.syncLinks saved).button (LinkCall.markLinksBroken.button b) =
      (LinkCall.syncLinks saved).button b ↔ Unharmed saved b := by
  by_cases hkommands : ∃ link, b.link = some link ∧ link.source = linkSourceKommands
  · obtain ⟨link, hlink, hsource⟩ := hkommands
    have hunharmed : Unharmed saved b ↔ (b.kind ≠ "cmd" → link.status = linkStatusBroken) ∧
        (b.kind = "cmd" → ∀ e, (byID saved).lookup link.id = some e → e.revision = link.revision →
          link.status = linkStatusOK ∨ link.status = linkStatusBroken) := by
      simp [Unharmed, hlink, hsource]
    rw [hunharmed, button_markLinksBroken hlink hsource]
    by_cases hkind : b.kind = "cmd"
    · have hfollows : b.Follows link := ⟨hkind, hlink, hsource⟩
      have hmarked : ({ b with link := some { link with status := linkStatusBroken } } :
          CommandButton).Follows { link with status := linkStatusBroken } := ⟨hkind, rfl, hsource⟩
      rw [button_syncLinks hfollows, button_syncLinks hmarked]
      dsimp only
      cases (byID saved).lookup link.id with
      | none => simp [hkind]
      | some e =>
        by_cases hrevision : e.revision = link.revision
        · by_cases hstatus : link.status = linkStatusBroken
          · simp [hkind, hrevision, hstatus]
          · obtain ⟨id, label, kind, value, group, link'⟩ := b
            dsimp only at hlink hkind
            subst hlink hkind
            obtain ⟨source, target, revision, status⟩ := link
            dsimp only at hrevision hstatus
            simp [hrevision, hstatus, eq_comm]
        · simp [hkind, hrevision]
    · have hmarked : ∀ l, ¬ ({ b with link := some { link with status := linkStatusBroken } } :
          CommandButton).Follows l := fun l h => hkind h.1
      rw [button_syncLinks_of_not hmarked, button_syncLinks_of_not fun l h => hkind h.1]
      obtain ⟨id, label, kind, value, group, link'⟩ := b
      dsimp only at hlink hkind
      subst hlink
      obtain ⟨source, target, revision, status⟩ := link
      simp [hkind, eq_comm]
  · have hnone : ∀ link, b.link = some link → link.source ≠ linkSourceKommands :=
      fun link hlink hsource => hkommands ⟨link, hlink, hsource⟩
    rw [button_markLinksBroken_of_not hnone]
    exact iff_of_true rfl fun link hlink hsource => absurd hsource (hnone link hlink)

/-- A sync leaves nothing to do for the same entries. -/
theorem syncButton_button :
    syncButton (byID saved) ((LinkCall.syncLinks saved).button b) = none := by
  by_cases hfollows : ∃ link, b.Follows link
  · obtain ⟨link, hfollows⟩ := hfollows
    rw [button_syncLinks hfollows]
    obtain ⟨hkind, hlink, hsource⟩ := hfollows
    have hne : linkStatusChanged ≠ linkStatusBroken := by decide
    have hne' : linkStatusOK ≠ linkStatusBroken := by decide
    cases hentry : (byID saved).lookup link.id with
    | none => simp [syncButton, hkind, hsource, hentry]
    | some e =>
      by_cases hrevision : e.revision = link.revision
      · by_cases hstatus : link.status = linkStatusBroken
        · simp [syncButton, hkind, hsource, hentry, hrevision, hstatus, hne']
        · simp [syncButton, hkind, hsource, hentry, hrevision, hstatus, hlink]
      · simp [syncButton, hkind, hsource, hentry, hrevision, hne]
  · have hnot : ∀ link, ¬ b.Follows link := fun link h => hfollows ⟨link, h⟩
    rw [button_syncLinks_of_not hnot]
    simp only [syncButton]
    cases hlink : b.link with
    | none => rfl
    | some link =>
      by_cases hsource : link.source = linkSourceKommands
      · by_cases hkind : b.kind = "cmd"
        · exact absurd ⟨hkind, hlink, hsource⟩ (hnot link)
        · simp [hsource, hkind]
      · simp [hsource]

end

/-! ## A badge through some calls -/

/-- A button follows an original with this revision and status. -/
def CommandButton.Tracks (b : CommandButton) (id : String) (revision : Int) (status : String) :
    Prop :=
  ∃ link, b.Follows link ∧ link.id = id ∧ link.revision = revision ∧ link.status = status

/-- What a call makes of the revision and the status of a link. -/
def LinkCall.track (c : LinkCall) (id : String) (revision : Int) (status : String) :
    Int × String :=
  match c.entry id with
  | none => (revision, linkStatusBroken)
  | some e =>
    if e.revision ≠ revision then (e.revision, linkStatusChanged)
    else if status = linkStatusBroken then (revision, linkStatusOK)
    else (revision, status)

section

variable {b : CommandButton} {id status : String} {revision : Int}

theorem CommandButton.Tracks.button (h : b.Tracks id revision status) (c : LinkCall) :
    (c.button b).Tracks id (c.track id revision status).1 (c.track id revision status).2 := by
  obtain ⟨link, hfollows, rfl, rfl, rfl⟩ := h
  cases c with
  | markLinksBroken =>
    rw [button_markLinksBroken hfollows.2.1 hfollows.2.2]
    exact ⟨_, ⟨hfollows.1, rfl, hfollows.2.2⟩, rfl, rfl, rfl⟩
  | syncLinks saved =>
    rw [button_syncLinks hfollows]
    simp only [LinkCall.track, LinkCall.entry]
    cases hentry : (byID saved).lookup link.id with
    | none => exact ⟨_, ⟨hfollows.1, rfl, hfollows.2.2⟩, rfl, rfl, rfl⟩
    | some e =>
      dsimp only
      split
      · exact ⟨_, ⟨hfollows.1, rfl, hfollows.2.2⟩, rfl, rfl, rfl⟩
      · split
        · exact ⟨_, ⟨hfollows.1, rfl, hfollows.2.2⟩, rfl, rfl, rfl⟩
        · exact ⟨link, hfollows, rfl, rfl, rfl⟩

theorem CommandButton.Tracks.says_iff (h : b.Tracks id revision status) (other : String) :
    b.Says other ↔ status = other := by
  obtain ⟨link, ⟨-, hlink, -⟩, -, -, rfl⟩ := h
  simp [CommandButton.Says, hlink]

/-- The revision after a call is that of the entry it finds. -/
theorem track_fst (c : LinkCall) : (c.track id revision status).1 =
    ((c.entry id).map (·.revision)).getD revision := by
  unfold LinkCall.track
  cases c.entry id with
  | none => rfl
  | some e =>
    by_cases hrevision : e.revision = revision
    · by_cases hstatus : status = linkStatusBroken <;> simp [hrevision, hstatus]
    · simp [hrevision]

theorem lastRevision_append (calls calls' : List LinkCall) :
    lastRevision id revision (calls ++ calls') =
      lastRevision id (lastRevision id revision calls) calls' :=
  List.foldl_append

theorem lastRevision_of_gone {gone : List LinkCall} (h : ∀ c ∈ gone, c.entry id = none) :
    lastRevision id revision gone = revision := by
  induction gone with
  | nil => rfl
  | cons c gone ih =>
    rw [lastRevision, List.foldl_cons, h c List.mem_cons_self]
    exact ih fun c' hc' => h c' (List.mem_cons_of_mem _ hc')

theorem buttonAfter_append (calls calls' : List LinkCall) (b : CommandButton) :
    LinkCall.buttonAfter (calls ++ calls') b =
      LinkCall.buttonAfter calls' (LinkCall.buttonAfter calls b) :=
  List.foldl_append

/-- The revision a button carries is the last one its entry was found at. -/
theorem CommandButton.Tracks.after (h : b.Tracks id revision status) (calls : List LinkCall) :
    ∃ status', (LinkCall.buttonAfter calls b).Tracks id (lastRevision id revision calls) status' := by
  induction calls generalizing b revision status with
  | nil => exact ⟨status, h⟩
  | cons c calls ih =>
    have hrest := ih (h.button c)
    rwa [track_fst] at hrest

/-- Calls that do not find the entry leave the mark. -/
theorem CommandButton.Tracks.gone (h : b.Tracks id revision status) {gone : List LinkCall}
    (hne : gone ≠ []) (hgone : ∀ c ∈ gone, c.entry id = none) :
    (LinkCall.buttonAfter gone b).Tracks id revision linkStatusBroken := by
  induction gone generalizing b status with
  | nil => exact absurd rfl hne
  | cons c gone ih =>
    have hstep := h.button c
    simp only [LinkCall.track, hgone c List.mem_cons_self] at hstep
    cases gone with
    | nil => exact hstep
    | cons c' gone => exact ih hstep nofun fun d hd => hgone d (List.mem_cons_of_mem _ hd)

/-- Through some calls a badge says changed, or the mark that the calls have left which did not
find the entry. -/
theorem CommandButton.Tracks.waits (h : b.Tracks id revision linkStatusChanged)
    {calls : List LinkCall} (hmoves : MovesWhileGone id revision calls) (before : List LinkCall) :
    ∀ after, calls = before ++ after → ∃ status',
      (LinkCall.buttonAfter before b).Tracks id (lastRevision id revision before) status' ∧
      (status' = linkStatusChanged ∨ status' = linkStatusBroken ∧ ∃ found gone,
        before = found ++ gone ∧ gone ≠ [] ∧ ∀ c ∈ gone, c.entry id = none) := by
  induction before using List.reverseRecOn with
  | nil => exact fun after _ => ⟨_, h, .inl rfl⟩
  | append_singleton before c ih =>
    intro after hsplit
    rw [List.append_assoc] at hsplit
    obtain ⟨status', htracks, hstatus⟩ := ih _ hsplit
    have hstep := htracks.button c
    rw [track_fst] at hstep
    have hrevision : lastRevision id revision (before ++ [c]) =
        ((c.entry id).map (·.revision)).getD (lastRevision id revision before) := by
      rw [lastRevision_append]
      rfl
    rw [buttonAfter_append, hrevision]
    refine ⟨_, hstep, ?_⟩
    unfold LinkCall.track
    cases hentry : c.entry id with
    | none =>
      refine .inr ⟨rfl, ?_⟩
      rcases hstatus with - | ⟨-, found, gone, rfl, hne, hgone⟩
      · exact ⟨before, [c], rfl, nofun, fun c' hc' => by rwa [List.mem_singleton.1 hc']⟩
      · refine ⟨found, gone ++ [c], List.append_assoc .., by simp, ?_⟩
        intro c' hc'
        rcases List.mem_append.1 hc' with hc' | hc'
        · exact hgone c' hc'
        · rwa [List.mem_singleton.1 hc']
    | some e =>
      dsimp only
      by_cases hmoved : e.revision = lastRevision id revision before
      · -- found where it was: the badge is still there, as it has not been gone
        rcases hstatus with rfl | ⟨rfl, found, gone, rfl, hne, hgone⟩
        · rw [if_neg (not_not.2 hmoved), if_neg (by decide)]
          exact .inl rfl
        · rw [lastRevision_append, lastRevision_of_gone hgone] at hmoved
          exact absurd hmoved (hmoves found gone c after e hsplit hne hgone hentry)
      · rw [if_pos hmoved]
        exact .inl rfl

/-- A badge is kept exactly if its entry never comes back where it was. -/
theorem CommandButton.Tracks.kept_iff (h : b.Tracks id revision linkStatusChanged)
    (calls : List LinkCall) : (∀ before after, calls = before ++ after →
      ¬ (LinkCall.buttonAfter before b).Says linkStatusOK) ↔ MovesWhileGone id revision calls := by
  constructor
  · intro hkept before gone c after e hsplit hne hgone hentry hback
    obtain ⟨status', htracks⟩ := h.after before
    have hstep := (htracks.gone hne hgone).button c
    simp only [LinkCall.track, hentry, hback, ne_eq, not_true_eq_false, if_false, if_true] at hstep
    refine hkept (before ++ gone ++ [c]) after (by simp [hsplit]) ?_
    rw [buttonAfter_append, buttonAfter_append]
    exact (hstep.says_iff _).2 rfl
  · intro hmoves before after hsplit hok
    obtain ⟨status', htracks, hstatus⟩ := h.waits hmoves before after hsplit
    rw [htracks.says_iff] at hok
    rcases hstatus with rfl | ⟨rfl, -⟩
    · exact absurd hok (by decide)
    · exact absurd hok (by decide)

/-- The badge of a button that follows nothing is never cleared. -/
theorem not_says_ok_of_not_follows (hnot : ∀ link, ¬ b.Follows link)
    (hstatus : ¬ b.Says linkStatusOK) (calls : List LinkCall) :
    ¬ (LinkCall.buttonAfter calls b).Says linkStatusOK := by
  induction calls generalizing b with
  | nil => exact hstatus
  | cons c calls ih =>
    cases c with
    | syncLinks saved =>
      have hsame := @button_syncLinks_of_not b saved hnot
      rw [LinkCall.buttonAfter, List.foldl_cons, hsame]
      exact ih hnot hstatus
    | markLinksBroken =>
      rw [LinkCall.buttonAfter, List.foldl_cons]
      by_cases hkommands : ∃ link, b.link = some link ∧ link.source = linkSourceKommands
      · obtain ⟨link, hlink, hsource⟩ := hkommands
        have hkind : b.kind ≠ "cmd" := fun hkind => hnot link ⟨hkind, hlink, hsource⟩
        rw [button_markLinksBroken hlink hsource]
        refine ih (fun l h => hkind h.1) ?_
        rintro ⟨l, hl, hok⟩
        cases hl
        exact absurd (show linkStatusBroken = linkStatusOK from hok) (by decide)
      · rw [button_markLinksBroken_of_not fun link hlink hsource => hkommands ⟨link, hlink, hsource⟩]
        exact ih hnot hstatus

end

/-! ## All the buttons -/

/-- A file that goes and comes back leaves the buttons as a sync alone does, a second sync has
nothing to do, and no badge is cleared, exactly if a mark harms no button and no entry comes
back where its badge was left. -/
theorem links_leave_no_trace_iff (items : List CommandButton) (saved : List KommandsSavedCommand)
    (calls : List LinkCall) :
    ((syncLinks saved .granted (markLinksBroken .granted (some items)).2).2 =
        (syncLinks saved .granted (some items)).2 ∧
      syncLinks saved .granted (syncLinks saved .granted (some items)).2 =
        (.ok false, (syncLinks saved .granted (some items)).2) ∧
      BadgesKept items calls) ↔
    (∀ b ∈ items, Unharmed saved b) ∧
      ∀ b ∈ items, ∀ link, b.Follows link → link.status = linkStatusChanged →
        MovesWhileGone link.id link.revision calls := by
  have hsync : ∀ items, (syncLinks saved .granted (some items)).2 =
      some (items.map (LinkCall.syncLinks saved).button) := LinkCall.run_some (.syncLinks saved)
  have hmark : (markLinksBroken .granted (some items)).2 =
      some (items.map LinkCall.markLinksBroken.button) := LinkCall.run_some .markLinksBroken items
  have hagain : syncLinks saved .granted (syncLinks saved .granted (some items)).2 =
      (.ok false, (syncLinks saved .granted (some items)).2) := by
    rw [hsync]
    refine if_neg ?_
    simp only [List.any_map, List.any_eq_true, not_exists, not_and]
    intro b _ hsome
    rw [Function.comp_apply] at hsome
    have hnone : syncButton (byID saved) ((LinkCall.syncLinks saved).button b) = none :=
      syncButton_button
    rw [byID] at hnone
    rw [hnone] at hsome
    cases hsome
  have htrace : (syncLinks saved .granted (markLinksBroken .granted (some items)).2).2 =
      (syncLinks saved .granted (some items)).2 ↔ ∀ b ∈ items, Unharmed saved b := by
    rw [hmark, hsync, hsync, List.map_map, Option.some.injEq, List.map_inj_left]
    simp only [Function.comp_apply, button_mark_sync_iff]
  have hbadges : BadgesKept items calls ↔ ∀ b ∈ items, ∀ link, b.Follows link →
      link.status = linkStatusChanged → MovesWhileGone link.id link.revision calls := by
    constructor
    · intro hkept b hb link hfollows hstatus
      have htracks : b.Tracks link.id link.revision linkStatusChanged :=
        ⟨link, hfollows, rfl, rfl, hstatus⟩
      exact (htracks.kept_iff calls).1 fun before after hsplit =>
        hkept before after hsplit b hb ⟨link, hfollows.2.1, hstatus⟩
    · rintro hmoves before after hsplit b hb ⟨link, hlink, hstatus⟩
      by_cases hfollows : b.Follows link
      · have htracks : b.Tracks link.id link.revision linkStatusChanged :=
          ⟨link, hfollows, rfl, rfl, hstatus⟩
        exact (htracks.kept_iff calls).2 (hmoves b hb link hfollows hstatus) before after hsplit
      · have hnot : ∀ l, ¬ b.Follows l := by
          intro l h
          rw [Option.some.inj (h.2.1.symm.trans hlink)] at h
          exact hfollows h
        refine not_says_ok_of_not_follows hnot ?_ before
        rintro ⟨l, hl, hok⟩
        rw [Option.some.inj (hl.symm.trans hlink), hstatus] at hok
        exact absurd hok (by decide)
  rw [htrace, hbadges]
  exact ⟨fun h => ⟨h.1, h.2.2⟩, fun h => ⟨h.1, hagain, h.2⟩⟩

/-! ## A badge that is lost -/

/-- A command whose original has changed, which the user has not seen yet. -/
def changedButton : CommandButton where
  id := "b1"
  label := "Day"
  kind := "cmd"
  value := "time set day"
  link := some ⟨linkSourceKommands, "c1", 3, linkStatusChanged⟩

/-- The badge waits for as long as the file is there, and is gone once the file has been away. -/
theorem not_links_leave_no_trace : ¬ ((syncLinks [⟨"c1", 3, "Day", "time set day", 0⟩] .granted
    (markLinksBroken .granted (some [changedButton])).2).2 =
      (syncLinks [⟨"c1", 3, "Day", "time set day", 0⟩] .granted (some [changedButton])).2) := by
  decide

end Konnekt.Commands

import Mathlib
import Konnekt.Commands.Polling

/-!
# Linked buttons and the shared file

A poll remembers the time and size of the file before the buttons are synced, and later
polls leave a file alone that is as remembered. As long as nothing stale or refused is
left behind once the file is remembered, a poll that returns leaves every linked button
in step with the file.
-/

namespace Konnekt.Commands

open Go

variable {text : String → Int → String × String} {entries : List KommandsSavedCommand}
variable {b : CommandButton} {link : CommandLink}

/-! ## Buttons and entries -/

/-- The button is a command that follows a link to Kommands. -/
def CommandButton.Follows (b : CommandButton) (link : CommandLink) : Prop :=
  b.kind = "cmd" ∧ b.link = some link ∧ link.source = linkSourceKommands

/-- A linked command button has the label, command and revision of its entry, and is marked broken
without one. -/
def InStep (entries : List KommandsSavedCommand) (b : CommandButton) : Prop :=
  ∀ link, b.Follows link →
    (∀ c ∈ entries, c.id = link.id →
      b.label = c.label ∧ b.value = c.command ∧ link.revision = c.revision) ∧
    ((∀ c ∈ entries, c.id ≠ link.id) → link.status = linkStatusBroken)

/-- A linked command button carries the revision of its entry, and the mark without one. -/
def UpToDate (entries : List KommandsSavedCommand) (b : CommandButton) : Prop :=
  ∀ link, b.Follows link →
    (∀ c ∈ entries, c.id = link.id → link.revision = c.revision) ∧
    ((∀ c ∈ entries, c.id ≠ link.id) → link.status = linkStatusBroken)

/-- A linked command button has the words of the revision it carries. -/
def CommandButton.Worded (text : String → Int → String × String) (b : CommandButton) : Prop :=
  ∀ link, b.Follows link → (b.label, b.value) = cleanText (text link.id link.revision)

/-- An entry that has been kept has the words of its revision. -/
def KommandsSavedCommand.Worded (text : String → Int → String × String)
    (c : KommandsSavedCommand) : Prop :=
  (c.label, c.command) = cleanText (text c.id c.revision)

/-- Every saved edit of Kommands increments the revision: an id and a revision tell the text. -/
def KommandsFile.Numbered (text : String → Int → String × String) (f : KommandsFile) : Prop :=
  ∀ c ∈ f.commands, (c.label, c.command) = text c.id c.revision

theorem inStep_of_upToDate (hb : b.Worded text) (hentries : ∀ c ∈ entries, c.Worded text)
    (h : UpToDate entries b) : InStep entries b := by
  intro link hlink
  refine ⟨fun c hc hid => ?_, (h link hlink).2⟩
  have hrevision := (h link hlink).1 c hc hid
  have hwords := hb link hlink
  rw [← hid, hrevision, ← hentries c hc] at hwords
  obtain ⟨hlabel, hvalue⟩ := Prod.mk.inj hwords
  exact ⟨hlabel, hvalue, hrevision⟩

/-! ## The entries that are kept -/

theorem sanitizeFrom_spec (seen : List String) (cs : List KommandsSavedCommand) :
    (∀ d ∈ (sanitizeFrom seen cs).1, d.id ∉ seen ∧ ∃ c ∈ cs, d = cleaned c) ∧
      ((sanitizeFrom seen cs).1.map (·.id)).Nodup := by
  induction cs generalizing seen with
  | nil => exact ⟨fun d hd => absurd hd List.not_mem_nil, List.nodup_nil⟩
  | cons c cs ih =>
    have hskip : (∀ d ∈ (sanitizeFrom seen cs).1, d.id ∉ seen ∧ ∃ c' ∈ c :: cs, d = cleaned c') ∧
        ((sanitizeFrom seen cs).1.map (·.id)).Nodup := by
      refine ⟨fun d hd => ?_, (ih seen).2⟩
      obtain ⟨hseen, c', hc', hd⟩ := (ih seen).1 d hd
      exact ⟨hseen, c', List.mem_cons_of_mem _ hc', hd⟩
    unfold sanitizeFrom
    split_ifs with hseen hsendable
    · exact hskip
    · obtain ⟨hrest, hnodup⟩ := ih (c.id :: seen)
      constructor
      · intro d hd
        rcases List.mem_cons.1 hd with rfl | hd
        · exact ⟨fun h => hseen (.inr h), c, List.mem_cons_self, rfl⟩
        · obtain ⟨hnew, c', hc', hd⟩ := hrest d hd
          exact ⟨fun h => hnew (List.mem_cons_of_mem _ h), c', List.mem_cons_of_mem _ hc', hd⟩
      · refine List.nodup_cons.2 ⟨fun h => ?_, hnodup⟩
        obtain ⟨d, hd, hid⟩ := List.mem_map.1 h
        exact (hrest d hd).1 (hid ▸ List.mem_cons_self)
    · exact hskip

theorem cleaned_worded {c : KommandsSavedCommand}
    (h : (c.label, c.command) = text c.id c.revision) : (cleaned c).Worded text := by
  unfold KommandsSavedCommand.Worded cleaned
  rw [h]

/-- What a poll keeps of a file that it understands. -/
def KommandsFile.kept (f : KommandsFile) : List KommandsSavedCommand :=
  (sanitizeSaved (f.commands.take kommandsMaxCommands)).1

theorem KommandsFile.kept_nodup (f : KommandsFile) : (f.kept.map (·.id)).Nodup := by
  rw [KommandsFile.kept, sanitizeSaved]
  exact (sanitizeFrom_spec [] _).2

theorem KommandsFile.kept_worded {f : KommandsFile} (h : f.Numbered text) :
    ∀ c ∈ f.kept, c.Worded text := by
  intro d hd
  rw [KommandsFile.kept, sanitizeSaved] at hd
  obtain ⟨-, c, hc, rfl⟩ := (sanitizeFrom_spec [] _).1 d hd
  have hwords : (c.label, c.command) = text c.id c.revision := h c (List.mem_of_mem_take hc)
  exact cleaned_worded hwords

/-- The entries of the shared file; there are none to follow in a file that is not understood. -/
def entriesOf : Option SharedFile → Option (List KommandsSavedCommand)
  | none => some []
  | some file =>
    if kommandsMaxBytes < file.info.size then none
    else
      match file.data with
      | .error _ => none
      | .ok f => if f.version = kommandsSchemaVersion then some f.kept else none

/-- The file keeps the contract on revisions. -/
def SharedFile.Numbered (text : String → Int → String × String) (file : SharedFile) : Prop :=
  ∀ f, file.data = .ok f → f.Numbered text

theorem entriesOf_spec {file : Option SharedFile}
    (hnumbered : ∀ f, file = some f → f.Numbered text) (h : entriesOf file = some entries) :
    (entries.map (·.id)).Nodup ∧ ∀ c ∈ entries, c.Worded text := by
  cases file with
  | none =>
    cases h
    exact ⟨List.nodup_nil, fun c hc => absurd hc List.not_mem_nil⟩
  | some file =>
    simp only [entriesOf] at h
    split_ifs at h with hsize
    cases hdata : file.data with
    | error _ => simp [hdata] at h
    | ok f =>
      simp only [hdata] at h
      split_ifs at h
      rw [← Option.some.inj h]
      exact ⟨f.kept_nodup, KommandsFile.kept_worded (hnumbered file rfl f hdata)⟩

/-! ## What a sync does to a button -/

/-- The entries by their ids. -/
def byID (entries : List KommandsSavedCommand) : GoMap KommandsSavedCommand :=
  .ofList (entries.map fun c => (c.id, c))

theorem of_lookup_byID {k : String} {c : KommandsSavedCommand}
    (h : (byID entries).lookup k = some c) : c ∈ entries ∧ c.id = k := by
  obtain ⟨d, hd, heq⟩ := List.mem_map.1 (GoMap.mem_of_lookup_ofList h)
  obtain ⟨rfl, rfl⟩ := Prod.mk.inj heq
  exact ⟨hd, rfl⟩

theorem of_lookup_byID_none {k : String} (h : (byID entries).lookup k = none) :
    ∀ c ∈ entries, c.id ≠ k := by
  rintro c hc rfl
  obtain ⟨w, hw⟩ := GoMap.exists_lookup_ofList
    (List.mem_map_of_mem (f := fun c : KommandsSavedCommand => (c.id, c)) hc)
  exact absurd (h.symm.trans hw) nofun

theorem eq_of_id_eq (hnodup : (entries.map (·.id)).Nodup) {c d : KommandsSavedCommand}
    (hc : c ∈ entries) (hd : d ∈ entries) (h : c.id = d.id) : c = d :=
  List.inj_on_of_nodup_map hnodup hc hd h

/-- A button that has been marked is in step with a file that is gone. -/
theorem breakButton_spec (hb : b.Worded text) :
    InStep [] ((breakButton b).getD b) ∧ CommandButton.Worded text ((breakButton b).getD b) := by
  unfold breakButton
  cases hlink : b.link with
  | none => exact ⟨fun link h => absurd (hlink.symm.trans h.2.1) nofun, hb⟩
  | some link =>
    have hsame : ∀ l, b.Follows l → l = link := by
      rintro l ⟨-, hl, -⟩
      exact Option.some.inj (hl.symm.trans hlink)
    dsimp only
    split_ifs with hsource hstatus
    · exact ⟨fun l h => absurd (hsame l h ▸ h.2.2) hsource, hb⟩
    · refine ⟨fun l h => ⟨fun c hc => absurd hc List.not_mem_nil, fun _ => ?_⟩, hb⟩
      rw [hsame l h]
      exact hstatus
    · constructor
      · rintro l ⟨-, hl, -⟩
        obtain rfl := Option.some.inj hl
        exact ⟨fun c hc => absurd hc List.not_mem_nil, fun _ => rfl⟩
      · rintro l ⟨hkind, hl, hkommands⟩
        obtain rfl := Option.some.inj hl
        exact hb link ⟨hkind, hlink, hkommands⟩

/-- A synced button is in step with the entries, and has the words of its revision. -/
theorem syncButton_spec (hnodup : (entries.map (·.id)).Nodup)
    (hentries : ∀ c ∈ entries, c.Worded text) (hb : b.Worded text) :
    InStep entries ((syncButton (byID entries) b).getD b) ∧
      CommandButton.Worded text ((syncButton (byID entries) b).getD b) := by
  suffices h : UpToDate entries ((syncButton (byID entries) b).getD b) ∧
      CommandButton.Worded text ((syncButton (byID entries) b).getD b) from
    ⟨inStep_of_upToDate h.2 hentries h.1, h.2⟩
  unfold syncButton
  cases hlink : b.link with
  | none => exact ⟨fun link h => absurd (hlink.symm.trans h.2.1) nofun, hb⟩
  | some link =>
    have hsame : ∀ l, b.Follows l → l = link := by
      rintro l ⟨-, hl, -⟩
      exact Option.some.inj (hl.symm.trans hlink)
    dsimp only
    by_cases hsource : link.source ≠ linkSourceKommands
    · rw [if_pos hsource]
      exact ⟨fun l h => absurd (hsame l h ▸ h.2.2) hsource, hb⟩
    · rw [if_neg hsource]
      by_cases hkind : b.kind ≠ "cmd"
      · rw [if_pos hkind]
        exact ⟨fun l h => absurd h.1 hkind, hb⟩
      rw [if_neg hkind]
      have hfollows : b.Follows link := ⟨not_not.1 hkind, hlink, not_not.1 hsource⟩
      cases hfound : (byID entries).lookup link.id with
      | none =>
        have hgone := of_lookup_byID_none hfound
        dsimp only
        split_ifs with hstatus
        · constructor
          · rintro l ⟨-, hl, -⟩
            obtain rfl := Option.some.inj hl
            exact ⟨fun c hc hid => absurd hid (hgone c hc), fun _ => rfl⟩
          · rintro l ⟨-, hl, -⟩
            obtain rfl := Option.some.inj hl
            exact hb link hfollows
        · refine ⟨fun l h => ?_, hb⟩
          obtain rfl := hsame l h
          exact ⟨fun c hc hid => absurd hid (hgone c hc), fun _ => not_not.1 hstatus⟩
      | some orig =>
        obtain ⟨horig, hid⟩ := of_lookup_byID hfound
        have hunique : ∀ c ∈ entries, c.id = link.id → c = orig :=
          fun c hc h => eq_of_id_eq hnodup hc horig (h.trans hid.symm)
        dsimp only
        split_ifs with hrevision hstatus
        · constructor
          · rintro l ⟨-, hl, -⟩
            obtain rfl := Option.some.inj hl
            exact ⟨fun c hc h => (hunique c hc h) ▸ rfl, fun h => absurd hid (h orig horig)⟩
          · rintro l ⟨-, hl, -⟩
            obtain rfl := Option.some.inj hl
            have hwords := hentries orig horig
            unfold KommandsSavedCommand.Worded at hwords
            rw [hid] at hwords
            exact hwords
        · constructor
          · rintro l ⟨-, hl, -⟩
            obtain rfl := Option.some.inj hl
            refine ⟨fun c hc h => ?_, fun h => absurd hid (h orig horig)⟩
            rw [hunique c hc h]
            exact (not_not.1 hrevision).symm
          · rintro l ⟨-, hl, -⟩
            obtain rfl := Option.some.inj hl
            exact hb link hfollows
        · refine ⟨fun l h => ?_, hb⟩
          obtain rfl := hsame l h
          refine ⟨fun c hc h => ?_, fun h => absurd hid (h orig horig)⟩
          rw [hunique c hc h]
          exact (not_not.1 hrevision).symm

/-! ## What a sync does to the list -/

/-- Every button of a list that is there. -/
def Each (P : CommandButton → Prop) (stored : Option (List CommandButton)) : Prop :=
  ∀ items, stored = some items → ∀ b ∈ items, P b

variable {f : CommandButton → Option CommandButton} {access : Access}
  {stored stored' : Option (List CommandButton)}

/-- A sync that fails was refused, and leaves the list as it is. -/
theorem reconcile_error {error : String} (h : reconcile f access stored = (.error error, stored')) :
    access ≠ .granted ∧ stored' = stored := by
  cases access with
  | readFails e => exact ⟨nofun, (congrArg Prod.snd h).symm⟩
  | granted =>
    cases stored with
    | none => cases congrArg Prod.fst h
    | some items =>
      simp only [reconcile, save] at h
      split_ifs at h
      · cases h
      · cases h
  | writeFails e =>
    refine ⟨nofun, ?_⟩
    cases stored with
    | none => cases congrArg Prod.fst h
    | some items =>
      simp only [reconcile, save] at h
      split_ifs at h
      · exact (congrArg Prod.snd h).symm
      · cases h

/-- A disk that refuses leaves the list as it is. -/
theorem reconcile_of_ne_granted (h : access ≠ .granted) :
    (reconcile f access stored).2 = stored := by
  cases access with
  | granted => exact absurd rfl h
  | readFails e => rfl
  | writeFails e =>
    cases stored with
    | none => rfl
    | some items =>
      simp only [reconcile, save]
      split_ifs
      · rfl
      · rfl

theorem map_getD_of_unchanged {items : List CommandButton}
    (h : ¬ items.any fun b => (f b).isSome) : (items.map fun b => (f b).getD b) = items := by
  have hnone : ∀ b ∈ items, f b = none := by
    intro b hb
    cases hf : f b with
    | none => rfl
    | some b' => exact absurd (List.any_eq_true.2 ⟨b, hb, by rw [hf]; rfl⟩) h
  conv_rhs => rw [← List.map_id items]
  apply List.map_congr_left
  intro b hb
  rw [hnone b hb]
  rfl

/-- A sync that succeeds has changed every button that has to change. -/
theorem reconcile_ok {changed : Bool} (h : reconcile f access stored = (.ok changed, stored')) :
    stored' = stored.map fun items => items.map fun b => (f b).getD b := by
  cases stored with
  | none =>
    cases access with
    | readFails e => exact absurd (congrArg Prod.fst h) nofun
    | _ => exact (congrArg Prod.snd h).symm
  | some items =>
    rw [Option.map_some]
    cases access with
    | readFails e => exact absurd (congrArg Prod.fst h) nofun
    | granted =>
      simp only [reconcile, save] at h
      split_ifs at h with hany
      · exact (congrArg Prod.snd h).symm
      · rw [map_getD_of_unchanged hany]
        exact (congrArg Prod.snd h).symm
    | writeFails e =>
      simp only [reconcile, save] at h
      split_ifs at h with hany
      · cases h
      · rw [map_getD_of_unchanged hany]
        exact (congrArg Prod.snd h).symm

/-! ## Runs -/

namespace World

/-- The file is the one whose time and size are remembered. -/
def Known (s : World) : Prop :=
  ∃ file, s.file = some file ∧ s.service.last = some file.info

/-- The poll is about to sync the entries. -/
def DueAt (s : World) (entries : List KommandsSavedCommand) (id : Nat) : Prop :=
  ∃ fresh, s.polls id = some { phase := .syncing entries, fresh := fresh }

/-- The linked buttons are in step with the entries of the file. -/
def Converged (s : World) : Prop :=
  ∀ entries, entriesOf s.file = some entries → Each (InStep entries) s.buttons

/-- The list was computed from one that had been loaded: a linked button is one of that list, or
has been added for a command on offer. -/
def ComputedFrom (s : World) (items : List CommandButton) : Prop :=
  ∃ list ∈ [] :: s.lists, ∀ b ∈ items, ∀ link, b.Follows link →
    (∃ b₀ ∈ list, ∃ link₀, b₀.Follows link₀ ∧ (b₀.label, b₀.value) = (b.label, b.value) ∧
      (link₀.id, link₀.revision) = (link.id, link.revision) ∧
      (link.status = link₀.status ∨ link.status = linkStatusOK)) ∨
    (∃ offer ∈ s.offers, ∃ c ∈ offer, (c.label, c.command) = (b.label, b.value) ∧
      (c.id, c.revision) = (link.id, link.revision) ∧ link.status = linkStatusOK)

end World

/-- What Kommands and the frontend keep to: a change of the file changes its time or size and
increments revisions, and what is saved is computed from a list that had been loaded. -/
def Contract (text : String → Int → String × String) (s : World) : Event → Prop
  | .change (some file) =>
    (∀ old, s.file = some old → file.info ≠ old.info) ∧ file.Numbered text
  | .save items _ => s.ComputedFrom items
  | _ => True

/-- What a poll is about to apply. -/
def Phase.kept : Phase → Option (List KommandsSavedCommand)
  | .syncing kept => some kept
  | .absent => some []
  | _ => none

/-- The time and size a poll is going to remember. -/
def Phase.info : Phase → Option FileInfo
  | .found info => some info
  | .parsing info _ => some info
  | _ => none

/-- Nothing stale and nothing refused is left behind once the file is remembered. -/
def World.Steady (s : World) : Event → Prop
  -- No change brings back a time and size that are remembered or about to be.
  | .change (some file) =>
    s.service.last ≠ some file.info ∧
      ∀ i p, s.polls i = some p → p.phase.info ≠ some file.info
  -- A poll that finds the file remembered overtakes none that has yet to sync it.
  | .poll _ none => s.Known → ∀ entries, entriesOf s.file = some entries →
    (∀ i kept, ¬ s.DueAt kept i) ∨ Each (UpToDate entries) s.buttons
  | .sync id access => ∀ p kept entries, s.polls id = some p → p.phase.kept = some kept →
    entriesOf s.file = some entries →
      -- A refused sync is not the last one that the file gets.
      (access ≠ .granted → s.Known →
        (∃ i, i ≠ id ∧ s.DueAt entries i) ∨ Each (UpToDate entries) s.buttons) ∧
      -- Neither is one that applies what the file no longer holds.
      (access = .granted → kept ≠ entries →
        s.answered = false ∧ (s.Known → ∃ i, i ≠ id ∧ s.DueAt entries i))
  -- A saved list is up to date unless a sync follows.
  | .save items access => (∀ error, access ≠ .writeFails error) → s.Known →
    ∀ entries, entriesOf s.file = some entries →
      (∃ i, s.DueAt entries i) ∨ ∀ b ∈ items, UpToDate entries b
  | _ => True

/-! ## What holds throughout a run -/

/-- What a poll under way knows of the file. -/
def Poll.Sound (text : String → Int → String × String) (file : Option SharedFile) (p : Poll) :
    Prop :=
  match p.phase with
  | .found info =>
    info.size ≤ kommandsMaxBytes ∧ (p.fresh = true → ∃ f, file = some f ∧ f.info = info)
  | .parsing info data =>
    info.size ≤ kommandsMaxBytes ∧ (∀ f, data = .ok f → f.Numbered text) ∧
      (∀ f, file = some f → f.info = info → data = f.data) ∧
      (p.fresh = true → ∃ f, file = some f ∧ f.info = info)
  | .syncing kept =>
    (kept.map (·.id)).Nodup ∧ (∀ c ∈ kept, c.Worded text) ∧
      (p.fresh = true → entriesOf file = some kept)
  | .absent => p.fresh = true → file = none

/-- Every text there is belongs to the revision it comes with. -/
structure World.Worded (text : String → Int → String × String) (s : World) : Prop where
  file : ∀ file, s.file = some file → file.Numbered text
  buttons : Each (CommandButton.Worded text) s.buttons
  lists : ∀ list ∈ s.lists, ∀ b ∈ list, b.Worded text
  saved : ∀ c ∈ s.service.saved, c.Worded text
  offers : ∀ offer ∈ s.offers, ∀ c ∈ offer, c.Worded text
  polls : ∀ i p, s.polls i = some p → p.Sound text s.file

structure World.Invariant (text : String → Int → String × String) (s : World) : Prop extends
    s.Worded text where
  /-- A file that is remembered has been synced, or a poll is about to. -/
  synced : s.Known → ∀ entries, entriesOf s.file = some entries →
    (∃ i, s.DueAt entries i) ∨ Each (InStep entries) s.buttons
  answered : s.answered = true → s.Converged

section

variable {s : World} {id : Nat} {fresh : Bool} {outcome : Outcome}

theorem Each.inStep (hbuttons : Each (CommandButton.Worded text) stored)
    (hentries : ∀ c ∈ entries, c.Worded text) (h : Each (UpToDate entries) stored) :
    Each (InStep entries) stored :=
  fun items hitems b hb => inStep_of_upToDate (hbuttons items hitems b hb) hentries
    (h items hitems b hb)

theorem World.Worded.kept (h : s.Worded text) (hentries : entriesOf s.file = some entries) :
    (entries.map (·.id)).Nodup ∧ ∀ c ∈ entries, c.Worded text :=
  entriesOf_spec h.file hentries

/-- A step of a poll keeps the invariant when what it leaves behind does. -/
theorem World.Worded.settle (h : s.Worded text)
    (hsound : ∀ phase, outcome = .goesOn phase →
      Poll.Sound text s.file { phase := phase, fresh := fresh })
    (hsynced : s.Known → ∀ entries, entriesOf s.file = some entries →
      outcome = .goesOn (.syncing entries) ∨ (∃ i, i ≠ id ∧ s.DueAt entries i) ∨
        Each (InStep entries) s.buttons)
    (hanswered : s.answered = true ∨ (fresh = true ∧ outcome = .returned none) → s.Converged) :
    (s.settle id fresh outcome).Invariant text := by
  have hbeside : ∀ entries poll, (∃ i, i ≠ id ∧ s.DueAt entries i) →
      ∃ i fresh, Function.update s.polls id poll i =
        some { phase := .syncing entries, fresh := fresh } := by
    rintro entries poll ⟨i, hi, fresh, hdue⟩
    exact ⟨i, fresh, by rw [Function.update_of_ne hi]; exact hdue⟩
  have hpolls : ∀ poll : Option Poll, (∀ p, poll = some p → p.Sound text s.file) →
      ∀ i p, Function.update s.polls id poll i = some p → p.Sound text s.file := by
    intro poll hpoll i p hp
    by_cases hi : i = id
    · subst hi
      rw [Function.update_self] at hp
      exact hpoll p hp
    · rw [Function.update_of_ne hi] at hp
      exact h.polls i p hp
  cases outcome with
  | goesOn phase =>
    refine { h with
      polls := hpolls _ ?_
      synced := fun hknown entries hentries => ?_
      answered := fun ha => hanswered (.inl ha) }
    · rintro p hp
      obtain rfl := Option.some.inj hp
      exact hsound phase rfl
    · rcases hsynced hknown entries hentries with hphase | hdue | hin
      · cases hphase
        exact .inl ⟨id, fresh, Function.update_self ..⟩
      · exact .inl (hbeside entries _ hdue)
      · exact .inr hin
  | returned err =>
    refine { h with
      polls := hpolls _ nofun
      synced := fun hknown entries hentries => ?_
      answered := fun ha => hanswered ?_ }
    · rcases hsynced hknown entries hentries with hphase | hdue | hin
      · cases hphase
      · exact .inl (hbeside entries _ hdue)
      · exact .inr hin
    · rcases Bool.or_eq_true _ _ ▸ ha with ha | ha
      · exact .inl ha
      · obtain ⟨hfresh, herr⟩ := Bool.and_eq_true_iff.1 ha
        exact .inr ⟨hfresh, by rw [of_decide_eq_true herr]⟩

/-- A poll that is not about to sync is not the one that will. -/
theorem World.beside (hphase : ∀ kept, ¬ s.DueAt kept id) :
    (∃ i, s.DueAt entries i) → ∃ i, i ≠ id ∧ s.DueAt entries i := by
  rintro ⟨i, hdue⟩
  refine ⟨i, ?_, hdue⟩
  rintro rfl
  exact hphase _ hdue

/-- A step of a poll that turns the service over. -/
theorem World.Worded.turn (h : s.Worded text) (step : Outcome × KommandsService)
    (hsaved : ∀ c ∈ step.2.saved, c.Worded text)
    (hsound : ∀ phase, step.1 = .goesOn phase →
      Poll.Sound text s.file { phase := phase, fresh := fresh })
    (hsynced : ∀ file, s.file = some file → step.2.last = some file.info → ∀ entries,
      entriesOf s.file = some entries →
      step.1 = .goesOn (.syncing entries) ∨ (∃ i, i ≠ id ∧ s.DueAt entries i) ∨
        Each (InStep entries) s.buttons)
    (hanswered : s.answered = true ∨ (fresh = true ∧ step.1 = .returned none) → s.Converged) :
    World.Invariant text ({ s with service := step.2 }.settle id fresh step.1) :=
  World.Worded.settle { h with saved := hsaved } hsound
    (fun ⟨file, hfile, hlast⟩ => hsynced file hfile hlast) hanswered

/-- A step that neither answers nor remembers the file, of a poll that is not about to sync. -/
theorem World.Invariant.turn (h : s.Invariant text) (hnot : ∀ kept, ¬ s.DueAt kept id)
    (step : Outcome × KommandsService) (hsaved : ∀ c ∈ step.2.saved, c.Worded text)
    (hlast : ∀ info, step.2.last = some info → s.service.last = some info)
    (hsound : ∀ phase, step.1 = .goesOn phase →
      Poll.Sound text s.file { phase := phase, fresh := fresh })
    (hnil : step.1 ≠ .returned none) :
    World.Invariant text ({ s with service := step.2 }.settle id fresh step.1) := by
  apply h.toWorded.turn step hsaved hsound
  · intro file hfile hstep entries hentries
    have hknown : s.Known := ⟨file, hfile, hlast _ hstep⟩
    exact .inr ((h.synced hknown entries hentries).imp_left (World.beside hnot))
  · rintro (ha | ⟨-, hstep⟩)
    · exact h.answered ha
    · exact absurd hstep hnil

theorem World.Invariant.poll {failure : Option String} (h : s.Invariant text)
    (hfree : s.polls id = none) (hsteady : s.Steady (.poll id failure)) :
    (s.poll id failure).Invariant text := by
  have hnot : ∀ kept, ¬ s.DueAt kept id := by
    rintro kept ⟨_, hdue⟩
    cases hfree.symm.trans hdue
  cases failure with
  | some error =>
    refine h.turn hnot (s.service.stat (.error error)) h.saved (fun _ hlast => hlast) ?_ ?_
    · rintro _ ⟨⟩
    · rintro ⟨⟩
  | none =>
    cases hfile : s.file with
    | none =>
      have hstat : s.service.stat (s.found none) = s.service.stat (.ok none) := by
        rw [World.found, hfile]
        rfl
      unfold World.poll
      rw [hstat]
      apply h.turn hnot (s.service.stat (.ok none))
      · exact fun c hc => absurd hc List.not_mem_nil
      · rintro _ ⟨⟩
      · rintro phase heq
        cases heq
        exact fun _ => hfile
      · rintro ⟨⟩
    | some file =>
      have hfound : s.found none = .ok (some file.info) := by
        rw [World.found, hfile]
        rfl
      unfold World.poll KommandsService.stat
      rw [hfound]
      dsimp only
      split_ifs with hlast hsize
      · apply h.toWorded.turn (.returned none, s.service) h.saved
        · rintro _ ⟨⟩
        · intro file hfile hlast entries hentries
          exact .inr ((h.synced ⟨file, hfile, hlast⟩ entries hentries).imp_left (World.beside hnot))
        · -- The file is as remembered: it has been synced, as no other poll is yet to do so.
          rintro - entries hentries
          have hknown : s.Known := ⟨file, hfile, hlast⟩
          rcases hsteady hknown entries hentries with hnone | hcurrent
          · rcases h.synced hknown entries hentries with ⟨i, hdue⟩ | hin
            · exact absurd hdue (hnone i entries)
            · exact hin
          · exact Each.inStep h.buttons (h.toWorded.kept hentries).2 hcurrent
      · have hlarge : entriesOf s.file = none := by
          rw [hfile]
          exact if_pos hsize
        apply h.toWorded.turn (.returned none, _)
        · exact h.saved
        · rintro _ ⟨⟩
        · intro _ _ _ entries hentries
          cases hlarge.symm.trans hentries
        · intro _ entries hentries
          cases hlarge.symm.trans hentries
      · apply h.turn hnot (.goesOn (.found file.info), s.service) h.saved
        · exact fun _ hlast => hlast
        · rintro phase heq
          cases heq
          exact ⟨Nat.le_of_not_lt hsize, fun _ => ⟨file, hfile, rfl⟩⟩
        · rintro ⟨⟩

theorem World.exists_of_contents {failure : Option String} {data : Except String KommandsFile}
    (h : s.contents failure = .ok data) : ∃ file, s.file = some file ∧ file.data = data := by
  unfold World.contents at h
  cases failure with
  | some error => cases h
  | none =>
    cases hfile : s.file with
    | none =>
      rw [hfile] at h
      cases h
    | some file =>
      rw [hfile] at h
      exact ⟨file, rfl, Except.ok.inj h⟩

theorem World.Invariant.read {failure : Option String} (h : s.Invariant text) :
    (s.read id failure).Invariant text := by
  unfold World.read
  split
  case h_2 => exact h
  case h_1 info fresh hpoll =>
    have hnot : ∀ kept, ¬ s.DueAt kept id := by
      rintro kept ⟨_, hdue⟩
      cases hpoll.symm.trans hdue
    obtain ⟨hsize, hfresh⟩ := h.polls id _ hpoll
    cases hdata : s.contents failure with
    | error error =>
      exact h.turn hnot (s.service.read info (.error error)) h.saved (fun _ hlast => hlast)
        nofun nofun
    | ok data =>
      obtain ⟨file, hfile, rfl⟩ := World.exists_of_contents hdata
      apply h.turn hnot (s.service.read info (.ok file.data)) h.saved (fun _ hlast => hlast)
      · rintro phase heq
        cases heq
        refine ⟨hsize, h.file file hfile, fun f hf _ => ?_, hfresh⟩
        rw [Option.some.inj (hfile.symm.trans hf)]
      · nofun

/-- What is kept of a file that is the one there. -/
theorem entriesOf_eq {file : SharedFile} {f : KommandsFile}
    (hsize : file.info.size ≤ kommandsMaxBytes) (hdata : file.data = .ok f) :
    entriesOf (some file) = if f.version = kommandsSchemaVersion then some f.kept else none := by
  simp only [entriesOf, hdata]
  exact if_neg (Nat.not_lt.2 hsize)

theorem entriesOf_error {file : SharedFile} {error : String} (hdata : file.data = .error error) :
    entriesOf (some file) = none := by
  simp only [entriesOf, hdata, ite_self]

theorem World.Invariant.remember (h : s.Invariant text) : (s.remember id).Invariant text := by
  unfold World.remember
  split
  case h_2 => exact h
  case h_1 info data fresh hpoll =>
    obtain ⟨hsize, hnumbered, hheld, hfresh⟩ := h.polls id _ hpoll
    -- What a poll that answers or is about to sync has read is what the file holds.
    have hcurrent : ∀ file, s.file = some file → file.info = info →
        entriesOf s.file = entriesOf (some { info := info, data := data }) := by
      rintro file hfile rfl
      rw [hfile, hheld file hfile rfl]
    have hleft : (∀ file, s.file = some file → file.info = info → entriesOf s.file = none) →
        ∀ service : KommandsService, service.last = some info →
          (∀ c ∈ service.saved, c.Worded text) →
          World.Invariant text
            ({ s with service := service }.settle id fresh (.returned none)) := by
      intro hnone service hlast hsaved
      apply h.toWorded.turn (.returned none, service) hsaved
      · nofun
      · intro file hfile hstep entries hentries
        have hinfo := Option.some.inj (hstep.symm.trans hlast)
        exact absurd ((hnone file hfile hinfo).symm.trans hentries) nofun
      · rintro (ha | ⟨hf, -⟩) entries hentries
        · exact h.answered ha entries hentries
        · obtain ⟨file, hfile, hinfo⟩ := hfresh hf
          exact absurd ((hnone file hfile hinfo).symm.trans hentries) nofun
    cases data with
    | error error =>
      refine hleft (fun file hfile hinfo => ?_) _ rfl h.saved
      rw [hcurrent file hfile hinfo, entriesOf_error rfl]
    | ok f =>
      have hentries : ∀ file, s.file = some file → file.info = info → entriesOf s.file =
          if f.version = kommandsSchemaVersion then some f.kept else none :=
        fun file hfile hinfo => (hcurrent file hfile hinfo).trans (entriesOf_eq hsize rfl)
      unfold KommandsService.remember
      dsimp only
      by_cases hversion : f.version = kommandsSchemaVersion
      · rw [if_neg (not_not.2 hversion)]
        have hkept : ∀ file, s.file = some file → file.info = info →
            entriesOf s.file = some f.kept :=
          fun file hfile hinfo => (hentries file hfile hinfo).trans (if_pos hversion)
        have hworded := f.kept_worded (hnumbered f rfl)
        apply h.toWorded.turn (.goesOn (.syncing f.kept), _)
        · exact hworded
        · rintro phase heq
          cases heq
          refine ⟨f.kept_nodup, hworded, fun hf => ?_⟩
          obtain ⟨file, hfile, hinfo⟩ := hfresh hf
          exact hkept file hfile hinfo
        · intro file hfile hstep entries hentries
          have hinfo := Option.some.inj hstep
          rw [Option.some.inj ((hkept file hfile hinfo.symm).symm.trans hentries)]
          exact .inl rfl
        · rintro (ha | ⟨-, hnil⟩)
          · exact h.answered ha
          · cases hnil
      · rw [if_pos hversion]
        refine hleft (fun file hfile hinfo => ?_) _ rfl h.saved
        exact (hentries file hfile hinfo).trans (if_neg hversion)

/-- The last step of a poll, which applies what it has kept. -/
theorem World.Invariant.finish (h : s.Invariant text) {p : Poll} {kept : List KommandsSavedCommand}
    (hpoll : s.polls id = some p) (hkept : p.phase.kept = some kept)
    (hfresh : p.fresh = true → entriesOf s.file = some kept)
    (hf : ∀ b : CommandButton, b.Worded text →
      InStep kept ((f b).getD b) ∧ CommandButton.Worded text ((f b).getD b))
    (hsteady : s.Steady (.sync id access)) :
    (s.finish id p.fresh (reconcile f access s.buttons)).Invariant text := by
  have hrefused : access ≠ .granted → s.Known → ∀ entries, entriesOf s.file = some entries →
      (∃ i, i ≠ id ∧ s.DueAt entries i) ∨ Each (InStep entries) s.buttons := by
    intro haccess hknown entries hentries
    apply Or.imp_right _ ((hsteady p kept entries hpoll hkept hentries).1 haccess hknown)
    exact Each.inStep h.buttons (h.toWorded.kept hentries).2
  rcases hr : reconcile f access s.buttons with ⟨result, buttons⟩
  cases result with
  | error error =>
    obtain ⟨haccess, rfl⟩ := reconcile_error hr
    dsimp only [World.finish]
    apply h.toWorded.settle
    · nofun
    · exact fun hknown entries hentries => .inr (hrefused haccess hknown entries hentries)
    · rintro (ha | ⟨-, hnil⟩)
      · exact h.answered ha
      · cases hnil
  | ok changed =>
    have hmap := reconcile_ok hr
    have heach : ∀ P : CommandButton → Prop, (∀ b, b.Worded text → P ((f b).getD b)) →
        Each P buttons := by
      intro P hP items hitems b hb
      obtain ⟨old, hold, rfl⟩ := Option.map_eq_some_iff.1 (hmap.symm.trans hitems)
      obtain ⟨b₀, hb₀, rfl⟩ := List.mem_map.1 hb
      exact hP b₀ (h.buttons old hold b₀ hb₀)
    have hin : Each (InStep kept) buttons := heach _ fun b hb => (hf b hb).1
    have hsame : access ≠ .granted → buttons = s.buttons := fun haccess =>
      (congrArg Prod.snd hr).symm.trans (reconcile_of_ne_granted haccess)
    have hworded : World.Worded text { s with
        buttons := buttons
        emitted := if changed then s.emitted + 1 else s.emitted } :=
      { h.toWorded with buttons := heach _ fun b hb => (hf b hb).2 }
    dsimp only [World.finish]
    apply hworded.settle
    · nofun
    · intro hknown entries hentries
      by_cases hcurrent : kept = entries
      · exact .inr (.inr (hcurrent ▸ hin))
      by_cases haccess : access = .granted
      · have hstale := (hsteady p kept entries hpoll hkept hentries).2 haccess hcurrent
        exact .inr (.inl (hstale.2 hknown))
      · show _ ∨ _ ∨ Each (InStep entries) buttons
        rw [hsame haccess]
        exact .inr (hrefused haccess hknown entries hentries)
    · intro hanswered entries hentries
      show Each (InStep entries) buttons
      by_cases hcurrent : kept = entries
      · exact hcurrent ▸ hin
      rcases hanswered with ha | ⟨hfresh', -⟩
      · by_cases haccess : access = .granted
        · have hstale := (hsteady p kept entries hpoll hkept hentries).2 haccess hcurrent
          exact absurd (hstale.1.symm.trans ha) nofun
        · rw [hsame haccess]
          exact h.answered ha entries hentries
      · exact absurd (Option.some.inj ((hfresh hfresh').symm.trans hentries)) hcurrent

theorem World.Invariant.sync (h : s.Invariant text) (hsteady : s.Steady (.sync id access)) :
    (s.sync id access).Invariant text := by
  unfold World.sync
  split
  case h_1 kept fresh hpoll =>
    obtain ⟨hnodup, hworded, hfresh⟩ := h.polls id _ hpoll
    exact h.finish hpoll rfl hfresh (fun b hb => syncButton_spec hnodup hworded hb) hsteady
  case h_2 fresh hpoll =>
    have habsent := h.polls id _ hpoll
    apply h.finish hpoll rfl _ (fun b hb => breakButton_spec hb) hsteady
    intro hfresh
    rw [habsent hfresh]
    rfl
  case h_3 => exact h

theorem Poll.Sound.unsettle {file file' : Option SharedFile} {p : Poll} (h : p.Sound text file)
    (hheld : ∀ info f, p.phase.info = some info → file' = some f → f.info = info → file = some f) :
    Poll.Sound text file' { p with fresh := false } := by
  obtain ⟨phase, fresh⟩ := p
  cases phase with
  | found info => exact ⟨h.1, nofun⟩
  | parsing info data =>
    exact ⟨h.1, h.2.1, fun f hf hinfo => h.2.2.1 f (hheld info f rfl hf hinfo) hinfo, nofun⟩
  | syncing kept => exact ⟨h.1, h.2.1, nofun⟩
  | absent => exact nofun

theorem World.unsettle_polls {i : Nat} {p : Poll} (h : s.unsettle.polls i = some p) :
    ∃ q, s.polls i = some q ∧ p = { q with fresh := false } := by
  obtain ⟨q, hq, rfl⟩ := Option.map_eq_some_iff.1 h
  exact ⟨q, hq, rfl⟩

theorem World.DueAt.unsettle {i : Nat} (h : s.DueAt entries i) : s.unsettle.DueAt entries i := by
  obtain ⟨fresh, hdue⟩ := h
  refine ⟨false, ?_⟩
  show (s.polls i).map _ = _
  rw [hdue]
  rfl

theorem World.Invariant.change {file : Option SharedFile} (h : s.Invariant text)
    (hcontract : Contract text s (.change file)) (hsteady : s.Steady (.change file)) :
    World.Invariant text (World.unsettle { s with file := file }) where
  file := by
    rintro f rfl
    exact hcontract.2
  buttons := h.buttons
  lists := h.lists
  saved := h.saved
  offers := h.offers
  polls := by
    intro i p hp
    obtain ⟨q, hq, rfl⟩ := World.unsettle_polls hp
    apply (h.polls i q hq).unsettle
    rintro info f hinfo hfile rfl
    obtain rfl : file = some f := hfile
    exact absurd hinfo (hsteady.2 i q hq)
  synced := by
    rintro ⟨f, hfile, hlast⟩
    obtain rfl : file = some f := hfile
    exact absurd hlast hsteady.1
  answered := nofun

theorem World.ComputedFrom.worded {items : List CommandButton} (h : s.Worded text)
    (hitems : s.ComputedFrom items) : ∀ b ∈ items, b.Worded text := by
  obtain ⟨list, hlist, hfrom⟩ := hitems
  intro b hb link hlink
  rcases hfrom b hb link hlink with
    ⟨b₀, hb₀, link₀, hlink₀, hwords, hid, -⟩ | ⟨offer, hoffer, c, hc, hwords, hid, -⟩
  · have hloaded : b₀.Worded text := by
      rcases List.mem_cons.1 hlist with rfl | hlist
      · exact absurd hb₀ List.not_mem_nil
      · exact h.lists list hlist b₀ hb₀
    obtain ⟨hid, hrevision⟩ := Prod.mk.inj hid
    rw [← hwords, ← hid, ← hrevision]
    exact hloaded link₀ hlink₀
  · obtain ⟨hid, hrevision⟩ := Prod.mk.inj hid
    rw [← hwords, ← hid, ← hrevision]
    exact h.offers offer hoffer c hc

theorem World.Invariant.save {items : List CommandButton} (h : s.Invariant text)
    (hcontract : s.ComputedFrom items) (hsteady : s.Steady (.save items access)) :
    (s.save items access).Invariant text := by
  have hworded := hcontract.worded h.toWorded
  have hstored : (∀ error, access ≠ .writeFails error) →
      World.Invariant text (World.unsettle { s with buttons := some items }) := by
    intro haccess
    refine { h with buttons := ?_, polls := ?_, synced := ?_, answered := nofun }
    · rintro _ ⟨⟩
      exact hworded
    · intro i p hp
      obtain ⟨q, hq, rfl⟩ := World.unsettle_polls hp
      exact (h.polls i q hq).unsettle fun _ _ _ hfile _ => hfile
    · intro hknown entries hentries
      rcases hsteady haccess hknown entries hentries with ⟨i, hdue⟩ | hcurrent
      · exact .inl ⟨i, World.DueAt.unsettle hdue⟩
      · right
        rintro _ ⟨⟩ b hb
        exact inStep_of_upToDate (hworded b hb) (h.toWorded.kept hentries).2 (hcurrent b hb)
  cases access with
  | granted => exact hstored nofun
  | readFails error => exact hstored nofun
  | writeFails error => exact h

theorem World.Invariant.act {e : Event} (h : s.Invariant text) (henabled : kommands.enabled e s)
    (hcontract : Contract text s e) (hsteady : s.Steady e) : (s.act e).Invariant text := by
  cases e with
  | poll id failure => exact h.poll henabled hsteady
  | read id failure => exact h.read
  | remember id => exact h.remember
  | sync id access => exact h.sync hsteady
  | change file => exact h.change hcontract hsteady
  | load =>
    refine { h with lists := fun list hlist => ?_ }
    rcases List.mem_append.1 hlist with hlist | hlist
    · exact h.buttons list (Option.mem_toList.1 hlist)
    · exact h.lists list hlist
  | loadSaved =>
    refine { h with offers := fun offer hoffer => ?_ }
    rcases List.mem_cons.1 hoffer with rfl | hoffer
    · exact h.saved
    · exact h.offers offer hoffer
  | save items access => exact h.save hcontract hsteady

end

/-- In every steady run, once a poll that began after the last change and the last save has
returned nil, the linked buttons are in step with the file. -/
theorem linked_buttons_converge {text : String → Int → String × String} {path : String}
    {file : Option SharedFile} {buttons : Option (List CommandButton)}
    {h : Labelled.History World Event} {s : World}
    (hfile : ∀ f, file = some f → f.Numbered text)
    (hbuttons : Each (CommandButton.Worded text) buttons)
    (hrun : Labelled.Run kommands (fun _ s e => Contract text s e ∧ s.Steady e)
      (World.start path file buttons) h s)
    (hanswered : s.answered = true) : s.Converged := by
  suffices hinv : s.Invariant text from hinv.answered hanswered
  refine hrun.invariant (P := fun _ s => s.Invariant text) ?_ ?_
  · refine {
      file := hfile
      buttons := hbuttons
      lists := ?_
      saved := ?_
      offers := ?_
      polls := nofun
      synced := ?_
      answered := nofun }
    · exact fun list hlist => absurd hlist List.not_mem_nil
    · exact fun c hc => absurd hc List.not_mem_nil
    · exact fun offer hoffer => absurd hoffer List.not_mem_nil
    · exact fun ⟨f, _, hlast⟩ => absurd hlast nofun
  · rintro h s e - hinv henabled ⟨hcontract, hsteady⟩
    exact hinv.act henabled hcontract hsteady

/-! ## Runs on fixed inputs -/

/-- Two revisions of one command. -/
def dayOrNoon (_ : String) (revision : Int) : String × String :=
  if revision = 1 then ("Day", "time set day") else ("Noon", "/time set noon")

/-- The shared file with that command. -/
def fileAt (revision : Int) : SharedFile where
  info := { modTime := revision, size := 120 }
  data := .ok
    { version := 1
      commands := [{ id := "k", revision := revision, label := (dayOrNoon "k" revision).1,
                     command := (dayOrNoon "k" revision).2 }] }

/-- The button that follows it, at its first revision. -/
def dayButton : CommandButton where
  id := "b"
  label := "Day"
  kind := "cmd"
  value := "time set day"
  link := some { source := "kommands", id := "k", revision := 1, status := "ok" }

theorem fileAt_numbered (revision : Int) : (fileAt revision).Numbered dayOrNoon := by
  rintro f ⟨⟩ c hc
  rw [List.mem_singleton.1 hc]

theorem dayButton_worded : Each (CommandButton.Worded dayOrNoon) (some [dayButton]) := by
  rintro _ ⟨⟩ b hb link ⟨-, hlink, -⟩
  obtain rfl := List.mem_singleton.1 hb
  obtain rfl := Option.some.inj hlink
  decide

theorem World.not_known {s : World} (h : s.service.last ≠ s.file.map (·.info)) : ¬ s.Known := by
  rintro ⟨file, hfile, hlast⟩
  rw [hfile, hlast] at h
  exact h rfl

/-- A granted sync of what the file holds is steady. -/
theorem World.steady_sync {s : World} {id : Nat}
    (hkept : (s.polls id).bind (·.phase.kept) = entriesOf s.file) :
    s.Steady (.sync id .granted) := by
  intro p kept entries hpoll hphase hentries
  rw [hpoll, Option.bind_some, hphase, hentries, Option.some.injEq] at hkept
  exact ⟨fun h => absurd rfl h, fun _ h => absurd hkept h⟩

/-- The frontend writes back the list it had loaded before Kommands wrote the second revision, and
then a poll runs; the last event comes first. -/
def lateSave : List Event :=
  [.sync 0 .granted, .remember 0, .read 0 none, .poll 0 none, .save [dayButton] .granted,
    .change (some (fileAt 2)), .load]

theorem linked_buttons_converge_lateSave :
    (kommands.play (World.start "saved" none (some [dayButton])) lateSave).2.Converged := by
  have hplay : kommands.Playable (fun _ s e => Contract dayOrNoon s e ∧ s.Steady e)
      (World.start "saved" none (some [dayButton])) lateSave := by
    refine ⟨⟨⟨⟨⟨⟨⟨trivial, trivial, trivial, trivial⟩, trivial, ?_, ?_⟩, trivial, ?_, ?_⟩, rfl,
      trivial, ?_⟩, trivial, trivial, trivial⟩, trivial, trivial, trivial⟩, trivial, trivial, ?_⟩
    · exact ⟨nofun, fileAt_numbered 2⟩
    · exact ⟨nofun, fun i p hp => by cases hp⟩
    · refine ⟨[dayButton], by decide +kernel, fun b hb link hlink => .inl ?_⟩
      exact ⟨b, hb, link, hlink, rfl, rfl, .inl rfl⟩
    · exact fun _ hknown => absurd hknown (World.not_known (by decide +kernel))
    · exact fun hknown => absurd hknown (World.not_known (by decide +kernel))
    · exact World.steady_sync (by decide +kernel)
  exact linked_buttons_converge (by rintro f ⟨⟩) dayButton_worded hplay.run
    (by decide +kernel)

/-- The frontend writes back the list it had loaded before the second revision was synced, and the
next poll finds the file as remembered; the last event comes first. -/
def staleSave : List Event :=
  [.poll 1 none, .save [dayButton] .granted, .sync 0 .granted, .remember 0, .read 0 none,
    .poll 0 none, .load]

/-- The button is left at the first revision: nothing tries to sync it again. -/
theorem not_linked_buttons_converge :
    ¬ ∀ (text : String → Int → String × String) (path : String) (file : Option SharedFile)
      (buttons : Option (List CommandButton)) (h : Labelled.History World Event) (s : World),
      (∀ f, file = some f → f.Numbered text) → Each (CommandButton.Worded text) buttons →
      Labelled.Run kommands (fun _ s e => Contract text s e) (World.start path file buttons) h s →
      s.answered = true → s.Converged := by
  intro h
  have hplay : kommands.Playable (fun _ s e => Contract dayOrNoon s e)
      (World.start "saved" (some (fileAt 2)) (some [dayButton])) staleSave := by
    refine ⟨⟨⟨⟨⟨⟨⟨trivial, trivial, trivial⟩, rfl, trivial⟩, trivial, trivial⟩, trivial, trivial⟩,
      trivial, trivial⟩, trivial, ?_⟩, rfl, trivial⟩
    refine ⟨[dayButton], by decide +kernel, fun b hb link hlink => .inl ?_⟩
    exact ⟨b, hb, link, hlink, rfl, rfl, .inl rfl⟩
  have hfile : ∀ f, some (fileAt 2) = some f → f.Numbered dayOrNoon := by
    rintro _ ⟨⟩
    exact fileAt_numbered 2
  have hconverged := h dayOrNoon "saved" _ _ _ _ hfile dayButton_worded hplay.run
    (by decide +kernel)
  let noon : KommandsSavedCommand :=
    { id := "k", revision := 2, label := "Noon", command := "time set noon" }
  have hin := hconverged [noon] (by decide +kernel) [dayButton] (by decide +kernel) dayButton
    List.mem_cons_self _ ⟨rfl, rfl, rfl⟩
  have hlabel : "Day" = "Noon" := (hin.1 noon List.mem_cons_self rfl).1
  exact absurd hlabel (by decide)

end Konnekt.Commands

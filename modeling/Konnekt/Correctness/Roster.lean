import Mathlib.Data.List.Chain
import Konnekt.Server.Roster

/-!
# The roster and the events of a boot

Whatever lines a boot prints about its players, each of them joins and leaves in turn,
the roster has those whose last event is a join, and an entry carries what the lines since
the last departure have said.
-/

namespace Konnekt.Server

open Go

variable {parseIP : String → Option String}

/-! ## Histories -/

theorem PlayerLine.latest_concat (tells : PlayerLine → Option String) (name : String)
    (lines : List PlayerLine) (line : PlayerLine) :
    latest tells name (lines ++ [line]) =
      if line.ends name then "" else (tells line).getD (latest tells name lines) := by
  unfold latest sinceLeave
  rw [List.reverse_append, List.reverse_singleton, List.singleton_append, List.takeWhile_cons]
  cases line.ends name with
  | true => rfl
  | false =>
    simp only [Bool.not_false, if_true, List.findSome?_cons, Bool.false_eq_true, if_false]
    cases tells line <;> rfl

@[simp] theorem moves_append (name : String) (events new : List Event) :
    moves name (events ++ new) = moves name events ++ moves name new := by
  rw [moves, List.filterMap_append]
  rfl

theorem Alternate.joined {l : List Move} (h : Alternate l) (hlast : l.getLast? ≠ some .joined) :
    Alternate (l ++ [.joined]) := by
  refine ⟨h.1.append (List.isChain_singleton _) ?_, ?_⟩
  · intro m hm m' hm' heq
    obtain rfl : Move.joined = m' := by simpa using hm'
    exact hlast (heq ▸ hm)
  · cases l with
    | nil => simp
    | cons m l => simpa using h.2

theorem Alternate.left {l : List Move} (h : Alternate l) (hlast : l.getLast? = some .joined) :
    Alternate (l ++ [.left]) := by
  refine ⟨h.1.append (List.isChain_singleton _) ?_, ?_⟩
  · intro m hm m' hm' heq
    obtain rfl : Move.left = m' := by simpa using hm'
    rw [Option.mem_def, hlast, heq] at hm
    cases hm
  · cases l with
    | nil => cases hlast
    | cons m l => simpa using h.2

/-! ## What a section does to a player -/

/-- What is known about a player, online or not. -/
def Instance.known (s : Instance) (name : String) : PlayerSession :=
  ((s.players.lookup name).or (s.presession.lookup name)).getD {}

/-- Nothing is kept apart from the session of a player who is online. -/
def Instance.Folded (s : Instance) (name : String) : Prop :=
  (s.players.lookup name).isSome = true → s.presession.lookup name = none

/-- What a boot with these lines leaves of a player. -/
structure Tracks (parseIP : String → Option String) (before : List Event) (name : String)
    (lines : List PlayerLine) (s : Instance) : Prop where
  folded : s.Folded name
  uuid : (s.known name).uuid = PlayerLine.latest (PlayerLine.uuidOf name) name lines
  ip : (s.known name).ip = PlayerLine.latest (PlayerLine.ipOf parseIP name) name lines
  events : ∃ events, s.events = before ++ events ∧ Alternate (moves name events) ∧
    ((s.players.lookup name).isSome = true ↔ (moves name events).getLast? = some .joined)

/-- A step that does nothing to any player. -/
structure Quiet (s s' : Instance) : Prop where
  players : s'.players = s.players
  presession : s'.presession = s.presession
  events : ∃ events, s'.events = s.events ++ events ∧ ∀ name, moves name events = []

theorem Quiet.refl (s : Instance) : Quiet s s :=
  ⟨rfl, rfl, [], (List.append_nil _).symm, fun _ => rfl⟩

theorem Quiet.trans {s s' s'' : Instance} (h : Quiet s s') (h' : Quiet s' s'') : Quiet s s'' := by
  obtain ⟨events, hevents, hmoves⟩ := h.events
  obtain ⟨events', hevents', hmoves'⟩ := h'.events
  refine ⟨h'.players.trans h.players, h'.presession.trans h.presession, events ++ events', ?_, ?_⟩
  · rw [hevents', hevents, List.append_assoc]
  · intro name
    rw [moves_append, hmoves, hmoves', List.append_nil]

theorem Quiet.tracks {before : List Event} {name : String} {lines : List PlayerLine}
    {s s' : Instance} (h : Quiet s s') (ht : Tracks parseIP before name lines s) :
    Tracks parseIP before name lines s' := by
  obtain ⟨new, hnew, hquiet⟩ := h.events
  obtain ⟨events, hevents, halternate, hlast⟩ := ht.events
  refine ⟨?_, ?_, ?_, events ++ new, ?_, ?_, ?_⟩
  · rw [Instance.Folded, h.players, h.presession]
    exact ht.folded
  · rw [Instance.known, h.players, h.presession]
    exact ht.uuid
  · rw [Instance.known, h.players, h.presession]
    exact ht.ip
  · rw [hnew, hevents, List.append_assoc]
  · rwa [moves_append, hquiet, List.append_nil]
  · rwa [moves_append, hquiet, List.append_nil, h.players]

/-- No event, and the players as they were. -/
theorem quiet_of_eq {s s' : Instance} (hplayers : s'.players = s.players)
    (hpresession : s'.presession = s.presession) (hevents : s'.events = s.events) : Quiet s s' :=
  ⟨hplayers, hpresession, [], by rw [hevents, List.append_nil], fun _ => rfl⟩

/-- One event that is about no player. -/
theorem quiet_of_event {s s' : Instance} (hplayers : s'.players = s.players)
    (hpresession : s'.presession = s.presession) {e : Event}
    (hevents : s'.events = s.events ++ [e]) (he : ∀ name, moveOf name e = none) : Quiet s s' :=
  ⟨hplayers, hpresession, [e], hevents, fun name => by simp [moves, he]⟩

theorem quiet_setStateLocked (next : ServerState) (timedOut : Bool) (s : Instance) :
    Quiet s (s.setStateLocked next timedOut) := by
  unfold Instance.setStateLocked
  split
  · exact Quiet.refl s
  · exact quiet_of_event rfl rfl rfl fun _ => rfl

theorem quiet_stopFromUp (s : Instance) : Quiet s s.stopFromUp := by
  unfold Instance.stopFromUp
  split
  · exact quiet_setStateLocked _ _ s
  · exact Quiet.refl s

/-- A section that is not about a player. -/
def Section.plain : Section → Bool
  | .playerUUID _ _ | .playerIP _ _ | .playerJoined _ | .playerLeft _ => false
  | _ => true

theorem Section.quiet_run {sec : Section} (h : sec.plain = true) (now : Int) (s : Instance) :
    Quiet s (sec.run now s).1 ∧ ∀ called ∈ (sec.run now s).2, called.plain = true := by
  cases sec with
  | playerUUID | playerIP | playerJoined | playerLeft => cases h
  | console line => exact ⟨quiet_of_event rfl rfl rfl fun _ => rfl, fun _ hc => by cases hc⟩
  | eulaRequired => exact ⟨quiet_of_event rfl rfl rfl fun _ => rfl, fun _ hc => by cases hc⟩
  | narrateFailed line => exact ⟨quiet_of_event rfl rfl rfl fun _ => rfl, fun _ hc => by cases hc⟩
  | serverStop =>
    refine ⟨?_, fun _ hc => by cases hc⟩
    have hflag : Quiet s { s with expectedStop := true } := quiet_of_eq rfl rfl rfl
    exact hflag.trans (quiet_stopFromUp _)
  | serverCrash =>
    have hflag : Quiet s { s with crashed := true } := quiet_of_eq rfl rfl rfl
    refine ⟨hflag.trans (quiet_stopFromUp _), ?_⟩
    simp only [Section.run]
    split <;> simp [Section.plain]
  | serverReady =>
    refine ⟨?_, fun _ hc => by cases hc⟩
    simp only [Section.run]
    split
    · exact quiet_setStateLocked _ _ s
    · exact Quiet.refl s
  | armExitDeadline =>
    refine ⟨?_, fun _ hc => by cases hc⟩
    simp only [Section.run]
    split
    · exact quiet_of_eq rfl rfl rfl
    · exact Quiet.refl s
  | tpsLost => exact ⟨quiet_of_eq rfl rfl rfl, fun _ hc => by cases hc⟩
  | cannotKeepUp => exact ⟨quiet_of_eq rfl rfl rfl, fun _ hc => by cases hc⟩

theorem quiet_runSections (now : Int) {todo : List Section} (h : ∀ sec ∈ todo, sec.plain = true)
    (s : Instance) : Quiet s (runSections now s todo) := by
  have called : ∀ (l : List Section) (s : Instance), (∀ sec ∈ l, sec.plain = true) →
      Quiet s (l.foldl (fun s sec => (sec.run now s).1) s) := by
    intro l
    induction l with
    | nil => exact fun s _ => Quiet.refl s
    | cons sec l ih =>
      intro s hl
      exact (Section.quiet_run (hl sec List.mem_cons_self) now s).1.trans
        (ih _ fun sec hsec => hl sec (List.mem_cons_of_mem _ hsec))
  induction todo generalizing s with
  | nil => exact Quiet.refl s
  | cons sec todo ih =>
    obtain ⟨hquiet, hcalled⟩ := Section.quiet_run (h sec List.mem_cons_self) now s
    exact (hquiet.trans (called _ _ hcalled)).trans
      (ih (fun sec hsec => h sec (List.mem_cons_of_mem _ hsec)) _)

/-! ## What the lines do -/

theorem known_recordPlayerField (s : Instance) (n name : String)
    (set : PlayerSession → PlayerSession) :
    (s.recordPlayerField n set).known name =
      if n = name then set (s.known name) else s.known name := by
  unfold Instance.recordPlayerField Instance.known
  by_cases hn : n = name
  · subst hn
    cases h : s.players.lookup n with
    | some sess => simp
    | none => simp [h]
  · have hne : name ≠ n := Ne.symm hn
    cases s.players.lookup n <;> simp [hn, hne]

theorem folded_recordPlayerField {s : Instance} {name : String} (h : s.Folded name) (n : String)
    (set : PlayerSession → PlayerSession) : (s.recordPlayerField n set).Folded name := by
  unfold Instance.recordPlayerField Instance.Folded
  by_cases hn : n = name
  · subst hn
    cases honline : s.players.lookup n with
    | some sess => exact fun _ => h (by rw [honline]; rfl)
    | none => simp [honline]
  · have hne : name ≠ n := Ne.symm hn
    unfold Instance.Folded at h
    cases s.players.lookup n with
    | some sess => simpa [hne] using h
    | none => simpa [hne] using h

/-- A player's lines leave others online or not, and so themselves. -/
theorem isSome_recordPlayerField (s : Instance) (n name : String)
    (set : PlayerSession → PlayerSession) :
    ((s.recordPlayerField n set).players.lookup name).isSome = (s.players.lookup name).isSome := by
  unfold Instance.recordPlayerField
  cases h : s.players.lookup n with
  | none => rfl
  | some sess =>
    by_cases hn : name = n
    · subst hn
      simp [h]
    · simp [hn]

theorem events_recordPlayerField (s : Instance) (n : String)
    (set : PlayerSession → PlayerSession) : (s.recordPlayerField n set).events = s.events := by
  unfold Instance.recordPlayerField
  split <;> rfl

/-- A join line says nothing new of a player who is online. -/
theorem promoted_of_online {s : Instance} {name : String} {sess : PlayerSession}
    (honline : s.players.lookup name = some sess) (hnone : s.presession.lookup name = none) :
    s.promoted name = sess := by
  rw [Instance.promoted, honline, hnone]
  obtain ⟨uuid, ip⟩ := sess
  by_cases huuid : uuid = "" <;> by_cases hip : ip = "" <;> simp [huuid, hip]

theorem known_promotePlayer {s : Instance} {name : String} (h : s.Folded name) (n : String) :
    (s.promotePlayer n).known name = s.known name := by
  unfold Instance.promotePlayer Instance.known
  by_cases hn : name = n
  · subst hn
    cases honline : s.players.lookup name with
    | none => simp [Instance.promoted, honline]
    | some sess =>
      have hnone := h (by rw [honline]; rfl)
      simp [promoted_of_online honline hnone]
  · simp [hn]

theorem known_removePlayer (s : Instance) (n name : String) :
    (s.removePlayer n).known name = if n = name then {} else s.known name := by
  unfold Instance.removePlayer Instance.known
  by_cases hn : n = name
  · subst hn
    simp
  · have hne : name ≠ n := Ne.symm hn
    simp [hn, hne]

section

variable {before : List Event} {name : String} {lines lines' : List PlayerLine} {s : Instance}

/-- A line that says something of a player is recorded. -/
theorem Tracks.recorded (h : Tracks parseIP before name lines s) {n : String}
    {set : PlayerSession → PlayerSession}
    (huuid : (if n = name then set (s.known name) else s.known name).uuid =
      PlayerLine.latest (PlayerLine.uuidOf name) name lines')
    (hip : (if n = name then set (s.known name) else s.known name).ip =
      PlayerLine.latest (PlayerLine.ipOf parseIP name) name lines') :
    Tracks parseIP before name lines' (s.recordPlayerField n set) where
  folded := folded_recordPlayerField h.folded n set
  uuid := by rw [known_recordPlayerField, huuid]
  ip := by rw [known_recordPlayerField, hip]
  events := by
    rw [isSome_recordPlayerField, events_recordPlayerField]
    exact h.events

/-- A join is an event of a player who was not online. -/
theorem Tracks.promoted (h : Tracks parseIP before name lines s) (n : String) :
    Tracks parseIP before name lines (s.promotePlayer n) where
  folded := by
    unfold Instance.Folded Instance.promotePlayer
    by_cases hn : name = n
    · subst hn
      simp
    · have hfolded := h.folded
      unfold Instance.Folded at hfolded
      simpa [hn] using hfolded
  uuid := by rw [known_promotePlayer h.folded, h.uuid]
  ip := by rw [known_promotePlayer h.folded, h.ip]
  events := by
    obtain ⟨events, hevents, halternate, hlast⟩ := h.events
    unfold Instance.promotePlayer
    by_cases hn : n = name
    · subst hn
      cases honline : (s.players.lookup n).isSome with
      | true =>
        refine ⟨events, by simp [hevents], halternate, ?_⟩
        simpa using hlast.mp honline
      | false =>
        have hnot : (moves n events).getLast? ≠ some .joined := fun hj => by
          rw [hlast.mpr hj] at honline
          cases honline
        refine ⟨events ++ [.playerJoined n (s.promoted n).ip], by simp [hevents], ?_, ?_⟩
        · simpa [moves, moveOf] using halternate.joined hnot
        · simp [moves, moveOf]
    · have hne : name ≠ n := Ne.symm hn
      cases honline : (s.players.lookup n).isSome with
      | true => exact ⟨events, by simp [hevents], halternate, by simpa [hne] using hlast⟩
      | false =>
        refine ⟨events ++ [.playerJoined n (s.promoted n).ip], by simp [hevents], ?_, ?_⟩
        · simpa [moves, moveOf, hn] using halternate
        · simpa [moves, moveOf, hn, hne] using hlast

/-- A departure is an event of a player who was online. -/
theorem Tracks.removed (h : Tracks parseIP before name lines s) {n : String}
    (huuid : (if n = name then "" else (s.known name).uuid) =
      PlayerLine.latest (PlayerLine.uuidOf name) name lines')
    (hip : (if n = name then "" else (s.known name).ip) =
      PlayerLine.latest (PlayerLine.ipOf parseIP name) name lines') :
    Tracks parseIP before name lines' (s.removePlayer n) where
  folded := by
    unfold Instance.Folded Instance.removePlayer
    by_cases hn : name = n
    · subst hn
      simp
    · have hfolded := h.folded
      unfold Instance.Folded at hfolded
      simpa [hn] using hfolded
  uuid := by
    rw [known_removePlayer, ← huuid]
    split <;> rfl
  ip := by
    rw [known_removePlayer, ← hip]
    split <;> rfl
  events := by
    obtain ⟨events, hevents, halternate, hlast⟩ := h.events
    unfold Instance.removePlayer
    by_cases hn : n = name
    · subst hn
      cases honline : (s.players.lookup n).isSome with
      | true =>
        refine ⟨events ++ [.playerLeft n], by simp [hevents], ?_, ?_⟩
        · simpa [moves, moveOf] using halternate.left (hlast.mp honline)
        · simp [moves, moveOf]
      | false =>
        refine ⟨events, by simp [hevents], halternate, ?_⟩
        simpa [honline] using hlast
    · have hne : name ≠ n := Ne.symm hn
      cases honline : (s.players.lookup n).isSome with
      | true =>
        refine ⟨events ++ [.playerLeft n], by simp [hevents], ?_, ?_⟩
        · simpa [moves, moveOf, hn] using halternate
        · simpa [moves, moveOf, hn, hne] using hlast
      | false => exact ⟨events, by simp [hevents], halternate, by simpa [hne] using hlast⟩

/-- Lines that say the same of a player. -/
theorem Tracks.congr (h : Tracks parseIP before name lines s)
    (huuid : PlayerLine.latest (PlayerLine.uuidOf name) name lines =
      PlayerLine.latest (PlayerLine.uuidOf name) name lines')
    (hip : PlayerLine.latest (PlayerLine.ipOf parseIP name) name lines =
      PlayerLine.latest (PlayerLine.ipOf parseIP name) name lines') :
    Tracks parseIP before name lines' s :=
  ⟨h.folded, h.uuid.trans huuid, h.ip.trans hip, h.events⟩

end

/-! ## One line after another -/

/-- The sections of a line about a player. -/
def PlayerLine.sections (parseIP : String → Option String) : PlayerLine → List Section
  | .uuid n id => [.playerUUID n id]
  | .login n addr =>
    (if parseLoginAddress parseIP addr = "" then []
      else [.playerIP n (parseLoginAddress parseIP addr)]) ++ [.playerJoined n]
  | .join n => [.playerJoined n]
  | .leave n | .lost n => [.playerLeft n]

theorem playerSections_eq (msg : List Char) :
    playerSections parseIP msg = ((playerLine msg).map (PlayerLine.sections parseIP)).getD [] := by
  unfold playerSections playerLine
  cases rePlayerUUID msg with
  | some m => rfl
  | none =>
    cases rePlayerLogin msg with
    | some m => rfl
    | none =>
      cases rePlayerJoin msg with
      | some m => rfl
      | none =>
        cases rePlayerLeave msg with
        | some m => rfl
        | none => cases rePlayerLost msg <;> rfl

theorem runSections_append (now : Int) (s : Instance) (todo todo' : List Section) :
    runSections now s (todo ++ todo') = runSections now (runSections now s todo) todo' :=
  List.foldl_append

section

variable {before : List Event} {name : String} {lines : List PlayerLine} {s : Instance}

theorem PlayerLine.ipOf_login (n addr : String) :
    PlayerLine.ipOf parseIP name (.login n addr) =
      if n = name ∧ parseLoginAddress parseIP addr ≠ "" then
        some (parseLoginAddress parseIP addr)
      else none := by
  by_cases hn : n = name <;> by_cases hparse : parseLoginAddress parseIP addr = "" <;>
    simp [PlayerLine.ipOf, PlayerLine.loginOf, hn, hparse, Option.filter]

theorem Tracks.line (h : Tracks parseIP before name lines s) (now : Int) (line : PlayerLine) :
    Tracks parseIP before name (lines ++ [line])
      (runSections now s (line.sections parseIP)) := by
  have huuid := PlayerLine.latest_concat (PlayerLine.uuidOf name) name lines line
  have hip := PlayerLine.latest_concat (PlayerLine.ipOf parseIP name) name lines line
  cases line with
  | uuid n id =>
    refine h.recorded ?_ ?_
    · rw [huuid]
      by_cases hn : n = name <;> simp [hn, PlayerLine.ends, PlayerLine.uuidOf, h.uuid]
    · rw [hip]
      by_cases hn : n = name <;>
        simp [hn, PlayerLine.ends, PlayerLine.ipOf, PlayerLine.loginOf, h.ip]
  | login n addr =>
    by_cases hparse : parseLoginAddress parseIP addr = ""
    · rw [PlayerLine.sections, if_pos hparse]
      refine (h.promoted n).congr ?_ ?_
      · simpa [PlayerLine.ends, PlayerLine.uuidOf] using huuid.symm
      · rw [hip]
        by_cases hn : n = name <;>
          simp [hn, hparse, PlayerLine.ends, PlayerLine.ipOf_login]
    · rw [PlayerLine.sections, if_neg hparse]
      have hrecorded : Tracks parseIP before name (lines ++ [.login n addr])
          (s.recordPlayerField n fun sess =>
            { sess with ip := parseLoginAddress parseIP addr }) := by
        refine h.recorded ?_ ?_
        · rw [huuid]
          by_cases hn : n = name <;> simp [hn, PlayerLine.ends, PlayerLine.uuidOf, h.uuid]
        · rw [hip]
          by_cases hn : n = name <;>
            simp [hn, hparse, PlayerLine.ends, PlayerLine.ipOf_login, h.ip]
      exact hrecorded.promoted n
  | join n =>
    refine (h.promoted n).congr ?_ ?_
    · simpa [PlayerLine.ends, PlayerLine.uuidOf] using huuid.symm
    · simpa [PlayerLine.ends, PlayerLine.ipOf, PlayerLine.loginOf] using hip.symm
  | leave n =>
    refine h.removed ?_ ?_
    · rw [huuid]
      by_cases hn : n = name <;> simp [hn, PlayerLine.ends, PlayerLine.uuidOf, h.uuid]
    · rw [hip]
      by_cases hn : n = name <;>
        simp [hn, PlayerLine.ends, PlayerLine.ipOf, PlayerLine.loginOf, h.ip]
  | lost n =>
    refine h.removed ?_ ?_
    · rw [huuid]
      by_cases hn : n = name <;> simp [hn, PlayerLine.ends, PlayerLine.uuidOf, h.uuid]
    · rw [hip]
      by_cases hn : n = name <;>
        simp [hn, PlayerLine.ends, PlayerLine.ipOf, PlayerLine.loginOf, h.ip]

theorem Tracks.processLine (h : Tracks parseIP before name lines s) (now : Int) (line : String) :
    Tracks parseIP before name (lines ++ (playerLine (logMessage line)).toList)
      (processLine parseIP now line s) := by
  have plainIf : ∀ (b : Bool) (sec : Section), sec.plain = true →
      ∀ x ∈ (if b then [sec] else []), x.plain = true := by
    intro b sec hsec x hx
    cases b with
    | false => cases hx
    | true => rwa [List.mem_singleton.mp hx]
  have quietIf : ∀ (b : Bool) (sec : Section) (s : Instance), sec.plain = true →
      Quiet s (runSections now s (if b then [sec] else [])) := fun b sec s hsec =>
    quiet_runSections now (plainIf b sec hsec) s
  unfold Konnekt.Server.processLine lineSections
  simp only [runSections_append]
  refine (quietIf _ _ _ rfl).tracks ?_
  rw [playerSections_eq]
  have hconsole : ∀ sec ∈ [Section.console line], sec.plain = true := by simp [Section.plain]
  -- Everything before the sections about players is quiet.
  have hbefore := (quietIf (reServerReady (logMessage line)) .serverReady _ rfl).tracks
    ((quietIf (reWorldsSaved (logMessage line)) .armExitDeadline _ rfl).tracks
      ((quietIf (reServerCrash (logMessage line)) .serverCrash _ rfl).tracks
        ((quietIf (reServerStop (logMessage line)) .serverStop _ rfl).tracks
          ((quietIf (mentionsEula line) .eulaRequired _ rfl).tracks
            ((quiet_runSections now hconsole s).tracks h)))))
  cases playerLine (logMessage line) with
  | none =>
    rw [Option.toList_none, List.append_nil]
    exact hbefore
  | some said => exact hbefore.line now said

theorem Tracks.readLines (h : Tracks parseIP before name lines s) (read : List (Int × String)) :
    Tracks parseIP before name (lines ++ playerLines read) (readLines parseIP read s) := by
  induction read generalizing lines s with
  | nil => simpa [playerLines, Server.readLines] using h
  | cons e read ih =>
    have hnext := ih (h.processLine e.1 e.2)
    have hlines : playerLines (e :: read) =
        (playerLine (logMessage e.2)).toList ++ playerLines read := by
      rw [playerLines, List.filterMap_cons]
      cases playerLine (logMessage e.2) <;> rfl
    rw [hlines, ← List.append_assoc]
    exact hnext

end

/-- A boot begins without players. -/
theorem tracks_clearRoster (s : Instance) (name : String) :
    Tracks parseIP s.events name [] s.clearRoster where
  folded := fun _ => rfl
  uuid := rfl
  ip := rfl
  events := ⟨[], (List.append_nil _).symm, ⟨List.isChain_nil, by simp [moves]⟩, by
    simp [Instance.clearRoster, moves]⟩

theorem mem_getActivePlayers {s : Instance} {p : Player} :
    p ∈ s.getActivePlayers ↔
      p.online = true ∧ s.players.lookup p.name = some ⟨p.uuid, p.ip⟩ := by
  unfold Instance.getActivePlayers
  rw [List.mem_map, ← Option.mem_def, AList.mem_lookup_iff]
  constructor
  · rintro ⟨⟨name, sess⟩, hmem, rfl⟩
    exact ⟨rfl, hmem⟩
  · rintro ⟨honline, hmem⟩
    obtain ⟨name, uuid, ip, online⟩ := p
    obtain rfl : online = true := honline
    exact ⟨_, hmem, rfl⟩

/-- After any lines of a boot: the events of each player alternate, the roster has the players
whose last event is a join, with the UUID of the latest line that gives one and the address of the
latest login line whose address parses. -/
theorem roster_readLines (parseIP : String → Option String) (s : Instance)
    (lines : List (Int × String)) :
    ∃ events, (readLines parseIP lines s.clearRoster).events = s.events ++ events ∧
      (∀ name, Alternate (moves name events)) ∧
      ∀ p : Player, p ∈ (readLines parseIP lines s.clearRoster).getActivePlayers ↔
        p.online = true ∧ (moves p.name events).getLast? = some .joined ∧
          p.uuid = PlayerLine.latest (PlayerLine.uuidOf p.name) p.name (playerLines lines) ∧
          p.ip = PlayerLine.latest (PlayerLine.ipOf parseIP p.name) p.name (playerLines lines) := by
  have htracks : ∀ name, Tracks parseIP s.events name (playerLines lines)
      (readLines parseIP lines s.clearRoster) := fun name =>
    (tracks_clearRoster s name).readLines lines
  obtain ⟨events, hevents, -, -⟩ := (htracks "").events
  have hevents' : ∀ name, Alternate (moves name events) ∧
      (((readLines parseIP lines s.clearRoster).players.lookup name).isSome = true ↔
        (moves name events).getLast? = some .joined) := by
    intro name
    obtain ⟨events', h, hmoves⟩ := (htracks name).events
    obtain rfl : events = events' := List.append_cancel_left (hevents.symm.trans h)
    exact hmoves
  refine ⟨events, hevents, fun name => (hevents' name).1, fun p => ?_⟩
  rw [mem_getActivePlayers]
  have huuid := (htracks p.name).uuid
  have hip := (htracks p.name).ip
  constructor
  · rintro ⟨honline, hlookup⟩
    have hknown : (readLines parseIP lines s.clearRoster).known p.name = ⟨p.uuid, p.ip⟩ := by
      rw [Instance.known, hlookup]
      rfl
    rw [hknown] at huuid hip
    exact ⟨honline, (hevents' p.name).2.mp (by rw [hlookup]; rfl), huuid, hip⟩
  · rintro ⟨honline, hlast, hpuuid, hpip⟩
    obtain ⟨sess, hlookup⟩ := Option.isSome_iff_exists.mp ((hevents' p.name).2.mpr hlast)
    have hknown : (readLines parseIP lines s.clearRoster).known p.name = sess := by
      rw [Instance.known, hlookup]
      rfl
    rw [hknown, ← hpuuid] at huuid
    rw [hknown, ← hpip] at hip
    rw [hlookup, ← huuid, ← hip]
    exact ⟨honline, rfl⟩

/-! ## An address that does not parse -/

/-- A player logs in twice, the second time from an address with a zone. -/
def zoneLines : List (Int × String) :=
  [(0, "[12:00:00] [Server thread/INFO]: Alex[/192.168.0.5:50000] logged in with entity id 1"),
    (1, "[12:00:09] [Server thread/INFO]: Alex[/[fe80::1%2]:50001] logged in with entity id 2")]

/-- The address of a roster entry may be that of an earlier login line. -/
theorem not_latestLogin :
    ¬ ∀ (parseIP : String → Option String) (s : Instance) (lines : List (Int × String)),
      ∀ p ∈ (readLines parseIP lines s.clearRoster).getActivePlayers,
        p.ip = PlayerLine.latest (PlayerLine.loginOf parseIP p.name) p.name (playerLines lines) := by
  intro h
  have hip := h (fun host => if host = "192.168.0.5" then some host else none) { id := "s1" }
    zoneLines ⟨"Alex", "", "192.168.0.5", true⟩ (by decide +kernel)
  have hlatest : PlayerLine.latest (PlayerLine.loginOf
      (fun host => if host = "192.168.0.5" then some host else none) "Alex") "Alex"
        (playerLines zoneLines) = "" := by
    decide +kernel
  rw [hlatest] at hip
  exact absurd hip (by decide)

end Konnekt.Server

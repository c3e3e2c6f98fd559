import Konnekt.Mcp.Parts
import Konnekt.Mcp.Results
import Konnekt.Scheduler.Models
import Konnekt.Server.Configs

/-!
# The tools of Claude

The catalog: which bound method a tool calls, and what Claude sees of its result. A state
of the backend is what the parts behind the bound methods hold; `strings.ToLower` is a
parameter.
-/

namespace Konnekt.Mcp

open Go JsonValue

/-! ## Raw results -/

/-- A member with `omitempty`. -/
def omitEmpty (k : String) (empty : Bool) (v : JsonValue) : List (String × JsonValue) :=
  if empty then [] else [(k, v)]

/-- A slice that is nil until something is appended. -/
def nilable (elems : List JsonValue) : JsonValue := if elems = [] then .null else .arr elems

def ServerStatus.json (s : ServerStatus) : JsonValue :=
  .struct [("running", .bool s.running), ("state", .str s.state), ("uptime", .str s.uptime),
    ("players", .int s.players), ("maxPlayers", .int s.maxPlayers), ("tps", .float s.tps),
    ("ramUsed", .float s.ramUsed), ("ramTotal", .float s.ramTotal)]

def StatsSnapshot.json (s : StatsSnapshot) : JsonValue :=
  .struct [("timestamp", .int s.timestamp), ("tps", .float s.tps), ("ramUsedMB", .float s.ramUsedMB),
    ("ramTotalMB", .float s.ramTotalMB), ("cpuPercent", .float s.cpuPercent),
    ("players", .int s.players)]

def stoppedJson (s : Server.ServerStopped) : JsonValue :=
  .struct [("expected", .bool s.expected), ("exitCode", .int s.exitCode)]

def Backup.json (b : Backup) : JsonValue :=
  .struct ([("filename", .str b.filename), ("createdAt", .int b.createdAt),
    ("sizeBytes", .int b.sizeBytes), ("displayName", .str b.displayName),
    ("tags", .arr (b.tags.map .str)), ("kind", .str b.kind)] ++
    omitEmpty "world" (b.world == "") (.str b.world) ++
    omitEmpty "lodsSkipped" (!b.lodsSkipped) (.bool b.lodsSkipped))

def nodeRunJson (n : Scheduler.NodeRunRecord) : JsonValue :=
  .struct ([("nodeId", .str n.nodeID), ("type", .str n.type), ("status", .str n.status),
    ("firedPort", .str n.firedPort), ("startedAt", .int n.startedAt),
    ("finishedAt", .int n.finishedAt)] ++
    omitEmpty "error" (n.error == "") (.str n.error) ++
    omitEmpty "downtimeMs" (n.downtimeMs == 0) (.int n.downtimeMs) ++
    omitEmpty "warning" (n.warning == "") (.str n.warning))

def runJson (r : Scheduler.RunRecord) : JsonValue :=
  .struct ([("id", .str r.id), ("graphId", .str r.graphID), ("graphName", .str r.graphName),
    ("trigger", .str r.trigger), ("startedAt", .int r.startedAt),
    ("finishedAt", .int r.finishedAt), ("status", .str r.status)] ++
    omitEmpty "error" (r.error == "") (.str r.error) ++
    [("nodes", nilable (r.nodes.map nodeRunJson))])

/-! ## Shapes -/

def mcpShapeDone : JsonValue := .map [("done", .bool true)]

def mcpConsoleLines : Nat := 200

def mcpConsoleBytes : Nat := 32 * 1024

/-- The loop of `mcpShapeConsole` from the newest line on, with the lines and the bytes it has. -/
def newestLines : Nat → Nat → List ConsoleLine → List ConsoleLine
  | _, _, [] => []
  | count, size, l :: older =>
    if count < mcpConsoleLines ∧ size + l.line.utf8ByteSize ≤ mcpConsoleBytes then
      l :: newestLines (count + 1) (size + l.line.utf8ByteSize) older
    else []

def ConsoleLine.json (l : ConsoleLine) : JsonValue :=
  .struct [("timestamp", .str l.timestamp), ("line", .str l.line), ("source", .str l.source),
    ("outcome", .str l.outcome)]

/-- The newest lines that fit both caps, in order. -/
def mcpShapeConsole (all : List ConsoleLine) : JsonValue :=
  .map [("lines", .arr ((newestLines 0 0 all.reverse).reverse.map ConsoleLine.json))]

def mcpShapeServerLog (lines : List String) : JsonValue :=
  .map [("lines", .arr (lines.map fun l => .struct [("line", .str l)]))]

def mcpShapeConfigFiles (files : List ConfigFile) : JsonValue :=
  .map [("files", .arr (files.map fun f =>
    .struct [("path", .str f.relPath), ("category", .str f.category), ("source", .str f.source),
      ("format", .str f.format), ("size", .int f.sizeBytes), ("modified", .int f.modified)]))]

/-! ### Secrets -/

/-- The white space of a regular expression. -/
def isBlank (c : Char) : Bool := c ∈ [' ', '\t', '\n', '\r', Char.ofNat 12]

/-- Letter case folded: besides the capitals, `s` and `k` have the long s and the kelvin sign. -/
def foldCase (c : Char) : Char :=
  if c = Char.ofNat 0x17F then 's' else if c = Char.ofNat 0x212A then 'k' else lower c

def isKeyChar (c : Char) : Bool := (foldCase c).isAlphanum || c ∈ ['_', '.', '-']

def secretWords : List String :=
  ["password", "passwd", "secret", "token", "apikey", "api_key", "api-key"]

def dropQuote : List Char → List Char
  | '"' :: s => s
  | s => s

/-- What `mcpSecretKey` asks of the text before the first `:` or `=`. -/
def isSecretKey (key : List Char) : Bool :=
  let body := dropQuote (key.dropWhile isBlank)
  let body := (dropQuote (body.reverse.dropWhile isBlank)).reverse
  body.all isKeyChar && secretWords.any fun w => decide (w.toList <:+: body.map foldCase)

/-- One line of `mcpRedactSecrets`; an empty value is left as it is. -/
def redactLine (l : List Char) : List Char :=
  let key := l.takeWhile fun c => c != ':' && c != '='
  match l.drop key.length with
  | [] => l
  | sep :: value =>
    if isSecretKey key ∧ value.dropWhile isBlank ≠ [] then
      key ++ sep :: value.takeWhile isBlank ++ "REDACTED".toList
    else l

def mcpRedactSecrets (text : String) : String :=
  String.intercalate "\n" ((split text '\n').map fun l => String.ofList (redactLine l.toList))

def mcpShapeConfigText (text : String) : JsonValue :=
  .map [("text", .str (mcpRedactSecrets text))]

/-! ### Listings -/

def mcpShapeMods (mods : List InstalledMod) : JsonValue :=
  .map [("mods", .arr (mods.map fun m =>
    .struct [("file", .str m.fileName), ("name", .str m.displayName), ("modId", .str m.modID),
      ("version", .str m.versionNumber), ("folder", .str m.targetFolder),
      ("enabled", .bool m.enabled), ("loader", .str m.loader), ("source", .str m.source),
      ("projectId", .str m.projectID)]))]

def mcpShapeServers (configs : List Server.ServerConfig) : JsonValue :=
  .map [("servers", .arr (configs.map fun c =>
    .struct [("id", .str c.id), ("name", .str c.name), ("loader", .str c.loader),
      ("mcVersion", .str c.mcVersion), ("loaderVersion", .str c.loaderVersion)]))]

def mcpShapeSummary (s : ServerSummary) : JsonValue :=
  .map [("summary", .map [("mcVersion", .str s.mcVersion), ("loader", .str s.loader),
    ("loaderVersion", .str s.loaderVersion), ("loaderSource", .str s.loaderSource),
    ("running", .bool s.running)])]

def mcpShapePlayers (players : List Player) : JsonValue :=
  .map [("players", .arr (players.map fun p =>
    .struct [("name", .str p.name), ("uuid", .str p.uuid), ("online", .bool p.online),
      ("lastOnline", .int p.lastOnline), ("opLevel", .int p.opLevel),
      ("whitelisted", .bool p.whitelisted), ("banned", .bool p.banned),
      ("banReason", .str p.banReason)]))]

def WorldDimension.json (d : WorldDimension) : JsonValue :=
  .struct [("kind", .str d.kind), ("size", .int d.size), ("modified", .int d.modified)]

def mcpShapeWorlds (worlds : List WorldSystem) : JsonValue :=
  .map [("worlds", .arr (worlds.map fun w =>
    .struct [("name", .str w.name), ("active", .bool w.active), ("totalSize", .int w.totalSize),
      ("modified", .int w.modified), ("dimensions", .arr (w.dimensions.map WorldDimension.json)),
      ("levelName", .str w.info.levelName), ("version", .str w.info.version),
      ("gameMode", .str w.info.gameMode), ("difficulty", .str w.info.difficulty),
      ("hardcore", .bool w.info.hardcore), ("lastPlayed", .int w.info.lastPlayed)]))]

def mcpShapeSchedules (graphs : List Scheduler.Graph) : JsonValue :=
  .map [("schedules", .arr (graphs.map fun g =>
    .struct [("id", .str g.id), ("name", .str g.name), ("enabled", .bool g.enabled),
      ("updatedAt", .int g.updatedAt)]))]

/-! ## Calls -/

/-- The state behind the bound methods: what each part holds or answers, per server. -/
structure Backend where
  configs : Except String (List Server.ServerConfig)
  status : String → ServerStatus
  summary : String → Except String ServerSummary
  roster : String → Except String Roster
  stats : String → List StatsSnapshot
  console : String → List ConsoleLine
  log : String → Except String String
  lastStop : Server.ServerStopped
  backups : String → Except String (List Backup)
  worlds : String → Except String WorldFolders
  schedules : String → Except String (List Scheduler.Graph)
  nextRuns : Except String (List (String × Int))
  configFiles : String → Except String (List ConfigFile)
  configText : String → String → Except String String
  mods : String → Except String (List InstalledMod)
  start : String → Except String Unit
  stop : String → Except String Unit
  restart : String → Except String Unit
  /-- `CreateBackup`: the file name, the time, the size and whether databases were left out. -/
  newBackup : String → Except String (String × Int × Int × Bool)
  run : String → String → Except String Scheduler.RunRecord
  send : String → String → Except String Unit

/-- A tool with its arguments. -/
inductive Call where
  | listServers
  | serverStatus (serverID : String)
  | serverSummary (serverID : String)
  | players (serverID : String)
  | statsHistory (serverID : String)
  | consoleTail (serverID : String)
  | serverLog (serverID : String) (lines : Int)
  | lastStop
  | backups (serverID : String)
  | worlds (serverID : String)
  | schedules (serverID : String)
  | scheduleNextRuns
  | configFiles (serverID : String)
  | configFile (serverID path : String)
  | mods (serverID : String)
  | startServer (serverID : String)
  | stopServer (serverID : String)
  | restartServer (serverID : String)
  | kickPlayer (serverID name reason : String)
  | banPlayer (serverID name reason : String)
  | pardonPlayer (serverID name : String)
  | createBackup (serverID : String)
  | runSchedule (serverID scheduleID : String)
  | sendCommand (serverID command : String)
  deriving DecidableEq, Repr

/-- `mcpTools`: the entry of the catalog that a call names. -/
def Call.tool : Call → MCPTool
  | .listServers => { name := "list_servers", method := "GetServerConfigs" }
  | .serverStatus _ => { name := "server_status", method := "GetServerStatus" }
  | .serverSummary _ => { name := "server_summary", method := "GetServerSummary" }
  | .players _ =>
    { name := "players", method := "GetPlayerRoster", untrusted := ["name", "banReason"] }
  | .statsHistory _ => { name := "stats_history", method := "GetStatsHistory" }
  | .consoleTail _ =>
    { name := "console_tail", method := "GetConsoleHistory", untrusted := ["line"] }
  | .serverLog .. => { name := "server_log", method := "GetServerLogTail", untrusted := ["line"] }
  | .lastStop => { name := "last_stop", method := "GetLastStop" }
  | .backups _ => { name := "backups", method := "ListBackups" }
  | .worlds _ => { name := "worlds", method := "ListWorlds", untrusted := ["name", "levelName"] }
  | .schedules _ => { name := "schedules", method := "GetScheduleGraphs" }
  | .scheduleNextRuns => { name := "schedule_next_runs", method := "GetScheduleNextRuns" }
  | .configFiles _ => { name := "config_files", method := "ListConfigFiles" }
  | .configFile .. => { name := "config_file", method := "ReadConfigFile" }
  | .mods _ =>
    { name := "mods", method := "ModListInstalled", untrusted := ["name", "modId", "version"] }
  | .startServer _ => { name := "start_server", method := "StartServer" }
  | .stopServer _ => { name := "stop_server", method := "StopServer" }
  | .restartServer _ => { name := "restart_server", method := "RestartServer" }
  | .kickPlayer .. => { name := "kick_player", method := "KickPlayer" }
  | .banPlayer .. => { name := "ban_player", method := "BanPlayer" }
  | .pardonPlayer .. => { name := "pardon_player", method := "PardonPlayer" }
  | .createBackup _ => { name := "create_backup", method := "CreateBackup" }
  | .runSchedule .. => { name := "run_schedule", method := "RunScheduleGraphNow" }
  | .sendCommand .. => { name := "send_command", method := "SendCommand", approval := true }

/-- A command to the console about one player. -/
def Backend.moderate (b : Backend) (id name command : String) : Except String Unit := do
  validPlayerName name
  b.send id command

/-- The bound method of a call, and what the tool shows of its result. -/
def Backend.invoke (toLower : String → String) (b : Backend) : Call → Except String JsonValue
  | .listServers => b.configs.map mcpShapeServers
  | .serverStatus id => .ok (.map [("status", (b.status id).json)])
  | .serverSummary id => (b.summary id).map mcpShapeSummary
  | .players id => (b.roster id).map fun r => mcpShapePlayers (getRoster toLower r)
  | .statsHistory id => .ok (.map [("snapshots", .arr ((b.stats id).map StatsSnapshot.json))])
  | .consoleTail id => .ok (mcpShapeConsole (b.console id))
  | .serverLog id lines =>
    (b.log id).map fun text => mcpShapeServerLog (readServerLogTail text lines)
  | .lastStop => .ok (.map [("stop", stoppedJson b.lastStop)])
  | .backups id =>
    (b.backups id).map fun all => .map [("backups", nilable (all.map Backup.json))]
  | .worlds id => (b.worlds id).map fun w => mcpShapeWorlds (listWorlds w)
  | .schedules id => (b.schedules id).map mcpShapeSchedules
  | .scheduleNextRuns =>
    b.nextRuns.map fun runs => .map [("nextRuns", .map (runs.map fun r => (r.1, .int r.2)))]
  | .configFiles id => (b.configFiles id).map mcpShapeConfigFiles
  | .configFile id path => (b.configText id path).map mcpShapeConfigText
  | .mods id => (b.mods id).map mcpShapeMods
  | .startServer id => (b.start id).map fun _ => mcpShapeDone
  | .stopServer id => (b.stop id).map fun _ => mcpShapeDone
  | .restartServer id => (b.restart id).map fun _ => mcpShapeDone
  | .kickPlayer id name reason =>
    (b.moderate id name ("kick " ++ name ++ " " ++ reason)).map fun _ => mcpShapeDone
  | .banPlayer id name reason =>
    (b.moderate id name ("ban " ++ name ++ " " ++ reason)).map fun _ => mcpShapeDone
  | .pardonPlayer id name => (b.moderate id name ("pardon " ++ name)).map fun _ => mcpShapeDone
  | .createBackup id =>
    (b.newBackup id).map fun made =>
      .map [("backup", Backup.json { filename := made.1, createdAt := made.2.1
                                     sizeBytes := made.2.2.1, kind := "server"
                                     lodsSkipped := made.2.2.2 })]
  | .runSchedule id scheduleID => (b.run id scheduleID).map fun r => .map [("run", runJson r)]
  | .sendCommand id command => (b.send id command).map fun _ => mcpShapeDone

/-- What stands between a call and its method: the arguments are taken and the caller may call
the tool, and the desktop approves one that needs it. -/
structure Gate where
  accept : Except String Unit
  approve : Except String Unit

def Gate.pass (g : Gate) (t : MCPTool) : Except String Unit := do
  g.accept
  if t.approval then g.approve

def mcpHandler (toLower : String → String) (g : Gate) (c : Call) (b : Backend) :
    Except String CallToolResult :=
  match g.pass c.tool with
  | .error err => .ok (mcpErrorResult err)
  | .ok () =>
    match b.invoke toLower c with
    | .error err => .ok (mcpErrorResult err)
    | .ok shaped => mcpResult c.tool shaped

end Konnekt.Mcp

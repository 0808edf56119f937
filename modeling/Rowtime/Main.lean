import Rowtime.Engine.Basic
import Rowtime.Follow.Rounds
import Rowtime.Settings.Layers
import Std.Time.DateTime.Timestamp

/-!
# The program

Reads the command line, the environment and the configuration file, opens the
log in the data directory and follows the statement until the process is ended.
Records go to the standard output, messages to the standard error.

Several processes may write to one log. What a statement records is therefore
added to the file first, and the file is read again before the engine goes on.
-/
namespace Rowtime.Program

open Rowtime

/-- The configuration files, the first existing one of which is read. -/
def configPaths : List String := ["./streamql.toml", "/etc/streamql/streamql.toml"]

/-- The settingVariables of the environment that give settings. -/
def settingVariables : List String :=
  ["STREAMQL_DATA_DIR", "STREAMQL_POLL_INTERVAL_MS", "STREAMQL_FORMAT", "STREAMQL_LOG_LEVEL"]

/-- The name of the log in the data directory. -/
def logName : String := "streamql.wal"

/-- The version that is reported. -/
def versionText : String := "streamql 0.3.0"

/-- A short account of the command line. -/
def usage : String :=
  "Run a SELECT forever, emitting newly inserted matching rows as JSON lines\n\n" ++
  "Usage: streamql [OPTIONS] --query <QUERY>\n\n" ++
  "Options:\n" ++
  "  -q, --query <QUERY>                        SQL statement\n" ++
  "  -d, --data-dir <DATA_DIR>                  Data directory holding the log\n" ++
  "      --poll-interval-ms <POLL_INTERVAL_MS>  Pause between checks in milliseconds\n" ++
  "      --format <FORMAT>                      Output record shape: array, object\n" ++
  "      --log-level <LOG_LEVEL>                Level of messages\n" ++
  "  -h, --help                                 Print help\n" ++
  "  -V, --version                              Print version\n"

/-- What is said about a command line that cannot be read. -/
def ArgumentFault.text : ArgumentFault → String
  | .missing => "the option --query is required"
  | .invalidValue => "an option lacks its value or has a wrong one"
  | .malformedValue => "the value of an option is malformed"
  | .unknown => "unexpected argument"
  | .repeated => "an option is given more than once"
  | .needlessValue => "an option takes no value"
  | .help | .version => ""

/-- The clock in nanoseconds. -/
def now : IO Int64 := do
  let t ← Std.Time.Timestamp.now
  return Value.clampInt64 t.toNanosecondsSinceUnixEpoch.val

/-- The content of the log. -/
def readLog (path : String) : IO Log.Bytes := do
  return (← IO.FS.readBinFile path).toList

/-- Adds bytes to the log. -/
def appendLog (path : String) (bytes : Log.Bytes) : IO Unit :=
  IO.FS.withFile path .append fun h => do
    h.write ⟨bytes.toArray⟩
    h.flush

/-- Runs the text of a statement on the engine in a reference. -/
def execute (path : String) (engine : IO.Ref Engine) (id : UInt64) (sql : String) :
    IO (Except Fault Outcome) := do
  match Sql.parseStatement sql with
  | .error why => return .error why
  | .ok s =>
    let clock ← now
    let (plan, e) := (← engine.get).decide clock id (← readLog path) s
    engine.set e
    match plan with
    | .error why => return .error why
    | .ok (.answer o) => return .ok o
    | .ok (.record ops o) =>
      let (refused, e, bytes) := e.record clock [] ops
      appendLog path bytes
      match refused with
      | some why =>
        engine.set e
        return .error why
      | none =>
        engine.set (e.catchUp (← readLog path))
        return .ok o

/-- Writes a piece of output. -/
def write (piece : String) : IO (Except String Unit) := do
  try
    let out ← IO.getStdout
    out.putStr piece
    if piece == "\n" then out.flush
    return .ok ()
  catch e => return .error (toString e)

/-- Waits for a number of milliseconds. -/
def wait (millis : UInt64) : IO Bool := do
  IO.sleep (UInt32.ofNat (min millis.toNat (Nat.pow 2 32 - 1)))
  return true

/-- Makes steps until the run ends. -/
partial def drive (host : Host IO) (shape : Shape) (q : Sql.Query) (r : Run) : IO Progress := do
  match ← Run.step host shape q r with
  | .running r' => drive host shape q r'
  | done => return done

/-- Follows the text of a statement with given settings. -/
def follow (settings : Settings) (sql : String) : IO Progress := do
  IO.FS.createDirAll settings.dataDir
  let path := settings.dataDir ++ "/" ++ logName
  appendLog path []
  let engine ← IO.mkRef (Engine.start (← readLog path))
  let host : Host IO := ⟨execute path engine, write, wait settings.pollMillis⟩
  match Sql.parseStatement sql with
  | .error why => return .failed (.syntaxFault why)
  | .ok (.query q) => drive host settings.shape q Run.start
  | .ok _ => Run.once host settings.shape sql

/-- The text of a file, if it can be read. -/
def readFile? (path : String) : IO (Option String) := do
  try
    return some (← IO.FS.readFile path)
  catch _ => return none

/-- Runs a command line that has been read. -/
def run (args : Arguments) : IO UInt32 := do
  let files ← configPaths.mapM readFile?
  let environment ← settingVariables.filterMapM fun name => do
    return (← IO.getEnv name).map fun v => (name, v)
  match Settings.load? args.settings files environment with
  | none =>
    IO.eprintln "the configuration cannot be read"
    return 1
  | some settings =>
    match ← follow settings args.query with
    | .failed why =>
      IO.eprintln why.message
      return 1
    | _ => return 0

end Rowtime.Program

open Rowtime Rowtime.Program in
/-- Follows a statement, or says why not. -/
def main (words : List String) : IO UInt32 := do
  match Arguments.read words with
  | .ok args => run args
  | .error .help =>
    IO.print usage
    return 0
  | .error .version =>
    IO.println versionText
    return 0
  | .error why =>
    IO.eprintln (ArgumentFault.text why)
    return 2

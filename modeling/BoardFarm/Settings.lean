import BoardFarm.Number.Word
import BoardFarm.Settings.SocketAddress
import BoardFarm.SortedMap

/-!
# Settings

The services are set up by variables of their environment. A variable that is missing, or
that is no text, leaves its default.

* `CoordinatorSettings.read`: the settings of the coordinator; the first fault is reported.
* `ExporterSettings.read`: the settings of an exporter.
-/

namespace BoardFarm

abbrev Environment : Type := SortedMap String String

/-- The unit in which a variable gives a time. -/
inductive TimeUnit where
  | seconds
  | milliseconds
  deriving DecidableEq, Repr

namespace TimeUnit

def text : TimeUnit → String
  | seconds => "seconds"
  | milliseconds => "milliseconds"

/-- The length of a unit in milliseconds. -/
def millis : TimeUnit → Nat
  | seconds => 1000
  | milliseconds => 1

end TimeUnit

/-- Why a variable can not be used. -/
inductive SettingError where
  | address (name : String)
  | time (name : String) (unit : TimeUnit) (cause : WordError)
  deriving DecidableEq, Repr

namespace SettingError

/-- The wording of a fault, with its cause. -/
def message : SettingError → String
  | address v => v ++ " is not a socket address: invalid socket address syntax"
  | time v u c => v ++ " must be whole " ++ u.text ++ ": " ++ c.message

end SettingError

namespace Setting

/-- The value of a variable, or its default. -/
def text (env : Environment) (name default : String) : String :=
  (env.get? name).getD default

/-- The address that a variable names. -/
def address (env : Environment) (name default : String) : Except SettingError SocketAddress :=
  match SocketAddress.parse? (text env name default) with
  | some a => .ok a
  | none => .error (.address name)

/-- The time that a variable gives, in milliseconds. -/
def time (env : Environment) (name : String) (unit : TimeUnit) (default : Nat) :
    Except SettingError Nat :=
  match env.get? name with
  | none => .ok default
  | some v =>
    match Word.parse v.toList with
    | .ok n => .ok (n * unit.millis)
    | .error c => .error (.time name unit c)

end Setting

/-- The settings of the coordinator; times are in milliseconds. -/
structure CoordinatorSettings where
  listen : SocketAddress
  logLevel : String
  stateDir : String
  saveInterval : Nat
  syncInterval : Nat
  scheduleInterval : Nat
  /-- How long an exporter may take to answer a command. -/
  commandTimeout : Nat
  /-- How long a reservation lives unless it is polled. -/
  reservationTimeout : Nat
  /-- How long an invalid reservation stays visible. -/
  invalidGrace : Nat
  deriving DecidableEq, Repr

namespace CoordinatorSettings

/-- The settings that an environment asks for. -/
def read (env : Environment) : Except SettingError CoordinatorSettings := do
  let listen ← Setting.address env "LABHUB_LISTEN_ADDR" "127.0.0.1:20408"
  let saveInterval ← Setting.time env "LABHUB_SAVE_INTERVAL_MS" .milliseconds 1000
  let syncInterval ← Setting.time env "LABHUB_SYNC_INTERVAL_SECS" .seconds 5000
  let scheduleInterval ← Setting.time env "LABHUB_SCHEDULE_INTERVAL_SECS" .seconds 15000
  let commandTimeout ← Setting.time env "LABHUB_COMMAND_TIMEOUT_SECS" .seconds 10000
  let reservationTimeout ← Setting.time env "LABHUB_RESERVATION_TIMEOUT_SECS" .seconds 60000
  return {
    listen := listen
    logLevel := Setting.text env "LABHUB_LOG_LEVEL" "info"
    stateDir := Setting.text env "LABHUB_STATE_DIR" "."
    saveInterval := saveInterval
    syncInterval := syncInterval
    scheduleInterval := scheduleInterval
    commandTimeout := commandTimeout
    reservationTimeout := reservationTimeout
    invalidGrace := 300000 }

end CoordinatorSettings

/-- The settings of an exporter. -/
structure ExporterSettings where
  coordinatorUrl : String
  name : String
  resourcesPath : Option String
  logLevel : String
  deriving DecidableEq, Repr

namespace ExporterSettings

/-- The settings that an environment asks for; an empty name counts as missing. -/
def read (env : Environment) : ExporterSettings where
  coordinatorUrl := Setting.text env "LABHUB_COORDINATOR_URL" "http://127.0.0.1:20408"
  name := ((env.get? "LABHUB_EXPORTER_NAME").filter (fun s => !s.isEmpty)).getD "exporter"
  resourcesPath := env.get? "LABHUB_EXPORTER_CONFIG"
  logLevel := Setting.text env "LABHUB_LOG_LEVEL" "info"

end ExporterSettings

end BoardFarm

/-
The options of a run as they are read from pccheck.conf and the kernel command line
(`config.py`).

An option has a type, the type of its default, and a text is converted to it.  What cannot be
converted leaves the option as it is and is noted; what is out of its range, or none of the
values allowed, is noted afterwards and gives way to the default.
-/
import PcCheck.Config
import PcCheck.Text
import PcCheck.Lib.Dict

namespace PcCheck

/-! ## The fields of `Options` -/

inductive IntField where
  | destructiveCountdown
  | maxUnexpectedReboots
  | rebootCycles
  | ceFail
  | mceFail
  | aerFail
  | sataLinkFail
  deriving DecidableEq, Repr

inductive FloatField where
  | hours
  | cpuTempWarn
  | driveTempWarn
  | slowReadSeconds
  deriving DecidableEq, Repr

inductive BoolField where
  | auto
  | http
  | identify
  deriving DecidableEq, Repr

inductive TextField where
  | profile
  | destructive
  | iperf3
  | rebootMethod
  deriving DecidableEq, Repr

inductive Field where
  | int (f : IntField)
  | float (f : FloatField)
  | bool (f : BoolField)
  | text (f : TextField)
  | skip
  deriving DecidableEq, Repr

namespace Field

abbrev Value : Field → Type
  | int _ => Int
  | float _ => PyFloat
  | bool _ => Bool
  | text _ => String
  | skip => List String

def name : Field → String
  | int .destructiveCountdown => "destructive_countdown"
  | int .maxUnexpectedReboots => "max_unexpected_reboots"
  | int .rebootCycles => "reboot_cycles"
  | int .ceFail => "ce_fail"
  | int .mceFail => "mce_fail"
  | int .aerFail => "aer_fail"
  | int .sataLinkFail => "sata_link_fail"
  | float .hours => "hours"
  | float .cpuTempWarn => "cpu_temp_warn"
  | float .driveTempWarn => "drive_temp_warn"
  | float .slowReadSeconds => "slow_read_seconds"
  | bool .auto => "auto"
  | bool .http => "http"
  | bool .identify => "identify"
  | text .profile => "profile"
  | text .destructive => "destructive"
  | text .iperf3 => "iperf3"
  | text .rebootMethod => "reboot_method"
  | skip => "skip"

def all : List Field :=
  [text .profile, float .hours, bool .auto, text .destructive, int .destructiveCountdown,
    bool .http, bool .identify, int .maxUnexpectedReboots, skip, text .iperf3, int .rebootCycles,
    text .rebootMethod, int .ceFail, int .mceFail, int .aerFail, int .sataLinkFail,
    float .cpuTempWarn, float .driveTempWarn, float .slowReadSeconds]

/-- The field of a name that is one of `field_types`. -/
def ofName (s : String) : Option Field := all.find? fun f => decide (f.name = s)

end Field

namespace Options

def get (o : Options) : (f : Field) → f.Value
  | .int .destructiveCountdown => o.destructiveCountdown
  | .int .maxUnexpectedReboots => o.maxUnexpectedReboots
  | .int .rebootCycles => o.rebootCycles
  | .int .ceFail => o.ceFail
  | .int .mceFail => o.mceFail
  | .int .aerFail => o.aerFail
  | .int .sataLinkFail => o.sataLinkFail
  | .float .hours => o.hours
  | .float .cpuTempWarn => o.cpuTempWarn
  | .float .driveTempWarn => o.driveTempWarn
  | .float .slowReadSeconds => o.slowReadSeconds
  | .bool .auto => o.auto
  | .bool .http => o.http
  | .bool .identify => o.identify
  | .text .profile => o.profile
  | .text .destructive => o.destructive
  | .text .iperf3 => o.iperf3
  | .text .rebootMethod => o.rebootMethod
  | .skip => o.skip

def set (o : Options) : (f : Field) → f.Value → Options
  | .int .destructiveCountdown, v => { o with destructiveCountdown := v }
  | .int .maxUnexpectedReboots, v => { o with maxUnexpectedReboots := v }
  | .int .rebootCycles, v => { o with rebootCycles := v }
  | .int .ceFail, v => { o with ceFail := v }
  | .int .mceFail, v => { o with mceFail := v }
  | .int .aerFail, v => { o with aerFail := v }
  | .int .sataLinkFail, v => { o with sataLinkFail := v }
  | .float .hours, v => { o with hours := v }
  | .float .cpuTempWarn, v => { o with cpuTempWarn := v }
  | .float .driveTempWarn, v => { o with driveTempWarn := v }
  | .float .slowReadSeconds, v => { o with slowReadSeconds := v }
  | .bool .auto, v => { o with auto := v }
  | .bool .http, v => { o with http := v }
  | .bool .identify, v => { o with identify := v }
  | .text .profile, v => { o with profile := v }
  | .text .destructive, v => { o with destructive := v }
  | .text .iperf3, v => { o with iperf3 := v }
  | .text .rebootMethod, v => { o with rebootMethod := v }
  | .skip, v => { o with skip := v }

/-- `opts.validation_errors += (problem,)` -/
def complain (o : Options) (problem : String) : Options :=
  { o with validationErrors := o.validationErrors ++ [problem] }

@[simp] theorem get_set_self (o : Options) (f : Field) (v : f.Value) : (o.set f v).get f = v := by
  cases f with
  | int f => cases f <;> rfl
  | float f => cases f <;> rfl
  | bool f => cases f <;> rfl
  | text f => cases f <;> rfl
  | skip => rfl

theorem get_set_ne (o : Options) {f g : Field} (h : g ≠ f) (v : f.Value) :
    (o.set f v).get g = o.get g := by
  cases f with
  | skip => cases g with
    | skip => exact absurd rfl h
    | int g => cases g <;> rfl
    | float g => cases g <;> rfl
    | bool g => cases g <;> rfl
    | text g => cases g <;> rfl
  | int f | float f | bool f | text f =>
    cases g with
    | skip => cases f <;> rfl
    | int g | float g | bool g | text g =>
      cases f <;> cases g <;> first | rfl | exact absurd rfl h

@[simp] theorem errors_set (o : Options) (f : Field) (v : f.Value) :
    (o.set f v).validationErrors = o.validationErrors := by
  cases f with
  | int f => cases f <;> rfl
  | float f => cases f <;> rfl
  | bool f => cases f <;> rfl
  | text f => cases f <;> rfl
  | skip => rfl

@[simp] theorem get_complain (o : Options) (problem : String) (f : Field) :
    (o.complain problem).get f = o.get f := by
  cases f with
  | int f => cases f <;> rfl
  | float f => cases f <;> rfl
  | bool f => cases f <;> rfl
  | text f => cases f <;> rfl
  | skip => rfl

end Options

/-! ## The texts -/

/-- The text before and after the first `=`, if there is one. -/
def splitEquals (s : String) : Option (String × String) :=
  if '=' ∈ s.toList then
    some (String.ofList (s.toList.takeWhile (· != '=')),
      String.ofList (s.toList.dropWhile (· != '=')).tail)
  else none

/-- `s.strip(c)` -/
def stripChar (c : Char) (s : String) : String :=
  String.ofList (((s.toList.dropWhile (· == c)).reverse.dropWhile (· == c)).reverse)

/-- The settings of one line of pccheck.conf. -/
def confLine (line : String) : Option (String × String) :=
  (splitEquals (strip (String.ofList (line.toList.takeWhile (· != '#'))))).map fun s =>
    (strip s.1, stripChar '\'' (stripChar '"' (strip s.2)))

def confSettings (text : String) : List (String × String) := (splitlines text).filterMap confLine

def parseConf (text : String) : Dict String String := Dict.ofList (confSettings text)

/-- Where `shlex` stands in a text. -/
inductive Lexing where
  | between
  | word
  | quote (q : Char)
  /-- After a backslash, in a word or within double quotes. -/
  | escape (inQuotes : Bool)

/-- `shlex.split`, with the token so far in reverse.  A word is begun by a character or by a
quotation, so that one which ends is a token, empty or not. -/
def shlexFrom : Lexing → List Char → List Char → Option (List String)
  | .between, _, [] => some []
  | .word, token, [] => some [String.ofList token.reverse]
  | .quote _, _, [] => none
  | .escape _, _, [] => none
  | .between, _, c :: rest =>
    if c ∈ [' ', '\t', '\r', '\n'] then shlexFrom .between [] rest
    else if c = '\\' then shlexFrom (.escape false) [] rest
    else if c = '\'' ∨ c = '"' then shlexFrom (.quote c) [] rest
    else shlexFrom .word [c] rest
  | .word, token, c :: rest =>
    if c ∈ [' ', '\t', '\r', '\n'] then
      (shlexFrom .between [] rest).map (String.ofList token.reverse :: ·)
    else if c = '\'' ∨ c = '"' then shlexFrom (.quote c) token rest
    else if c = '\\' then shlexFrom (.escape false) token rest
    else shlexFrom .word (c :: token) rest
  | .quote q, token, c :: rest =>
    if c = q then shlexFrom .word token rest
    else if c = '\\' ∧ q = '"' then shlexFrom (.escape true) token rest
    else shlexFrom (.quote q) (c :: token) rest
  | .escape inQuotes, token, c :: rest =>
    -- Within quotes only the quote and the backslash itself can be escaped.
    let token := if inQuotes = true ∧ c ≠ '\\' ∧ c ≠ '"' then '\\' :: token else token
    shlexFrom (if inQuotes then .quote '"' else .word) (c :: token) rest

def shlexSplit (s : String) : Option (List String) := shlexFrom .between [] s.toList

/-- `s.split()` -/
def words (s : String) : List String :=
  ((s.toList.splitOnP isSpace).filter fun w => decide (w ≠ [])).map String.ofList

/-- The setting of a token of the kernel command line. -/
def cmdlineToken (token : String) : Option (String × String) :=
  if "pccheck.".toList <+: token.toList then
    splitEquals (String.ofList (token.toList.drop "pccheck.".length))
  else none

def cmdlineSettings (text : String) : List (String × String) :=
  ((shlexSplit text).getD (words text)).filterMap cmdlineToken

def parseCmdline (text : String) : Dict String String := Dict.ofList (cmdlineSettings text)

/-! ## Applying a setting -/

/-- The lower case of the letters whose lower case is a letter of ASCII. -/
def lowerChar (c : Char) : Char := if c = Char.ofNat 0x212a then 'k' else c.toLower

def lower (s : String) : String := String.ofList (s.toList.map lowerChar)

/-- `key.strip().lower().replace("-", "_")` -/
def normalKey (key : String) : String :=
  String.ofList ((lower (strip key)).toList.map fun c => if c = '-' then '_' else c)

/-- `_bool` -/
def parseBool (value : String) : Bool :=
  decide (lower (strip value) ∈ ["1", "yes", "true", "on", "y"])

/-- `tuple(v.strip() for v in value.split(",") if v.strip())` -/
def parseList (value : String) : List String :=
  ((value.toList.splitOn ',').map fun v => strip (String.ofList v)).filter fun v =>
    decide (v ≠ "")

def IsProfile (s : String) : Prop := s ∈ profiles.map Prod.fst

instance : DecidablePred IsProfile := fun s =>
  inferInstanceAs (Decidable (s ∈ profiles.map Prod.fst))

/-- The conversion of a text to the type of a field. -/
def convert (t : DigitTable) : (f : Field) → String → Except PyError f.Value
  | .int _, value => t.int value
  | .float _, value => t.float value
  | .bool _, value => .ok (parseBool value)
  | .text _, value => .ok (strip value)
  | .skip, value => .ok (parseList value)

/-- The option that a setting is about. -/
def fieldOf (setting : String × String) : Option Field := Field.ofName (normalKey setting.1)

namespace Options

/-- An unknown profile gives way to the standard one. -/
def fallBack (o : Options) (f : Field) : Options :=
  if f = .text .profile ∧ ¬ IsProfile o.profile then { o with profile := "standard" } else o

/-- `_apply` -/
def apply (t : DigitTable) (o : Options) (setting : String × String) : Options :=
  match fieldOf setting with
  | none => o
  | some f =>
    match convert t f setting.2 with
    | .error _ => o.complain ("Invalid " ++ f.name ++ ": " ++ setting.2)
    | .ok v => (o.set f v).fallBack f

end Options

/-! ## Ranges -/

namespace Field

/-- The bounds of an option, with the texts they are shown by. -/
structure Bounds (α : Type) where
  low : α
  high : α
  lowText : String
  highText : String

def intBounds : IntField → Bounds Int
  | .destructiveCountdown => ⟨0, 3600, "0", "3600"⟩
  | .rebootCycles => ⟨0, 50, "0", "50"⟩
  | .maxUnexpectedReboots => ⟨1, 50, "1", "50"⟩
  | .ceFail | .mceFail | .aerFail | .sataLinkFail => ⟨1, 1000000, "1", "1000000"⟩

def floatBounds : FloatField → Bounds PyFloat
  | .hours => ⟨.finite 0, .finite 8760, "0", "8760"⟩
  | .cpuTempWarn | .driveTempWarn => ⟨.finite 20, .finite 150, "20", "150"⟩
  | .slowReadSeconds => ⟨.ofRat (1 / 1000), .finite 3600, "0.001", "3600"⟩

def allowed : TextField → Option (List String)
  | .destructive => some ["0", "1", "yes", "true", "force"]
  | .rebootMethod => some ["auto", "ipmi", "reboot"]
  | _ => none

def outOfRange {α : Type} (name : String) (b : Bounds α) (value : String) : String :=
  s!"{name} must be between {b.lowText} and {b.highText}; got {value}"

/-- `math.isfinite(value)`, which converts an integer to a float. -/
def isfinite : (f : Field) → f.Value → Except PyError Bool
  | int _, v => (PyFloat.ofInt v).map fun _ => true
  | float _, v => .ok (match v with
    | .finite _ => true
    | _ => false)
  | _, _ => .ok true

/-- The value lies in the range of the option, or is one of those allowed. -/
def admits : (f : Field) → f.Value → Bool
  | int f, v => decide ((intBounds f).low ≤ v ∧ v ≤ (intBounds f).high)
  | float f, v => (floatBounds f).low.le v && v.le (floatBounds f).high
  | text f, v => (allowed f).all fun l => decide (v ∈ l)
  | _, _ => true

def problem : (f : Field) → f.Value → String
  | int f, v => outOfRange (int f).name (intBounds f) (toString v)
  | float f, v => outOfRange (float f).name (floatBounds f) v.repr
  | text f, v => "Invalid " ++ (text f).name ++ ": " ++ v
  | _, _ => ""

/-- The options with a range and those with allowed values, in the order they are checked in. -/
def checked : List Field :=
  [float .hours, int .destructiveCountdown, int .rebootCycles, int .maxUnexpectedReboots,
    float .cpuTempWarn, float .driveTempWarn, float .slowReadSeconds, int .ceFail, int .mceFail,
    int .aerFail, int .sataLinkFail, text .destructive, text .rebootMethod]

end Field

namespace Options

/-- An option that fails its check is noted, and put back to its default. -/
def check (o : Options) (f : Field) : Except PyError Options := do
  let finite ← f.isfinite (o.get f)
  if finite = true ∧ f.admits (o.get f) = true then return o
  else return (o.complain (f.problem (o.get f))).set f (({} : Options).get f)

def checkAll (o : Options) : List Field → Except PyError Options
  | [] => .ok o
  | f :: rest => (o.check f).bind fun o => o.checkAll rest

end Options

/-- The settings in the order they are applied in: those of pccheck.conf, if there is a data
partition, and those of the command line. -/
def applied (conf : Option String) (cmdline : String) : List (String × String) :=
  (conf.elim [] fun text => (parseConf text).entries) ++ (parseCmdline cmdline).entries

def loadOptions (t : DigitTable) (conf : Option String) (cmdline : String) :
    Except PyError Options :=
  ((applied conf cmdline).foldl (Options.apply t) {}).checkAll Field.checked

end PcCheck

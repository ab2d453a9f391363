import SpinHub.Build

/-!
# Clock settings

The root object sets the clock by the constants `_CLKFREQ`, `_XINFREQ` and `_CLKMODE`.
-/

namespace SpinHub

/-- The frequency and the mode byte of the clock. -/
structure Clock where
  frequency : Word := 12000000
  mode : UInt8 := 0
deriving DecidableEq

/-- A constant with a word as its value, and the place of its declaration. -/
structure Setting where
  value : Word
  pos : Pos

namespace Site

/-- The constant of the object that sets something, if there is one. It must be a word. -/
def setting (site : Site) (name : String) : Eval (Option Setting) := do
  match site.lookup? name with
  | none => return none
  | some (.con owner index con) =>
    match ← site.conValue owner index con with
    | .int value => return some { value, pos := con.name.pos }
    | .float _ => inFile site.object.file (failAt con.name.pos (.constantNotAnInt name))
  | some _ => inFile site.object.file (failAt {} (.notAConstantSymbol name))

/-- The word of a setting, or a default. -/
def settingOr (site : Site) (name : String) (default : Int) : Eval Int := do
  match ← site.setting name with
  | some setting => return setting.value.toInt
  | none => return default

end Site

namespace Clock

/-- The number of the only bit set among the low `count` bits of a word; none if no bit is. -/
def onlyBit (count : Nat) (w : Word) : Except Cause (Option Nat) :=
  match (List.range count).filter w.getLsbD with
  | [] => .ok none
  | [bit] => .ok (some bit)
  | _ => .error .invalidClockMode

/-- The bits of the mode byte for an oscillator, given by its number. -/
def oscillator : Option Nat → UInt8
  | none | some 0 => 0x00
  | some 1 => 0x01
  | some 2 => 0x02
  | some 3 => 0x2a
  | some 4 => 0x32
  | some _ => 0x3a

/-- The mode byte of `_CLKMODE`, which names one oscillator and at most one multiplier. -/
def modeByte (mode : Word) : Except Cause UInt8 := do
  let base := oscillator (← onlyBit 6 mode)
  let multiplier := mode.sshiftRight 6
  if multiplier = 0 then return base
  else
    match ← onlyBit 5 multiplier with
    | none => return base ||| 0x60
    | some bit => return (base ||| 0x60) + UInt8.ofNat (bit + 1)

/-- The frequency that a crystal gives in a mode. -/
def crystal (frequency mode : Word) : Word := frequency * mode.sshiftRight 6

/-- The clock of the settings of `_CLKFREQ`, `_XINFREQ` and `_CLKMODE`. If all are given they
have to agree. -/
def ofSettings (frequency xin mode : Option Setting) : Except Fault Clock :=
  let withMode (frequency : Word) (mode : Setting) : Except Fault Clock :=
    match modeByte mode.value with
    | .ok byte => .ok { frequency, mode := byte }
    | .error cause => .error { cause, pos := mode.pos }
  match frequency, xin, mode with
  | none, none, none => .ok {}
  | _, some xin, none => .error { cause := .clockModeMissing, pos := xin.pos }
  | some frequency, none, none => .error { cause := .clockModeMissing, pos := frequency.pos }
  | none, none, some mode => .error { cause := .clockFrequencyMissing, pos := mode.pos }
  | some frequency, none, some mode => withMode frequency.value mode
  | none, some xin, some mode => withMode (crystal xin.value mode.value) mode
  | some frequency, some xin, some mode =>
    if frequency.value = crystal xin.value mode.value then withMode frequency.value mode
    else .error { cause := .clockConflict, pos := frequency.pos }

end Clock

/-- The clock of the root object. -/
def Step.clock : Step Clock := do
  let build ← get
  let site := build.site Build.root
  let frequency ← evaluate (site.setting "_CLKFREQ")
  let xin ← evaluate (site.setting "_XINFREQ")
  let mode ← evaluate (site.setting "_CLKMODE")
  inFile site.object.file (liftM (Clock.ofSettings frequency xin mode))

end SpinHub

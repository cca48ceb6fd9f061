import IntCalc.Arithmetic

/-!
# Settings

`Settings` collects what can be configured and `Settings.default` is what
the program uses. `Settings.check` finds the first rule a configuration
breaks.
-/

namespace IntCalc

/-- The configuration of the program. -/
structure Settings where
  /-- The type that bounds literals and results. -/
  bounded : IntType := .int16
  /-- The type in which values are computed. -/
  working : IntType := workingType
  /-- The value of a division by zero. -/
  placeholder : Int := 0
  cacheSize : Int := 1000
  /-- Lines that end the input. -/
  quitCommands : List String := ["q", "p"]
  /-- Where results are saved if no other place is named. -/
  resultsPath : String := "bares_results.csv"
  deriving DecidableEq, Repr

/-- A rule of configuration that is broken. -/
inductive SettingsError
  | unsignedType
  | workingTooNarrow
  | negativeCacheSize
  | emptyQuitCommand
  deriving DecidableEq, Repr

/-- The text of a broken rule. -/
def SettingsError.message : SettingsError → String
  | unsignedType => "只支持有符号整数类型"
  | workingTooNarrow => "工作类型必须严格宽于结果类型，才能检测溢出"
  | negativeCacheSize => "缓存大小不能为负"
  | emptyQuitCommand => "退出命令不能为空"

namespace Settings

/-- The settings of the program. -/
def default : Settings :=
  {}

/-- The first broken rule: both types are signed, the working type is the
wider one, the cache size is not negative and no quit command is empty. -/
def check (s : Settings) : Except SettingsError Unit :=
  if !(s.bounded.signed && s.working.signed) then .error .unsignedType
  else if s.working.bits ≤ s.bounded.bits then .error .workingTooNarrow
  else if s.cacheSize < 0 then .error .negativeCacheSize
  else if s.quitCommands.any String.isEmpty then .error .emptyQuitCommand
  else .ok ()

end Settings

end IntCalc

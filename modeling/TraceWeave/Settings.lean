/-!
# Settings

The naming rules that tell infrastructure, test classes and test methods apart, and the settings of
weaving and of the recorder.
-/

namespace TraceWeave

/-- The settings of weaving. -/
structure Settings where
  /-- What the names of infrastructure classes begin with; nothing means that there are none. -/
  infrastructureStem : String := "Logger"
  /-- What the names of test classes end with; nothing means that there are none. -/
  testClassEnding : String := "Test"
  /-- What the names of test methods begin with; nothing means that only test classes have any. -/
  testMethodStem : String := "test"
  /-- How far a requested line may be from the nearest line of a method. -/
  lineTolerance : UInt32 := 1
  /-- Whether tests are marked in the trace. -/
  testLifecycle : Bool := true
deriving DecidableEq, Repr

namespace Settings

/-- Whether a class belongs to the tracing infrastructure. -/
def isInfrastructure (s : Settings) (className : String) : Bool :=
  s.infrastructureStem != "" && s.infrastructureStem.toList.isPrefixOf className.toList

/-- Whether a class is a test class. -/
def isTestClass (s : Settings) (className : String) : Bool :=
  s.testClassEnding != "" && s.testClassEnding.toList.isSuffixOf className.toList

/-- Whether a method is a test method. -/
def isTestMethod (s : Settings) (className method : String) : Bool :=
  s.isTestClass className ||
    (s.testMethodStem != "" && s.testMethodStem.toList.isPrefixOf method.toList)

end Settings

/-- The settings of the recorder. -/
structure RecorderSettings where
  /-- The number of records in a batch that makes it due. -/
  flushThreshold : UInt64 := 1000
  /-- The path of the log. -/
  logPath : String := "coverage.log"
deriving DecidableEq, Repr

/-- Recorder settings from a threshold, where zero asks for the default one, and a path, if one is
given. -/
def RecorderSettings.ofRequest (threshold : UInt64) (path : Option String) : RecorderSettings :=
  let defaults : RecorderSettings := {}
  { flushThreshold := if threshold = 0 then defaults.flushThreshold else threshold
    logPath := path.getD defaults.logPath }

end TraceWeave

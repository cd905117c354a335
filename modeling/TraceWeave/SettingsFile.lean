import TraceWeave.Json.Fields
import TraceWeave.Json.Reader
import TraceWeave.Settings
/-!
# Settings files

A settings file is a record in which every field may be missing: what it leaves out keeps its usual
value.
-/

namespace TraceWeave

open Json

namespace Settings

/-- The names of the settings in files, in the order of their declaration. -/
def fieldNames : List String :=
  ["infrastructure_prefix", "test_class_suffix", "test_method_prefix", "line_tolerance",
    "test_lifecycle"]

/-- The document of settings. -/
def toJson (s : Settings) : Json :=
  record [("infrastructure_prefix", .string s.infrastructureStem),
    ("test_class_suffix", .string s.testClassEnding),
    ("test_method_prefix", .string s.testMethodStem),
    ("line_tolerance", .ofNat s.lineTolerance.toNat),
    ("test_lifecycle", .bool s.testLifecycle)]

/-- Reads settings. -/
def ofJson? (j : Json) : Option Settings := do
  let usual : Settings := {}
  match ← fields? fieldNames j with
  | [infrastructure, testClass, testMethod, tolerance, lifecycle] =>
    return { infrastructureStem := ← fieldOr usual.infrastructureStem text? infrastructure,
             testClassEnding := ← fieldOr usual.testClassEnding text? testClass,
             testMethodStem := ← fieldOr usual.testMethodStem text? testMethod,
             lineTolerance := ← fieldOr usual.lineTolerance uint32? tolerance,
             testLifecycle := ← fieldOr usual.testLifecycle bool? lifecycle }
  | _ => none

/-- Reads the text of a settings file. -/
def ofFileText? (text : String) : Option Settings := (Json.parse? text).bind ofJson?

end Settings

namespace RecorderSettings

/-- The document of recorder settings. -/
def toJson (s : RecorderSettings) : Json :=
  record [("flush_threshold", .ofNat s.flushThreshold.toNat), ("log_path", .string s.logPath)]

/-- Reads recorder settings. -/
def ofJson? (j : Json) : Option RecorderSettings := do
  let usual : RecorderSettings := {}
  match ← fields? ["flush_threshold", "log_path"] j with
  | [threshold, path] =>
    return { flushThreshold := ← fieldOr usual.flushThreshold uint64? threshold,
             logPath := ← fieldOr usual.logPath text? path }
  | _ => none

end RecorderSettings

end TraceWeave

import SpaceAudit.Pattern.Reader
import SpaceAudit.Settings.Basic
import SpaceAudit.Toml.Reader

/-! Settings from a file. Keys that are absent keep their standard value, unknown keys say nothing,
and a key with a value of the wrong kind spoils the file. -/
namespace SpaceAudit

inductive SettingsFault where
  | file (e : Toml.Fault)
  | wrongKind (key : String)
  | pattern (e : PatternFault)
deriving DecidableEq, Repr

namespace Toml.Value

def text? : Value → Option String
  | text s => some s
  | _ => none

def texts? : Value → Option (List String)
  | array items => items.mapM text?
  | _ => none

def isEmpty : Value → Bool
  | array [] => true
  | table _ [] => true
  | _ => false

/-- A severity by name, or as a table whose one key is the name. -/
def severity? : Value → Option Severity
  | text s => Severity.ofText? s
  | table _ [(name, v)] => if v.isEmpty then Severity.ofText? name else none
  | _ => none

end Toml.Value

namespace Settings

def read {α : Type} (es : Toml.Entries) (convert : Toml.Value → Option α) (key : String)
    (standard : α) : Except SettingsFault α :=
  match es.lookup key with
  | none => .ok standard
  | some v =>
    match convert v with
    | some a => .ok a
    | none => .error (.wrongKind key)

def ofEntries (es : Toml.Entries) : Except SettingsFault Settings := do
  let d := Settings.standard
  let texts := read es Toml.Value.texts?
  let text := read es Toml.Value.text?
  return {
    deviceFunctionMarkers := ← texts "device_function_markers" d.deviceFunctionMarkers
    deviceLambdaMarkers := ← texts "device_lambda_markers" d.deviceLambdaMarkers
    classLambdaMarkers := ← texts "class_lambda_markers" d.classLambdaMarkers
    deviceMarkerStart := ← text "device_marker_prefix" d.deviceMarkerStart
    fieldFamilies := ← texts "field_families" d.fieldFamilies
    owningMarker := ← text "owning_marker" d.owningMarker
    owningReturnPattern := ← text "owning_return_pattern" d.owningReturnPattern
    hostWrappers := ← texts "host_wrappers" d.hostWrappers
    deviceSpaceMarkers := ← texts "device_space_markers" d.deviceSpaceMarkers
    hostSpaceMarkers := ← texts "host_space_markers" d.hostSpaceMarkers
    mirrorFunctions := ← texts "mirror_functions" d.mirrorFunctions
    dispatchFunctions := ← texts "dispatch_functions" d.dispatchFunctions
    deviceSafeStd := ← texts "device_safe_std" d.deviceSafeStd
    sharedHeaders := ← texts "shared_headers" d.sharedHeaders
    downgradedFiles := ← texts "host_mismatch_downgrade_files" d.downgradedFiles
    failLevel := ← read es Toml.Value.severity? "fail_level" d.failLevel
    projectFolders := ← texts "project_folders" d.projectFolders
    multipatchFolder := ← text "multipatch_folder" d.multipatchFolder
    frontEndArguments := ← texts "frontend_args" d.frontEndArguments }

/-- The settings that a file holds. Their pattern has to be one. -/
def ofText (text : String) : Except SettingsFault Settings :=
  match Toml.ofText text with
  | .error e => .error (.file e)
  | .ok es =>
    match ofEntries es with
    | .error e => .error e
    | .ok s =>
      match Pattern.ofText s.owningReturnPattern with
      | .error e => .error (.pattern e)
      | .ok _ => .ok s

def isOwning (s : Settings) : String → Bool :=
  match Pattern.ofText s.owningReturnPattern with
  | .error _ => fun _ => false
  | .ok p => p.matchesIn

end Settings

end SpaceAudit

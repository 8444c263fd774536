import SpaceAudit.Finding.Basic

/-! The vocabulary of a project: which names mark device code, fields, spaces, mirrors and launches,
and where its sources lie. -/
namespace SpaceAudit

structure Settings where
  deviceFunctionMarkers : List String
  deviceLambdaMarkers : List String
  classLambdaMarkers : List String
  /-- Any other word before a body that starts so marks device code; empty, none does. -/
  deviceMarkerStart : String
  fieldFamilies : List String
  /-- What the names of owning types hold. -/
  owningMarker : String
  owningReturnPattern : String
  hostWrappers : List String
  deviceSpaceMarkers : List String
  hostSpaceMarkers : List String
  mirrorFunctions : List String
  dispatchFunctions : List String
  deviceSafeStd : List String
  sharedHeaders : List String
  downgradedFiles : List String
  failLevel : Severity
  projectFolders : List String
  multipatchFolder : String
  frontEndArguments : List String
deriving DecidableEq, Repr

namespace Settings

def standard : Settings where
  deviceFunctionMarkers :=
    ["KOKKOS_FUNCTION", "KOKKOS_INLINE_FUNCTION", "KOKKOS_FORCEINLINE_FUNCTION",
      "KOKKOS_DEFAULTED_FUNCTION"]
  deviceLambdaMarkers := ["KOKKOS_LAMBDA"]
  classLambdaMarkers := ["KOKKOS_CLASS_LAMBDA"]
  deviceMarkerStart := "KOKKOS_"
  fieldFamilies :=
    ["FieldMem", "DFieldMem", "VectorFieldMem", "DVectorFieldMem", "Field", "DField", "ConstField",
      "DConstField", "VectorField", "DVectorField", "VectorConstField", "DVectorConstField",
      "DiscreteToCartesian"]
  owningMarker := "Mem"
  owningReturnPattern := "\\b(ddc\\s*::\\s*Chunk|\\w*FieldMem)\\b"
  hostWrappers := ["host_t"]
  deviceSpaceMarkers :=
    ["DefaultExecutionSpace", "CudaSpace", "HIPSpace", "SYCLDeviceUSMSpace", "DeviceAllocator"]
  hostSpaceMarkers := ["DefaultHostExecutionSpace", "HostSpace", "HostAllocator"]
  mirrorFunctions :=
    ["create_mirror", "create_mirror_and_copy", "create_mirror_view", "create_mirror_view_and_copy"]
  dispatchFunctions :=
    ["parallel_for_each", "parallel_for", "parallel_reduce", "parallel_transform_reduce",
      "parallel_scan"]
  deviceSafeStd :=
    ["size_t", "array", "integral_constant", "index_sequence", "make_index_sequence", "is_same_v",
      "is_same", "enable_if_t", "conditional_t", "remove_cv_t", "remove_reference_t", "decay_t",
      "tuple_size_v", "numeric_limits"]
  sharedHeaders := ["geometry.hpp", "species_info.hpp", "geometry_mp.hpp"]
  downgradedFiles := ["species_info.hpp"]
  failLevel := .error
  projectFolders := ["src", "simulations", "tests"]
  multipatchFolder := "tests/multipatch"
  frontEndArguments :=
    ["--dump", "--library=googletest", "--check-level=exhaustive", "--enable=style", "--std=c++17",
      "--max-ctu-depth=5", "--suppress=unusedStructMember"]

def isFieldFamily (s : Settings) (text : String) : Bool := s.fieldFamilies.contains text

/-- In these files a mismatch in host code is only a warning. -/
def downgrades (s : Settings) (file : Path) : Bool :=
  s.downgradedFiles.any fun name => file.endsWith ⟨name⟩

end Settings

end SpaceAudit

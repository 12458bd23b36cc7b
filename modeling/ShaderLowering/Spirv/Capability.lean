/-!
# Capabilities and extensions

What a module has to declare before it may use certain types and builtins.
-/

namespace ShaderLowering.Spirv

/-- A capability of the target. -/
inductive Capability
  | shader
  | int16
  | float16
  | int64
  | float64
  | storageInputOutput16
  | image1D
  | sampled1D
  | imageBuffer
  | sampledBuffer
  | imageCubeArray
  | sampledCubeArray
  | storageImageExtendedFormats
  | inputAttachment
  | clipDistance
  | cullDistance
  | sampleRateShading
  | geometry
  | shaderViewportIndexLayer
  | stencilExport
  | fragmentFullyCovered
  | drawParameters
  | deviceGroup
  | multiView
  | runtimeDescriptorArray
deriving DecidableEq, Repr, Inhabited

namespace Capability

/-- All capabilities, in the order of a listing. -/
def all : List Capability :=
  [shader, int16, float16, int64, float64, storageInputOutput16, image1D, sampled1D, imageBuffer,
    sampledBuffer, imageCubeArray, sampledCubeArray, storageImageExtendedFormats, inputAttachment,
    clipDistance, cullDistance, sampleRateShading, geometry, shaderViewportIndexLayer,
    stencilExport, fragmentFullyCovered, drawParameters, deviceGroup, multiView,
    runtimeDescriptorArray]

theorem mem_all (c : Capability) : c ∈ all := by
  cases c <;> decide

/-- The name of a capability. -/
def text : Capability → String
  | shader => "Shader"
  | int16 => "Int16"
  | float16 => "Float16"
  | int64 => "Int64"
  | float64 => "Float64"
  | storageInputOutput16 => "StorageInputOutput16"
  | image1D => "Image1D"
  | sampled1D => "Sampled1D"
  | imageBuffer => "ImageBuffer"
  | sampledBuffer => "SampledBuffer"
  | imageCubeArray => "ImageCubeArray"
  | sampledCubeArray => "SampledCubeArray"
  | storageImageExtendedFormats => "StorageImageExtendedFormats"
  | inputAttachment => "InputAttachment"
  | clipDistance => "ClipDistance"
  | cullDistance => "CullDistance"
  | sampleRateShading => "SampleRateShading"
  | geometry => "Geometry"
  | shaderViewportIndexLayer => "ShaderViewportIndexLayerEXT"
  | stencilExport => "StencilExportEXT"
  | fragmentFullyCovered => "FragmentFullyCoveredEXT"
  | drawParameters => "DrawParameters"
  | deviceGroup => "DeviceGroup"
  | multiView => "MultiView"
  | runtimeDescriptorArray => "RuntimeDescriptorArrayEXT"

end Capability

/-- An extension of the target. -/
inductive Extension
  | descriptorIndexing
  | shaderViewportIndexLayer
  | shaderStencilExport
  | fragmentFullyCovered
  | shaderDrawParameters
  | deviceGroup
  | multiview
  | storage16Bit
deriving DecidableEq, Repr, Inhabited

namespace Extension

/-- All extensions, in the order of a listing. -/
def all : List Extension :=
  [descriptorIndexing, shaderViewportIndexLayer, shaderStencilExport, fragmentFullyCovered,
    shaderDrawParameters, deviceGroup, multiview, storage16Bit]

theorem mem_all (e : Extension) : e ∈ all := by
  cases e <;> decide

/-- The registered name of an extension. -/
def name : Extension → String
  | descriptorIndexing => "SPV_EXT_descriptor_indexing"
  | shaderViewportIndexLayer => "SPV_EXT_shader_viewport_index_layer"
  | shaderStencilExport => "SPV_EXT_shader_stencil_export"
  | fragmentFullyCovered => "SPV_EXT_fragment_fully_covered"
  | shaderDrawParameters => "SPV_KHR_shader_draw_parameters"
  | deviceGroup => "SPV_KHR_device_group"
  | multiview => "SPV_KHR_multiview"
  | storage16Bit => "SPV_KHR_16bit_storage"

end Extension

end ShaderLowering.Spirv

import ParameterHints.Inlay
import ParameterHints.Wire.Declaration

/-! # The written form of hints -/

namespace ParameterHints.Wire

open Json (Format)

def methodInfo : Format MethodInfo :=
  .record "the identity of a method" ⟨"", []⟩
    [.required "full_name" .text MethodInfo.fullName (fun i fullName => { i with fullName }),
      .required "param_names" (.list .text) MethodInfo.parameterNames
        (fun i parameterNames => { i with parameterNames })]

def parameterHint : Format ParameterHint :=
  .record "a parameter hint" ⟨"", 0⟩
    [.required "text" .text ParameterHint.text (fun h text => { h with text }),
      .required "offset" .unsigned32 ParameterHint.offset (fun h offset => { h with offset })]

/-- The one kind of inlay hint, which names a parameter. -/
def inlayKind : Format Unit := .choice [.bare "parameter" ()] fun _ => .text "parameter"

/-- Inlay hints; a tooltip is written only when there is one. -/
def inlayHint : Format InlayHint :=
  .record "an inlay hint" ⟨⟨0, 0⟩, "", none⟩
    [.required "position" position InlayHint.position (fun h position => { h with position }),
      .required "label" .text InlayHint.label (fun h label => { h with label }),
      .required "kind" inlayKind (fun _ => ()) (fun h _ => h),
      { Json.RecordField.missable "tooltip" .text InlayHint.tooltip
          (fun h tooltip => { h with tooltip }) with
        write := fun h => h.tooltip.map .text }]

end ParameterHints.Wire

import ParameterHints.Call.Binding
import ParameterHints.Wire.Syntax

/-! # The written form of declarations -/

namespace ParameterHints.Wire

open Json (Format)

def classDecl : Format ClassDecl :=
  .record "a class" ⟨"", none⟩
    [.required "name" .text ClassDecl.name (fun c name => { c with name }),
      .missable "qualified_name" .text ClassDecl.qualifiedName
        (fun c qualifiedName => { c with qualifiedName })]

def writeParameterType : ParameterType → Json
  | .object => .text "Object"
  | .int => .text "Int"
  | .string => .text "String"
  | .boolean => .text "Boolean"
  | .map => .text "Map"
  | .closure => .text "Closure"
  | .named name => .object [("Class", .text name)]

def parameterType : Format ParameterType :=
  .choice
    [.bare "Object" .object, .bare "Int" .int, .bare "String" .string, .bare "Boolean" .boolean,
      .bare "Map" .map, .bare "Closure" .closure,
      .holding "Class" (Json.Reader.mapped .named Json.Reader.text)]
    writeParameterType

def parameterFields : List (Json.RecordField Parameter) :=
  [.missable "name" .text Parameter.name (fun p name => { p with name }),
    .required "ty" parameterType Parameter.type (fun p type => { p with type }),
    .required "varargs" .boolean Parameter.varargs (fun p varargs => { p with varargs })]

/-- Parameters as they are declared. -/
def parameter : Format Parameter :=
  .record "a parameter" ⟨none, .object, false⟩ parameterFields

/-- Parameters of a resolved call. -/
def signatureParameter : Format Parameter :=
  .record "a parameter of a signature" ⟨none, .object, false⟩ parameterFields

def signature : Format Signature :=
  .record "a signature" []
    [.required "parameters" (.list signatureParameter) (fun s => s)
      (fun _ parameters => parameters)]

def wrapperTarget : Format MethodId :=
  .record "the target of a wrapper" 0
    [.required "static_method" .unsigned32 (fun target => target) (fun _ target => target)]

def methodKind : Format MethodKind :=
  .choice
    [.bare "Regular" .regular, .holding "Gdk" (Json.Reader.mapped .wrapper wrapperTarget.read)]
    fun
      | .regular => .text "Regular"
      | .wrapper target => .object [("Gdk", wrapperTarget.write target)]

def method : Format Method :=
  .record "a method" ⟨"", none, [], .regular⟩
    [.required "name" .text Method.name (fun m name => { m with name }),
      .missable "containing_class" .unsigned32 Method.containingClass
        (fun m containingClass => { m with containingClass }),
      .required "parameters" (.list parameter) Method.parameters
        (fun m parameters => { m with parameters }),
      .required "kind" methodKind Method.kind (fun m kind => { m with kind })]

def binding : Format Binding :=
  .record "a binding" ⟨[], false⟩
    [.required "args" (.list index) Binding.arguments (fun b arguments => { b with arguments }),
      .required "is_multi_arg" .boolean Binding.aggregating
        (fun b aggregating => { b with aggregating })]

end ParameterHints.Wire

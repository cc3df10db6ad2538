import ParameterHints.Config.Basic
import ParameterHints.Json.Format
import ParameterHints.Json.Printer

/-! # The text of a configuration

A configuration is written as a JSON record. Every field may be left out, and then keeps its
default.
-/

namespace ParameterHints.Config

open Json (Format RecordField)

def fields : List (RecordField Config) :=
  [.free "parameterHints" .boolean parameterHints
      (fun c shown => { c with parameterHints := shown }),
    .free "extraDenylist" (.list .text) extraDenylist
      (fun c patterns => { c with extraDenylist := patterns }),
    .free "dependencyDenylists" (.dictionary (.list .text)) dependencyDenylists
      (fun c patterns => { c with dependencyDenylists := patterns })]

def format : Format Config := .record "struct InlayHintsConfig" default fields

def ofText (text : String) : Except JsonError Config := format.readText text

/-- The text of a configuration, with all of its fields. -/
def toText (c : Config) : String := String.ofList (Json.writeValue (format.write c))

end ParameterHints.Config

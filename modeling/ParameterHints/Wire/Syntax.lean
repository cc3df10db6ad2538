import ParameterHints.Json.Format
import ParameterHints.Language
import ParameterHints.Syntax.Arena
import ParameterHints.Text.LineMap

/-! # The written form of texts and trees

A place without a node, and the lack of data, are written as the largest number of 32 bits.
-/

namespace ParameterHints.Wire

open Json (Format)

def language : Format Language :=
  .choice [.bare "groovy" .groovy, .bare "java" .java] fun l => .text l.id

def position : Format Position :=
  .record "a position" ⟨0, 0⟩
    [.required "line" .unsigned32 Position.line (fun p line => { p with line }),
      .required "character" .unsigned32 Position.column (fun p column => { p with column })]

def positionRange : Format PositionRange :=
  .record "a range of positions" ⟨⟨0, 0⟩, ⟨0, 0⟩⟩
    [.required "start" position PositionRange.start (fun r start => { r with start }),
      .required "end" position PositionRange.stop (fun r stop => { r with stop })]

def span : Format Span :=
  .record "a span" ⟨0, 0⟩
    [.required "start" .unsigned32 Span.start (fun s start => { s with start }),
      .required "end" .unsigned32 Span.stop (fun s stop => { s with stop })]

/-- Indices that may be missing. -/
def index : Format (Option Nat) where
  read := Json.Reader.mapped (fun n => if n = maxOffset then none else some n)
    Json.Reader.unsigned32
  write i := .number (i.getD maxOffset)

def nodeKind : Format NodeKind :=
  .choice (NodeKind.all.map fun kind => .bare kind.name kind) fun kind => .text kind.name

def node : Format Node :=
  .record "a node" ⟨.sourceFile, 0, 0, none⟩
    [.required "kind" nodeKind Node.kind (fun n kind => { n with kind }),
      .required "pos" .unsigned32 Node.start (fun n start => { n with start }),
      .required "end" .unsigned32 Node.stop (fun n stop => { n with stop }),
      .required "data_index" index Node.data (fun n data => { n with data })]

def places : Format (List NodeRef) :=
  .record "a list of places" []
    [.required "nodes" (.list index) (fun places => places) (fun _ places => places)]

def identifier : Format String :=
  .record "an identifier" ""
    [.required "text" .text (fun text => text) (fun _ text => text)]

def literal : Format String :=
  .record "a literal" ""
    [.required "text" .text (fun text => text) (fun _ text => text)]

def reference : Format Reference :=
  .record "a reference" ⟨none, none⟩
    [.required "qualifier" index Reference.qualifier (fun r qualifier => { r with qualifier }),
      .required "name" index Reference.name (fun r name => { r with name })]

def call : Format Call :=
  .record "a call" ⟨none, [], []⟩
    [.required "callee" index Call.callee (fun c callee => { c with callee }),
      .required "arguments" places Call.arguments (fun c arguments => { c with arguments }),
      .required "closure_arguments" places Call.closures (fun c closures => { c with closures })]

def namedArgument : Format NamedArgument :=
  .record "a named argument" ⟨none, none⟩
    [.required "label" index NamedArgument.label (fun a label => { a with label }),
      .required "value" index NamedArgument.value (fun a value => { a with value })]

def closure : Format (List NodeRef) :=
  .record "a closure" []
    [.required "statements" places (fun places => places) (fun _ places => places)]

def sourceFile : Format (List NodeRef) :=
  .record "a source file" []
    [.required "statements" places (fun places => places) (fun _ places => places)]

def arena : Format Arena :=
  .record "an arena" .empty
    [.required "nodes" (.array node) Arena.nodes (fun a nodes => { a with nodes }),
      .required "identifiers" (.array identifier) Arena.identifiers
        (fun a identifiers => { a with identifiers }),
      .required "literals" (.array literal) Arena.literals (fun a literals => { a with literals }),
      .required "references" (.array reference) Arena.references
        (fun a references => { a with references }),
      .required "call_exprs" (.array call) Arena.calls (fun a calls => { a with calls }),
      .required "named_arguments" (.array namedArgument) Arena.namedArguments
        (fun a namedArguments => { a with namedArguments }),
      .required "closures" (.array closure) Arena.closures (fun a closures => { a with closures }),
      .required "source_files" (.array sourceFile) Arena.sourceFiles
        (fun a sourceFiles => { a with sourceFiles })]

end ParameterHints.Wire

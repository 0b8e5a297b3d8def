import GridKernel.Diagnostic.Basic
import GridKernel.Diagnostic.Snippet
import GridKernel.Kernel.Schema
import GridKernel.Lang.Listing

/-!
# Diagnostics drawn into a listing

The offending statement in its listing with the message attached to it; then the help text and the
last note.
-/

namespace GridKernel.Diagnostic

/-- The span that is marked: the statement's, or the whole first line when there is no such
statement. -/
def marked (d : Diagnostic) (listing : Listing) : Span :=
  (d.position.bind fun p => listing.spans[p]?).getD
    ⟨0, ((Text.split '\n' listing.text).headD "").utf8ByteSize⟩

def headline (d : Diagnostic) : String := "[" ++ d.kind.code ++ "] Error: " ++ d.message ++ "\n"

/-- The name of the method with the line and the column of a spot, both from one. -/
def place (m : Method) (s : Text.Spot) : String :=
  m.name ++ ":" ++ toString (s.row + 1) ++ ":" ++ toString (s.column + 1)

/-- Draws the diagnostic into a listing of the method. Listings are taken to be ASCII text, in
which bytes and characters agree; of a span beyond the text only the headline is left. -/
def render (d : Diagnostic) (m : Method) : String :=
  let span := d.marked m.listing
  match Snippet.Part.of? m.listing.text.toList span.start span.stop with
  | none => d.headline
  | some part =>
    d.headline
      ++ part.margin ++ "╭─[" ++ place m part.first ++ "]\n"
      ++ part.margin ++ "│\n"
      ++ part.draw d.message
      ++ d.help.elim "" (part.remark "Help")
      ++ d.notes.getLast?.elim "" (part.remark "Note")
      ++ dashes (part.numberWidth + 2) ++ "╯\n"

end GridKernel.Diagnostic

/-- A diagnostic drawn into the method it names, or on one line if the schema has no such
method. -/
def GridKernel.Schema.explain (s : GridKernel.Schema) (d : GridKernel.Diagnostic) : String :=
  match s.methods.find? fun m => some m.name == d.method with
  | some m => d.render m
  | none => d.text

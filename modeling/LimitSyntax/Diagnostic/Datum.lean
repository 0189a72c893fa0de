import LimitSyntax.Datum
import LimitSyntax.Diagnostic.Collector

/-!
# Error messages as data

Hint, suggestion, cause and block are left out of a message that has none.
-/

namespace LimitSyntax.Diagnostic

def Block.datum (b : Block) : Datum :=
  .record "BlockContext"
    [("block_type", .text b.kind), ("start_line", .number b.line),
     ("start_column", .number b.column), ("start_lexeme", .text b.lexeme)]

/-- A field that is left out if there is no value. -/
def optionalField (name : String) (d : Option Datum) : List (String × Datum) :=
  (d.map fun d => [(name, d)]).getD []

def Message.datum (m : Message) : Datum :=
  .record "ErrorMessage" <|
    [("error_code", .text m.code.text), ("error_type", .symbol m.category.name),
     ("description", .text m.description), ("file_path", .text m.file), ("line", .number m.line),
     ("column", .number m.column), ("problematic_token", .text m.token),
     ("stage", .symbol m.stage.name), ("context_lines", .texts m.excerpt)] ++
    optionalField "hint" (m.hint.map .text) ++
    optionalField "suggestion" (m.suggestion.map .text) ++
    optionalField "caused_by" (m.cause.map .text) ++
    optionalField "block_context" (m.block.map Block.datum)

def Options.datum (o : Options) : Datum :=
  .record "RenderOptions"
    [("use_colors", .flag o.colors), ("show_file_path", .flag o.filePath),
     ("max_line_width", .number o.lineWidth), ("context_before", .number o.before),
     ("context_after", .number o.after)]

end LimitSyntax.Diagnostic

import TreeProjection.Host.Green
import TreeProjection.Projection.Session
import TreeProjection.Sample.Grammar
import TreeProjection.Sample.Lexer

/-! # Parsing sample sources

A whole source of the sample language, cut into tokens, parsed and built into a host tree. -/

namespace TreeProjection.Sample

/-- The builder over a source, with a flag that no one sets. -/
def host (source : String) : Supervised GreenBuilder where
  builder := .ofText (cut source) language
  elements := language.elements

/-- Parse a whole source. -/
def parse (source : String) : Except Abort HostTree :=
  (({} : Session).project grammar scriptRule .file (host source)).1.outcome

end TreeProjection.Sample

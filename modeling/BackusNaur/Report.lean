import BackusNaur.Document.Value
import BackusNaur.Matcher

/-!
# Reports

The report of a result lists the spans of each symbol under a heading, with an empty line after
each symbol. Symbols without spans are left out. A result can also be given as a document.
-/

namespace BackusNaur.MatchResult

def linesFor (r : MatchResult) (symbol : String) : List String :=
  let texts := r.spans.textsOf symbol
  if texts.isEmpty then []
  else s!"Matches for <{symbol}>:" :: texts.map (">>> " ++ ·) ++ [""]

/-- The report of the given symbols in their order, or of all symbols in increasing order. -/
def report (r : MatchResult) (symbols : Option (List String) := none) : String :=
  let order := symbols.getD (r.spans.map Prod.fst)
  String.join ((order.flatMap r.linesFor).map (· ++ "\n"))

def toValue (symbol : String) (r : MatchResult) : Value :=
  .table
    [("symbol", .text symbol), ("matched", .bool r.matched), ("end", .integer r.stop),
      ("tokens", .ofTexts r.tokens),
      ("spans", .table (r.spans.map fun (name, texts) => (name, .ofTexts texts)))]

end BackusNaur.MatchResult

import BackusNaur.Search

/-!
# Texts of spans

A span is shown as its tokens between square brackets. The spans of a result are shown by name, and
of two spans of a name with the same text only one.
-/

namespace BackusNaur

/-- Tokens `lo` to `hi` in square brackets. Bounds before the start or past the end show nothing at
all; a negative `hi` counts from the end. -/
def spanText (tokens : List String) (lo hi : Int) : String :=
  if lo < 0 ∨ tokens.length < hi then ""
  else
    let stop := if hi < 0 then hi + tokens.length else hi
    "[ " ++ String.join (((tokens.take stop.toNat).drop lo.toNat).map (· ++ " ")) ++ "]"

def Span.text (tokens : List String) (s : Span) : String := spanText tokens s.lo s.hi

/-- Texts by name: the names increase and so do the texts of each name. -/
abbrev SpanTable := List (String × List String)

namespace SpanTable

def ofLists (lists : List (String × List String)) : SpanTable :=
  (Text.sortedSet (lists.map Prod.fst)).map fun name =>
    (name, Text.sortedSet ((lists.filter (·.1 == name)).flatMap Prod.snd))

def ofSpans (tokens : List String) (spans : List Span) : SpanTable :=
  ofLists (spans.map fun s => (s.name, [s.text tokens]))

def textsOf (table : SpanTable) (name : String) : List String := (List.lookup name table).getD []

end SpanTable

end BackusNaur

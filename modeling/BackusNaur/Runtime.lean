import BackusNaur.Files.Encoding
import BackusNaur.Listing
import BackusNaur.Notice
import BackusNaur.Overflow

/-!
# Runtimes

What a run takes from the libraries below it and does not decide by itself: how much of the stack is
left, which encodings there are, how a malformed document is told, how an error is traced, how a
table is drawn, and what becomes of two dashes that are written to a switch.
-/

namespace BackusNaur

inductive DocumentFormat where
  | json
  | toml
deriving DecidableEq, Repr

structure Runtime where
  /-- The frames that a search can take up. -/
  stack : Nat
  room : Room
  codecs : Codecs
  /-- Why a text is no document. -/
  malformed : DocumentFormat → List Char → String
  /-- All that is known of the error behind a notice. -/
  trace : Notice → String
  /-- A listing as a table, or why one of its texts is no markup. -/
  table : Listing → Except String String
  /-- Two dashes are kept where they are written to a switch. Otherwise they are lost there. -/
  keepsDashes : Bool

/-- A runtime that has no other encodings than those of `Codecs.basic`, and nothing to say of
documents, errors and listings. -/
def Runtime.basic : Runtime where
  stack := 900
  room := ⟨900, 900⟩
  codecs := .basic
  malformed _ _ := ""
  trace _ := ""
  table _ := .ok ""
  keepsDashes := true

end BackusNaur

import BackusNaur.CommandLine.Form
import BackusNaur.Failure
import BackusNaur.Log
import BackusNaur.Runtime

/-!
# Outcomes

What a run of the program leaves behind: the way it ended, what it has written, and its log.
-/

namespace BackusNaur.CommandLine

inductive Exit where
  | success
  | noMatch
  | failure
deriving DecidableEq, Repr

def Exit.code : Exit → Nat
  | success => 0
  | noMatch => 1
  | failure => 2

inductive Ending where
  | exit (e : Exit)
  /-- A fault that no notice was given of. -/
  | fault (f : Fault)
deriving DecidableEq, Repr

structure Outcome where
  ending : Ending
  output : String := ""
  log : List LogEntry := []
  errors : String := ""
deriving DecidableEq, Repr

namespace Outcome

def ofFailure (rt : Runtime) (verbose : Bool) : Failure → Outcome
  | .reported notice =>
    let trace := if verbose then some (Notice.excerpt (rt.trace notice)) else none
    { ending := .exit .failure, errors := notice.render verbose trace ++ "\n" }
  | .unexplained fault => { ending := .fault fault }

def ofAnswer (rt : Runtime) (verbose : Bool) : Except Failure (Exit × String) → Outcome
  | .ok (exit, output) => { ending := .exit exit, output }
  | .error failure => ofFailure rt verbose failure

def errorText (o : Outcome) (time : String) : String :=
  joinLines (o.log.map (LogEntry.render time)) ++ o.errors

end Outcome

end BackusNaur.CommandLine

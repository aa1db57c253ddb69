import Snbt.Automaton.Longest
import Snbt.Kind.Roles

namespace Snbt

/-!
# Scanning

A scan looks for the next token of a view: it passes over texts to be skipped,
lets texts that begin a longer token grow into it, and gathers a run of invalid
input into one piece.  It depends on nothing but the view and the settings; what
becomes of its result is not decided here.
-/

/-- A classified stretch of the buffer. -/
structure Lexeme where
  kind : Kind
  start : Nat
  stop : Nat
  deriving DecidableEq, Repr

/-- A view with what decides how it is cut. -/
structure Scanner where
  view : View
  mode : Mode
  active : KindSet
  roles : Roles

/-- A lexeme with the stretches that were skipped on the way to it. -/
structure Piece where
  lexeme : Lexeme
  skipped : List (Nat × Nat)
  deriving DecidableEq, Repr

/-- The next lexeme that is valid, and the run of invalid input before it. -/
structure Scan where
  invalid? : Option Lexeme
  lexeme : Lexeme
  skipped : List (Nat × Nat)
  deriving DecidableEq, Repr

namespace Scanner

/--
The next lexeme from an offset on.  `pending?` is where the texts before it
that begin a longer token started, and `skipped` what has been skipped so
far, the last first.

The first character is read, and its end kept.  Reading goes on through the
view as far as the automaton does, by the loop of `View.longest?`, and then
back: behind the longest text where one was found, and otherwise behind the
first character, which is invalid.  A beginning that the end of the input cuts
off is invalid too.
-/
def pieceFrom
    (scanner : Scanner)
    (pending? : Option Nat)
    (skipped : List (Nat × Nat))
    (offset : Nat) :
    Piece :=
  let place := scanner.view.settle offset
  let start := pending?.getD place
  match scanner.view.read? offset with
  | none =>
      let kind := if pending?.isSome then Kind.invalid else Kind.eof
      { lexeme := ⟨kind, start, place⟩, skipped }
  | some (_, after) =>
      match _found : scanner.view.longest? scanner.mode
        scanner.active offset with
      | none =>
          { lexeme := ⟨.invalid, start, after⟩, skipped }
      | some (kind, stop) =>
          match scanner.roles.role kind with
          | .skip =>
              scanner.pieceFrom none ((start, stop) :: skipped) stop
          | .more =>
              scanner.pieceFrom (some start) skipped stop
          | _ =>
              { lexeme := ⟨kind, start, stop⟩, skipped }
termination_by scanner.view.buffer.size - offset
decreasing_by
  all_goals
    have := View.longest?_bounds _found
    omega

/-- Invalid input is not empty and lies inside the buffer. -/
theorem pieceFrom_invalid
    (scanner : Scanner)
    (pending? : Option Nat)
    (skipped : List (Nat × Nat))
    (offset : Nat)
    (invalid :
      (scanner.pieceFrom pending? skipped offset).lexeme.kind = .invalid) :
    (pending? = none →
      offset < (scanner.pieceFrom pending? skipped offset).lexeme.stop) ∧
    (offset ≤ scanner.view.buffer.size →
      offset ≤ (scanner.pieceFrom pending? skipped offset).lexeme.stop) ∧
    (scanner.pieceFrom pending? skipped offset).lexeme.stop ≤
      scanner.view.buffer.size := by
  fun_induction scanner.pieceFrom pending? skipped offset with
  | case1 pending? skipped offset place start nothing kind =>
      have atEnd := View.settle_of_read?_none nothing
      refine ⟨?_, ?_, ?_⟩
      · rintro rfl
        simp [kind] at invalid
      · simp only [place]
        omega
      · simp only [place]
        omega
  | case2 pending? skipped offset place start char after read nothing =>
      have bounds := View.read?_bounds read
      exact ⟨fun _ => bounds.1, fun _ => Nat.le_of_lt bounds.1, bounds.2⟩
  | case3 pending? skipped offset place start char after read kind stop found
      role inductionHypothesis =>
      have bounds := View.longest?_bounds found
      obtain ⟨strict, _, inside⟩ := inductionHypothesis invalid
      have := strict rfl
      exact ⟨fun _ => by omega, fun _ => by omega, inside⟩
  | case4 pending? skipped offset place start char after read kind stop found
      role inductionHypothesis =>
      have bounds := View.longest?_bounds found
      obtain ⟨_, weak, inside⟩ := inductionHypothesis invalid
      have := weak bounds.2
      exact ⟨fun _ => by omega, fun _ => by omega, inside⟩
  | case5 pending? skipped offset place start char after read kind stop found
      role inductionHypothesis =>
      have bounds := View.longest?_bounds found
      exact ⟨fun _ => bounds.1, fun _ => Nat.le_of_lt bounds.1, bounds.2⟩

/-- The run of invalid input, longer by another piece of it. -/
def extend (invalid? : Option Lexeme) (piece : Lexeme) : Lexeme :=
  match invalid? with
  | some run => { run with stop := piece.stop }
  | none => piece

/--
The next valid lexeme, with the invalid input from an offset on
gathered into one run.
-/
def scanFrom
    (scanner : Scanner)
    (invalid? : Option Lexeme)
    (skipped : List (Nat × Nat))
    (offset : Nat) :
    Scan :=
  let raw := scanner.pieceFrom none skipped offset
  if _invalid : raw.lexeme.kind = .invalid then
    scanner.scanFrom (some (extend invalid? raw.lexeme)) raw.skipped
      raw.lexeme.stop
  else
    { invalid?, lexeme := raw.lexeme, skipped := raw.skipped }
termination_by scanner.view.buffer.size - offset
decreasing_by
  obtain ⟨forward, _, _⟩ :=
    scanner.pieceFrom_invalid none skipped offset _invalid
  have := forward rfl
  omega

/-- The next valid lexeme from an offset on, and the invalid input before it. -/
def scan (scanner : Scanner) (offset : Nat) : Scan :=
  scanner.scanFrom none [] offset

end Scanner

end Snbt

/-!
# Lexemes and their faults

A text is read from left to right, and the first fault met is the one reported. A value that is
only skipped is read more leniently than one that is used, so a fault is recorded for both ways of
reading.
-/

namespace LinkedSchema

/-- Why a text is not JSON: it ends too early, or a character stands where it cannot. -/
inductive Fault
  | endOfText
  | malformed
  deriving DecidableEq

/-- What a text holds where a lexeme was expected. -/
inductive Lexeme (α : Type)
  /-- A lexeme that stands for a value. -/
  | sound (value : α)
  /-- A complete lexeme that stands for no value: a number out of range, an unpaired surrogate. It
  can be skipped but not used. -/
  | senseless
  /-- A lexeme that breaks off, with the fault met by using it and the fault met by skipping
  it. -/
  | broken (strict lenient : Fault)
  deriving DecidableEq

namespace Lexeme

variable {α : Type}

/-- The value, or the fault met by using it. -/
def use : Lexeme α → Except Fault α
  | .sound value => .ok value
  | .senseless => .error .malformed
  | .broken strict _ => .error strict

/-- Passes over the lexeme without a look at its value. -/
def skip : Lexeme α → Except Fault Unit
  | .sound _ => .ok ()
  | .senseless => .ok ()
  | .broken _ lenient => .error lenient

/-- The lexeme of a value that may not exist. -/
def ofOption : Option α → Lexeme α
  | some value => .sound value
  | none => .senseless

end Lexeme

end LinkedSchema

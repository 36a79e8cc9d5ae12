/-!
# Interrupted computations

A computation that stops midway reports why, and how far it had come.
-/

namespace LinkedSchema

/-- Why a computation stopped and what it had done until then. -/
structure Interruption (ε σ : Type) where
  cause : ε
  progress : σ
  deriving DecidableEq

end LinkedSchema

/-!
What the output is made for.
-/

namespace Sitewright

/-- In development comments and client directives stay in the markup and keys are readable. In
production comments are dropped, directives move into the script, and keys are short. -/
inductive Environment where
  | development
  | production
  deriving DecidableEq, Repr

def Environment.name : Environment → String
  | .development => "development"
  | .production => "production"

end Sitewright

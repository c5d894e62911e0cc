import Sitewright.Environment
import Sitewright.Table
import Sitewright.Text.Basic

/-!
Project options: everything that a project is made from, as given and not yet checked.
-/

namespace Sitewright

/-- What a project is made from. -/
structure Options where
  environment : Environment
  globals : Table Text Text
  /-- Names and sources. -/
  components : List (Text × Text)
  /-- Paths and sources. -/
  pages : List (Text × Text)
  assets : List Text
  css : Text
  js : Text
  deriving DecidableEq

def Options.empty : Options := ⟨.development, ∅, [], [], [], [], []⟩

instance : Inhabited Options := ⟨Options.empty⟩

end Sitewright

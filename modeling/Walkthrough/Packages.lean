import Walkthrough.EnvironmentFile
import Walkthrough.Program
import Walkthrough.Yaml.Document

/-!
# Packages to run with

Statements about the program are statements about all `Packages`. To run it, these two formats are
read here.
-/

namespace Walkthrough

/-- Environment files and flow documents in YAML. -/
def Packages.builtIn : Packages where
  environment := EnvironmentFile.complete
  document := Yaml.readText

end Walkthrough

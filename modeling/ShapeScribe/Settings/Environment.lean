import ShapeScribe.Named
import ShapeScribe.Text.Casing

/-!
The environment: named texts. Names can be looked up without regard to case; of several that differ only in case
the last one counts then.
-/

namespace ShapeScribe

abbrev Environment := List (String × String)

namespace Environment

def folded (name : String) : String := String.ofList (Text.lower name.toList)

-- Every name once, in the form in which it is looked up.
def named (form : String → String) (env : Environment) : Environment :=
  Named.ofPairs (env.map fun (name, value) => (form name, value))

end Environment

end ShapeScribe

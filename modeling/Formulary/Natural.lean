/-!
# Natural numbers

Powers of natural numbers and sums of them are those of the core library in all of this development, whatever other
instances come with what a module imports.
-/

namespace Formulary

attribute [scoped instance (2000)] instPowNat Zero.ofOfNat0

end Formulary

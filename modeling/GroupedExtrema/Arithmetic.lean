/-!
# Arithmetic

A library that is imported next to this one may bring instances of its own for powers and sums of
numbers. The ones of the core library come first here, so that a definition is the same term
whatever else is imported.
-/

-- An exponent that is a numeral gets its type from the default instance.
attribute [instance (high), default_instance 20000] instPowNat

attribute [instance (high)] Zero.ofOfNat0

/-
  Powers.

  Bounds in this library are powers of two, of natural numbers and of integers.  They are always the
  core's own powers, also in a module that sees the powers of a monoid: so a bound in a statement is
  the same term as the bound in a definition.
-/

attribute [instance (10000)] instPowNat
attribute [default_instance (20000)] instPowNat

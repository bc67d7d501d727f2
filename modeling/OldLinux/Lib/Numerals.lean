import Mathlib.Logic.Function.Basic

/-!
# Numerals of index types

A numeral of a type `Fin n` carries a proof that `n` is not 0. The proofs have names here, for the sizes that
are used, so that a numeral is the same term wherever it is written.
-/

namespace OldLinux.Lib

instance (priority := 2000) neZero1 : @NeZero Nat Zero.ofOfNat0 1 := ⟨by decide⟩

instance (priority := 2000) neZero2 : @NeZero Nat Zero.ofOfNat0 2 := ⟨by decide⟩

instance (priority := 2000) neZero3 : @NeZero Nat Zero.ofOfNat0 3 := ⟨by decide⟩

instance (priority := 2000) neZero6 : @NeZero Nat Zero.ofOfNat0 6 := ⟨by decide⟩

instance (priority := 2000) neZero8 : @NeZero Nat Zero.ofOfNat0 8 := ⟨by decide⟩

instance (priority := 2000) neZero32 : @NeZero Nat Zero.ofOfNat0 32 := ⟨by decide⟩

instance (priority := 2000) neZero64 : @NeZero Nat Zero.ofOfNat0 64 := ⟨by decide⟩

instance (priority := 2000) neZero512 : @NeZero Nat Zero.ofOfNat0 512 := ⟨by decide⟩

end OldLinux.Lib

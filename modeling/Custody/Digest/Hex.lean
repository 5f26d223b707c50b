/-!
# Bytes in hexadecimal

Fingerprints of findings are the first bytes of a digest, written as text in a file that
is kept with the program and compared in later runs. What is written has to be the same
for the same bytes and different for different ones, so a byte always takes two digits,
also one below sixteen, and letters are always small. Reading the digits back is never
needed: fingerprints are compared as texts, which is right because `encode` is injective
(`Proofs/Baseline/Fingerprint`).
-/

set_option autoImplicit false

namespace Custody.Hex

/-- The digit of a number below sixteen, in lower case. Above that the character means
nothing; `encode` only asks for the halves of bytes. -/
def digit (n : Nat) : Char :=
  if n < 10 then Char.ofNat ('0'.toNat + n) else Char.ofNat ('a'.toNat + (n - 10))

/-- Two digits for each byte, the high half first. -/
def encode (bytes : List UInt8) : String :=
  String.ofList (bytes.flatMap fun b => [digit (b.toNat / 16), digit (b.toNat % 16)])

end Custody.Hex

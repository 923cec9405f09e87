import ForwardAuth.Der

/-!
# Public keys

A certificate holds a public key under the name of its algorithm. Of a private key it matters here
only which public key goes with it, and the two are compared as they are encoded, so a public key is
its encoding.

## Main definitions

* `PublicKey`: A public key with its algorithm, as it is encoded.
* `PublicKey.of`: The public key with a given algorithm and given bytes.
-/

namespace ForwardAuth

/-- A public key with its algorithm: the content of the sequence that holds both. -/
abbrev PublicKey := List UInt8

/-- The public key of an algorithm with a name and encoded parameters. -/
def PublicKey.of (algorithm parameters bytes : List UInt8) : PublicKey :=
  Der.encode Der.Tag.sequence (Der.encode Der.Tag.objectIdentifier algorithm ++ parameters) ++
    Der.encode Der.Tag.bitString (0 :: bytes)

end ForwardAuth

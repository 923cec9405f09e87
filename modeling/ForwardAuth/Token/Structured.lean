import ForwardAuth.Json.Value
import ForwardAuth.Token.Base64Url

/-!
# Structured tokens

A structured token has three segments with dots between them: a header, claims and a signature.
Header and claims are JSON objects in the Base64 of addresses, and the header names a known
algorithm. Every other token is opaque.

The signature is not checked here. What it signs, the first two segments as they were received, is
kept with the token for a verifier to look at.

## Main definitions

* `Algorithm`: The signature algorithms a token may name.
* `segments`: The parts of a text between its dots.
* `Structured`: A structured token.
* `Structured.parse?`: Reads a structured token.
-/

namespace ForwardAuth.Token

/-- The digest of a signature. -/
inductive Digest where
  | sha256
  | sha384
  | sha512
  deriving DecidableEq, Repr

/-- A signature algorithm. -/
inductive Algorithm where
  | hmac (digest : Digest)
  | rsa (digest : Digest)
  | ecdsa (digest : Digest)
  | rsaPss (digest : Digest)
  | edDsa
  /-- The token is not signed. -/
  | unsigned
  deriving DecidableEq, Repr

/-- The bits of a digest. -/
def Digest.bits : Digest → String
  | .sha256 => "256"
  | .sha384 => "384"
  | .sha512 => "512"

namespace Algorithm

/-- The registered name of an algorithm. -/
def name : Algorithm → String
  | hmac d => "HS" ++ d.bits
  | rsa d => "RS" ++ d.bits
  | ecdsa d => "ES" ++ d.bits
  | rsaPss d => "PS" ++ d.bits
  | edDsa => "EdDSA"
  | unsigned => "none"

/-- The digests, from the shortest. -/
def digests : List Digest :=
  [.sha256, .sha384, .sha512]

/-- The known algorithms. -/
def known : List Algorithm :=
  digests.map hmac ++ digests.map rsa ++ digests.map ecdsa ++ digests.map rsaPss ++
    [edDsa, unsigned]

/-- The algorithm with a name. -/
def ofName? (name : String) : Option Algorithm :=
  known.find? fun a => a.name == name

end Algorithm

/-- The parts of a text between its dots; always at least one. -/
def segments : List Char → List (List Char)
  | [] => [[]]
  | c :: cs =>
    if c = '.' then [] :: segments cs
    else
      match segments cs with
      | [] => [[c]]
      | part :: parts => (c :: part) :: parts

/-- A structured token. -/
structure Structured where
  algorithm : Algorithm
  header : Json.Members
  claims : Json.Members
  /-- The first two segments and the dot between them, as received. -/
  signingInput : String
  signature : String
  deriving Repr

namespace Structured

/-- The object that a segment encodes, with or without padding. -/
def decodeSegment? (segment : List Char) : Option Json.Members := do
  let bytes ← Base64Url.decode? (Base64Url.trimPadding segment)
  (← Json.parse? bytes).object?

/-- The algorithm that a header names. -/
def algorithm? (header : Json.Members) : Option Algorithm := do
  Algorithm.ofName? (← (← header.get? "alg").string?)

/-- Reads a token; one that is not structured is opaque. -/
def parse? (token : String) : Option Structured :=
  match segments token.toList with
  | [header, payload, signature] => do
    let headerMembers ← decodeSegment? header
    let algorithm ← algorithm? headerMembers
    let claims ← decodeSegment? payload
    return {
      algorithm
      header := headerMembers
      claims
      signingInput := String.ofList (header ++ '.' :: payload)
      signature := String.ofList signature }
  | _ => none

end Structured

end ForwardAuth.Token

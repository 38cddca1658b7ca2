import GroupChat.Signature.Edwards
import GroupChat.Signature.Scheme
import GroupChat.Signature.Sha512

/-!
The signature scheme Ed25519. Verification is without the cofactor: the point that a signature and a
key determine has to have exactly the encoding that the signature starts with, and the scalar has to be
below the group order.
-/

namespace GroupChat.Ed25519

open Edwards

/-- The scalar of a secret key: a multiple of eight with its second highest bit set. -/
def clamp (data : Bytes) : Nat :=
  Nat.pow 2 254 + Integer.ofLittleEndian data % Nat.pow 2 254 / 8 * 8

def scalarOfHash (data : Bytes) : Nat := Integer.ofLittleEndian (Sha512.digest data) % groupOrder

def secretScalar (seed : Bytes) : Nat := clamp ((Sha512.digest seed).take 32)

def publicKey (seed : Bytes) : Bytes := (basePoint.multiply (secretScalar seed)).encode

def sign (seed message : Bytes) : Bytes :=
  let nonce := scalarOfHash ((Sha512.digest seed).drop 32 ++ message)
  let commitment := (basePoint.multiply nonce).encode
  let challenge := scalarOfHash (commitment ++ publicKey seed ++ message)
  commitment ++ Integer.littleEndian 32 ((nonce + challenge * secretScalar seed) % groupOrder)

def verify (key message signature : Bytes) : Bool :=
  let commitment := signature.take 32
  let scalar := Integer.ofLittleEndian (signature.drop 32)
  signature.length == 64 && decide (scalar < groupOrder) &&
    match Point.decode? key with
    | none => false
    | some point =>
        let challenge := scalarOfHash (commitment ++ key ++ message)
        let sum := Point.multiplyOnto (curveConstant + curveConstant)
          (basePoint.multiply scalar) point.negate challenge
        sum.encode == commitment

def scheme : SignatureScheme where
  publicKey := publicKey
  sign := sign
  verify := verify
  length_publicKey _ := Point.length_encode _
  length_sign seed message := by
    simp [sign, Point.length_encode, Integer.littleEndian]

end GroupChat.Ed25519

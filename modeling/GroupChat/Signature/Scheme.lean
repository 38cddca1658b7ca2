import GroupChat.Bytes

/-!
Signature schemes with keys of thirty-two bytes. Whatever is built on signatures takes the scheme as a
parameter and uses no more of it than is stated here.
-/

namespace GroupChat

structure SignatureScheme where
  publicKey : (seed : Bytes) → Bytes
  sign : (seed message : Bytes) → Bytes
  verify : (publicKey message signature : Bytes) → Bool
  length_publicKey : ∀ seed, (publicKey seed).length = 32
  length_sign : ∀ seed message, (sign seed message).length = 64

inductive KeyError where
  /-- A secret key is not thirty-two bytes long. -/
  | secretSize
  /-- The scheme itself refuses a key, without giving a reason. -/
  | refused
  deriving DecidableEq, Repr

def KeyError.message? : KeyError → Option Bytes
  | .secretSize => some (Bytes.ofString "Ed25519 private key must be 32 bytes")
  | .refused => none

structure SigningKey where
  seed : Bytes
  length_seed : seed.length = 32
  deriving DecidableEq, Repr

def SigningKey.ofBytes (data : Bytes) : Except KeyError SigningKey :=
  if hlength : data.length = 32 then .ok ⟨data, hlength⟩ else .error .secretSize

namespace SignatureScheme

variable (scheme : SignatureScheme)

def Sound : Prop :=
  ∀ key : SigningKey, ∀ message : Bytes,
    scheme.verify (scheme.publicKey key.seed) message (scheme.sign key.seed message) = true

/-- Signs with raw bytes as the secret key. -/
def signWith (secret message : Bytes) : Except KeyError Bytes :=
  if secret.length = 32 then .ok (scheme.sign secret message) else .error .refused

/-- Verifies with raw bytes as the public key. -/
def verifyWith (publicKey message signature : Bytes) : Except KeyError Bool :=
  if publicKey.length = 32 then .ok (scheme.verify publicKey message signature)
  else .error .refused

/-- What two keys show about themselves and each other. -/
structure KeyReport where
  secretSize : Nat
  publicSize : Nat
  signatureSize : Nat
  acceptsOwn : Bool
  acceptsOther : Bool
  sameKey : Bool
  reparsedSame : Bool
  deriving DecidableEq, Repr

def compareKeys (first second : SigningKey) (message : Bytes) : KeyReport :=
  let firstPublic := scheme.publicKey first.seed
  let secondPublic := scheme.publicKey second.seed
  let signature := scheme.sign first.seed message
  { secretSize := first.seed.length
    publicSize := firstPublic.length
    signatureSize := signature.length
    acceptsOwn := scheme.verify firstPublic message signature
    acceptsOther := scheme.verify secondPublic message signature
    sameKey := firstPublic == secondPublic
    reparsedSame := match SigningKey.ofBytes first.seed with
      | .ok key => scheme.publicKey key.seed == firstPublic
      | .error _ => false }

end SignatureScheme

end GroupChat

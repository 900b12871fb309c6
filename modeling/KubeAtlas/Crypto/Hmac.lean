import KubeAtlas.Crypto.Sha256
/-!
# Keyed digests

The HMAC construction over SHA-256: a digest of a digest, each behind the key combined with a fixed
byte. A key longer than a block is replaced by its digest.
-/

namespace KubeAtlas.Crypto

def keyBlock (key : List UInt8) : List UInt8 :=
  let key := if 64 < key.length then Sha256.digest key else key
  key ++ List.replicate (64 - key.length) 0

def hmac (key message : List UInt8) : List UInt8 :=
  let block := keyBlock key
  let inner := Sha256.digest (block.map (· ^^^ 0x36) ++ message)
  Sha256.digest (block.map (· ^^^ 0x5c) ++ inner)

end KubeAtlas.Crypto

/-!
# Credentials at rest

Argon2id and SHA-256 are symbolic: a digest is the term it was computed
from, so two digests agree exactly when their inputs do.
-/

namespace Keyhole

/-- A stored auth hash, `argon2id$salt$digest`; any other text is `malformed`. -/
inductive AuthHash
  | argon2id (salt authHash : String)
  | malformed (text : String)
  deriving DecidableEq, Repr

def AuthHash.isEmpty (hash : AuthHash) : Bool := hash = .malformed ""

def hashAuthHash (salt authHash : String) : AuthHash := .argon2id salt authHash

def verifyAuthHash (authHash : String) : AuthHash → Bool
  | .argon2id _ digest => authHash = digest
  | .malformed _ => false

/-- Well formed in the source and the digest of nothing; either way no
presented hash matches it. -/
def dummyAuthHash : AuthHash :=
  .malformed "argon2id$AAAAAAAAAAAAAAAAAAAAAA==$AAAAAAAAAAAAAAAAAAAAAAAAAAAAAAAAAAAAAAAAAAA="

structure TokenHash where
  token : String
  deriving DecidableEq, Repr

def hashToken (token : String) : TokenHash := ⟨token⟩

theorem hashToken_inj {t t' : String} (h : hashToken t = hashToken t') : t = t' :=
  TokenHash.mk.inj h

def defaultKDFParamsJSON : String :=
  "\x7b\"algorithm\":\"argon2id\",\"memoryKiB\":65536,\"iterations\":3,\"parallelism\":4\x7d"

end Keyhole

import TokenMaster.Git.Aggregate
import TokenMaster.Lib.Text

/-!
# TokenMaster.Git.Identity — fingerprints of authors, commits and paths

`crates/git/src/identity.rs`.  Digests and the Unicode functions of the standard library are
parameters.
-/

namespace TokenMaster.Git

def maxGitAuthorBytes : ℕ := 4 * 1024

/-- What the crate takes from `sha2` and from the standard library. -/
structure Externals where
  sha256 : Bytes → Bytes32
  fromUtf8 : Bytes → Option Text
  toLowercase : Char → Text

variable (ext : Externals)

def framedHash (domain : Bytes) (fields : List Bytes) : Bytes32 :=
  ext.sha256 (encodeFields (domain :: fields))

def hashPath (path : Bytes) : Bytes32 :=
  framedHash ext (ascii "tokenmaster.git.path-match.v1") [path]

def isAsciiHexDigit (b : UInt8) : Bool :=
  (48 ≤ b && b ≤ 57) || (65 ≤ b && b ≤ 70) || (97 ≤ b && b ≤ 102)

/-- An object id that `validate_object_id` accepts. -/
def IsObjectId (value : Bytes) : Prop :=
  (value.length = 40 ∨ value.length = 64) ∧ value.all isAsciiHexDigit

instance (value : Bytes) : Decidable (IsObjectId value) := inferInstanceAs (Decidable (_ ∧ _))

def validateObjectId (value : Bytes) : Except GitCoreError Unit :=
  Except.require .invalidObjectId (IsObjectId value)

/-- `u8::is_ascii_whitespace`. -/
def isAsciiWhitespace (b : UInt8) : Bool := b = 32 || b = 9 || b = 10 || b = 12 || b = 13

def trimAscii (value : Bytes) : Bytes :=
  (value.dropWhile isAsciiWhitespace).rdropWhile isAsciiWhitespace

def normalizeEmail (email : Bytes) : Except GitCoreError Bytes := do
  let value := trimAscii email
  Except.require .invalidAuthor (value ≠ [] ∧ value.length ≤ maxGitAuthorBytes)
  let text ← Except.okOr .invalidAuthor (ext.fromUtf8 value)
  Except.require .invalidAuthor
    (text.all (fun c => !Text.isControl c && !Text.isWhitespace c) ∧ 60 ∉ value ∧ 62 ∉ value)
  let separator ← Except.okOr .invalidAuthor (value.idxOf? 64)
  Except.require .invalidAuthor
    (separator ≠ 0 ∧ separator + 1 ≠ value.length ∧ 64 ∉ value.drop (separator + 1))
  let normalized := text.flatMap ext.toLowercase
  Except.require (.capacityExceeded maxGitAuthorBytes)
    (Text.byteLength normalized ≤ maxGitAuthorBytes)
  return Text.utf8 normalized

def deriveAuthorFingerprint (salt : Bytes32) (email : Bytes) : Except GitCoreError Bytes32 := do
  let email ← normalizeEmail ext email
  return framedHash ext (ascii "tokenmaster.git.author.v1") [salt.asBytes, email]

def commitFingerprint (salt : Bytes32) (objectId : Bytes) : Bytes32 :=
  framedHash ext (ascii "tokenmaster.git.commit.v1") [salt.asBytes, objectId]

def deriveCommitFingerprint (salt : Bytes32) (objectId : Bytes) : Except GitCoreError Bytes32 := do
  validateObjectId objectId
  return commitFingerprint ext salt objectId

end TokenMaster.Git

import TokenMaster.State.Package.Writer

/-!
# TokenMaster.State.Package.Integrity — what cannot be done to a package

Everything that `read_package` accepts is an image, and an image is found again from its front: no
string continues two of them (`hashed_append_inj`).  So two accepted strings that are not equal have
different fronts, and, since the stored digest is that of the front, different digests as well.  An
edit that leaves one of the two alone is refused.
-/

namespace TokenMaster.State

open PackageInput List

variable {zstd : Zstd} {sha256 : Bytes → Bytes32} {json : SettingsJson}

/-! ### Images are found again from their fronts -/

namespace PackageImage

/-- The last 32 bytes. -/
def storedDigest (sha256 : Bytes → Bytes32) (image : PackageImage) : Bytes :=
  (sha256 (image.hashed sha256)).asBytes

end PackageImage

/-! ### Accepted strings -/

end TokenMaster.State

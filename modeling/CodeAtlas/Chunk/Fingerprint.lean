import CodeAtlas.Digest.Sha256
import CodeAtlas.Json.Writer

/-!
# Fingerprints of stored chunks

The fingerprint of a node is the digest of its text and of what is known about it, its lines aside:
code that only moves keeps its fingerprint.

Names in the program: `hash` for `fingerprint`.
-/

namespace CodeAtlas.StoredChunk

/-- The text that a fingerprint is taken of. -/
def identityText (text : String) (metadata : List (String × Json)) : String :=
  text ++ (Json.obj (metadata.filter fun (k, _) => k ≠ "start_line" && k ≠ "end_line")).shown

/-- The fingerprint of a text and of what is known about it. -/
def fingerprint (text : String) (metadata : List (String × Json)) : String :=
  Sha256.hex (Text.bytes (identityText text metadata))

end CodeAtlas.StoredChunk

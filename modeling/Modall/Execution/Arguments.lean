import Modall.Execution.Safety
import Modall.Security.Documents

/-!
# Secrets in run arguments

`create_run` stores the normalized arguments of a run after they have passed the JSON scanner. The
scanner tests every string leaf, whatever surrounds it, but a key only for being opaque, and only
below a sensitive name: what it lets through has no credential-shaped leaf, and may have a
credential-shaped key.
-/
namespace Modall
open Library.Json Security

namespace Json

mutual

/-- The value the scanner walks through. -/
def value : Json → Value
  | .null => .null
  | .bool b => .bool b
  | .int n => .int n
  | .float spelling => .float (Library.text spelling)
  | .str s => .str (Library.text s)
  | .arr items => .list (itemValues items)
  | .obj members => .object (memberValues members)

def itemValues : List Json → List Value
  | [] => []
  | item :: items => item.value :: itemValues items

def memberValues : List (String × Json) → List (Library.Text × Value)
  | [] => []
  | (key, child) :: members => (Library.text key, child.value) :: memberValues members

end

end Json

namespace Platform

/-- The platform with the scanner of the source; `floatText` is `str(float(spelling))`. -/
def scanning (P : Platform) (floatText : Library.Text → Library.Text) : Platform :=
  { P with containsSensitiveJson := fun v => some (Security.containsSensitiveJson floatText v.value) }

/-- The arguments normalize to `normalized`, which passes every check of `create_run`. -/
def Accepts (P : Platform) (limits : ExecutionLimits) (arguments schema normalized : Json) : Prop :=
  (∃ digest, P.normalizeArguments limits arguments = .ok (normalized, digest)) ∧
    P.validateNormalizedArguments normalized schema = .ok ()

lemma Accepts.scanned {P : Platform} {limits : ExecutionLimits} {arguments schema v : Json}
    (h : P.Accepts limits arguments schema v) : P.containsSensitiveJson v = some false := by
  have hvalid := h.2
  unfold validateNormalizedArguments at hvalid
  split at hvalid
  · cases hvalid
  · cases hvalid
  · assumption

end Platform

namespace Sample

/-- Arguments with a credential for a name. -/
def keyArguments : Json := .obj [("sk_live_12345678", .int 1)]

def tidyArguments : Json := .obj [("city", .str "Oslo")]

/-- A platform that encodes and decodes `v` as the real one does. -/
def encoding (encoded : String) (v : Json) : Platform :=
  { platform with canonicalJson := fun _ => some encoded, loads := fun _ => v }.scanning id

lemma encoding_accepts (encoded : String) {v : Json} (hobject : v.isObject = true)
    (hscan : containsSensitiveJson id v.value = false) (hsize : encoded.utf8ByteSize ≤ 65536) :
    (encoding encoded v).Accepts .default v (.obj []) v := by
  have hlimit : ¬ ExecutionLimits.default.maxArgumentBytes < (encoded.utf8ByteSize : Int) := by
    simp only [ExecutionLimits.default]
    omega
  refine ⟨⟨encoded, ?_⟩, ?_⟩
  · simp [Platform.normalizeArguments, encoding, Platform.scanning, platform, hlimit, hobject]
  · simp [Platform.validateNormalizedArguments, encoding, Platform.scanning, platform, hscan]

end Sample

end Modall

import Mathlib
import Modall.Execution.Types
import Modall.Library.Spellings

/-!
# The transport budget of an invocation

A worker stores the canonical encoding of a result if it is within `max_result_bytes`. The server
sends the result in an encoding of its own, and the bytes are counted as they arrive.
`_invocation_transport_limits` of `modall/worker/main.py` allows six bytes for every byte that may
be stored, and the room of the protocol around the result.
-/
namespace Modall
open Library Library.Json

/-- `TransportLimits`, with the inequalities `__post_init__` insists on. -/
structure TransportLimits where
  responseBytes : Int
  connectSeconds : ℚ
  readSeconds : ℚ
  totalSeconds : ℚ
  responseBytes_pos : 1 ≤ responseBytes
  connectSeconds_pos : 0 < connectSeconds
  readSeconds_pos : 0 < readSeconds
  totalSeconds_pos : 0 < totalSeconds

namespace Worker

def invocationProtocolOverheadBytes : Int := 65536

def maxJsonEscapeExpansion : Int := 6

/-- `_invocation_transport_limits`. -/
def invocationTransportLimits (limits : ExecutionLimits) : TransportLimits where
  responseBytes :=
    limits.maxResultBytes * maxJsonEscapeExpansion + invocationProtocolOverheadBytes
  connectSeconds := 3
  readSeconds := 5
  totalSeconds := 10
  responseBytes_pos := by
    have := limits.resultBytes_pos
    unfold maxJsonEscapeExpansion invocationProtocolOverheadBytes
    omega
  connectSeconds_pos := by norm_num
  readSeconds_pos := by norm_num
  totalSeconds_pos := by norm_num

end Worker

namespace McpAdapter

/-- The interpreter's part in `json.dumps`: how it writes a float, and the values it raises for,
such as a number that is not finite. -/
structure JsonWriter where
  floatText : Text → Text
  unwritable : Value → Bool

/-- `_canonical_json`, or `none` for a `DiscoveryError`. -/
def JsonWriter.canonicalJson (writer : JsonWriter) (value : Value) : Option ByteString :=
  if writer.unwritable value then none else encode (dump (value.sorted writer.floatText))

end McpAdapter

open McpAdapter Worker

/-- Whatever a server escapes, a result that may be stored fits into the budget. -/
theorem transport_budget_covers_escapes (writer : JsonWriter) {v : Value} {e : Text}
    {canonical : ByteString} (canon : writer.canonicalJson v = some canonical)
    (spelled : Spells writer.floatText v e) :
    ∃ bytes, encode e = some bytes ∧ bytes.length ≤ 6 * canonical.length ∧
      ∀ limits : ExecutionLimits, canonical.length ≤ limits.maxResultBytes →
        bytes.length ≤
          (invocationTransportLimits limits).responseBytes - invocationProtocolOverheadBytes := by
  have fits := spelled.fits
  have written : encode (dump (v.sorted writer.floatText)) = some canonical := by
    unfold JsonWriter.canonicalJson at canon
    split_ifs at canon
    exact canon
  cases sent : encode e with
  | none =>
    have none := encode_eq_none_iff.mpr (fits.surrogates (encode_eq_none_iff.mp sent))
    rw [written] at none
    cases none
  | some bytes =>
    have short : bytes.length ≤ 6 * canonical.length := by
      rw [length_encode sent, length_encode written]
      exact fits.short
    refine ⟨bytes, rfl, short, ?_⟩
    intro limits within
    simp only [invocationTransportLimits, maxJsonEscapeExpansion]
    omega

/-- A writer that keeps the spelling of a float and raises for nothing. -/
def plainWriter : JsonWriter := ⟨id, fun _ => false⟩

/-- An object whose members are not in order and whose strings are escaped. -/
theorem transport_budget_covers_escapes_emoji :
    ∃ bytes, encode (text "\x7b\"b\":\"\\ud83d\\ude00\",\"\\u0061\":7\x7d") = some bytes ∧
      bytes.length ≤ (invocationTransportLimits .default).responseBytes -
        invocationProtocolOverheadBytes := by
  let v : Value := .object [(text "a", .int 7), (text "b", .str [0x1f600])]
  have canon : plainWriter.canonicalJson v = some (ascii "\x7b\"a\":7,\"b\":\"" ++
      [0xf0, 0x9f, 0x98, 0x80] ++ ascii "\"\x7d") := by
    decide +kernel
  have first : SpellsString (text "a") (text "\"\\u0061\"") :=
    ⟨[text "\\u" ++ text "0061"], .cons (.unicode (by decide)) .nil, by decide⟩
  have second : SpellsString (text "b") (text "\"b\"") :=
    ⟨[text "b"], .cons (.raw (by decide) (by decide) (by decide)) .nil, by decide⟩
  have high : fourHex (text "d83d") = some (0xd83d, []) := by decide
  have low : fourHex (text "de00") = some (0xde00, []) := by decide
  have pair := SpellsChar.pair high low (by decide) (by decide) (by decide) (by decide)
  have astral : 0x10000 + (0xd83d - 0xd800) * 0x400 + (0xde00 - 0xdc00) = 0x1f600 := by norm_num
  rw [astral] at pair
  have emoji : SpellsString [0x1f600] (text "\"\\ud83d\\ude00\"") :=
    ⟨[text "\\u" ++ text "d83d" ++ (text "\\u" ++ text "de00")],
      .cons pair .nil, by decide⟩
  have spelled : Spells plainWriter.floatText v
      (text "\x7b\"b\":\"\\ud83d\\ude00\",\"\\u0061\":7\x7d") :=
    ⟨[text "\"\\u0061\":7", text "\"b\":\"\\ud83d\\ude00\""], _,
      ⟨⟨_, _, first, rfl, by decide⟩, ⟨_, _, second, emoji, by decide⟩, trivial⟩, .swap _ _ _,
      by decide⟩
  obtain ⟨bytes, sent, -, budget⟩ := transport_budget_covers_escapes plainWriter canon spelled
  exact ⟨bytes, sent, budget .default (by decide)⟩

end Modall

import SlatedbCloudflare.Platform.Utf8

/-! # Percent-decoding of a path segment -/
namespace SlatedbCloudflare.Url
open ObjectStore

def hexValue (b : UInt8) : Option UInt8 :=
  if 0x30 ≤ b ∧ b ≤ 0x39 then some (b - 0x30)
  else if 0x41 ≤ b ∧ b ≤ 0x46 then some (b - 0x37)
  else if 0x61 ≤ b ∧ b ≤ 0x66 then some (b - 0x57)
  else none

/-- A `%` stands before two hexadecimal digits. -/
def decodeBytes : Bytes → Option Bytes
  | [] => some []
  | 0x25 :: high :: low :: rest => do
    let h ← hexValue high
    let l ← hexValue low
    let decoded ← decodeBytes rest
    pure ((h * 16 + l) :: decoded)
  | 0x25 :: _ => none
  | b :: rest => do
    let decoded ← decodeBytes rest
    pure (b :: decoded)

def percentDecode (s : String) : Option String := do
  let bytes ← decodeBytes (Utf8.asBytes s)
  String.fromUTF8? ⟨bytes.toArray⟩

example : percentDecode "a%2Db" = some "a-b" := by decide +kernel

end SlatedbCloudflare.Url

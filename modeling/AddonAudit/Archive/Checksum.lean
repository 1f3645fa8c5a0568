import AddonAudit.Text.Utf8

/-!
# Checksums of archive entries

The cyclic redundancy check of 32 bits with the reversed polynomial `0xEDB88320`.
-/

namespace AddonAudit.Archive

def checksumBit (c : UInt32) : UInt32 :=
  if c % 2 = 1 then (0xEDB88320 : UInt32) ^^^ (c >>> 1) else c >>> 1

def checksumBits : Nat → UInt32 → UInt32
  | 0, c => c
  | n + 1, c => checksumBits n (checksumBit c)

def checksum (bytes : Bytes) : UInt32 :=
  bytes.foldl (fun c b => checksumBits 8 (c ^^^ b.toUInt32)) (0xFFFFFFFF : UInt32) ^^^ 0xFFFFFFFF

end AddonAudit.Archive

/-!
# CRC-32

The checksum that ties a replay's results to the dump they came from: the
reflected CRC of polynomial `0xEDB88320`, started from and finished with all
bits set.
-/

namespace AccessReplay.Checksum

/-- Divides out one bit. -/
def shift (r : UInt32) : UInt32 :=
  if r &&& 1 = 1 then (r >>> 1) ^^^ 0xEDB88320 else r >>> 1

/-- Takes one byte into the register. -/
def step (r : UInt32) (b : UInt8) : UInt32 :=
  shift (shift (shift (shift (shift (shift (shift (shift (r ^^^ b.toUInt32))))))))

/-- The checksum of a byte sequence. -/
def crc32 (bytes : List UInt8) : UInt32 :=
  bytes.foldl step 0xFFFFFFFF ^^^ 0xFFFFFFFF

end AccessReplay.Checksum

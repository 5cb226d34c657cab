import TxRecovery.Bytes

/-!
# CRC-32

The checksum with the reflected polynomial 0x04C11DB7, bit by bit.
-/

namespace TxRecovery

namespace Crc32

def shift (r : UInt32) : UInt32 := if r &&& 1 = 1 then (r >>> 1) ^^^ 0xEDB88320 else r >>> 1

def update (r : UInt32) (b : UInt8) : UInt32 := Nat.repeat shift 8 (r ^^^ b.toUInt32)

def hash (bs : Bytes) : UInt32 := bs.foldl update 0xFFFFFFFF ^^^ 0xFFFFFFFF

end Crc32

end TxRecovery

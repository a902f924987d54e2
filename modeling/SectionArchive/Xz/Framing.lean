import SectionArchive.Checksum.Crc32
import SectionArchive.Checksum.Crc64
import SectionArchive.Checksum.Sha256
/-!
The pieces an xz stream is framed with: variable-length numbers, the kinds of block check, the
delta filter, and the two settings bytes that header and footer repeat.
-/

namespace SectionArchive.Xz

def headerMagic : Bytes := [0xFD, 0x37, 0x7A, 0x58, 0x5A, 0x00]

def footerMagic : Bytes := [0x59, 0x5A]

def crcBytes (bs : Bytes) : Bytes := LittleEndian.encode 4 (Crc32.crc32 bs).toNat

def padding (length : Nat) : Bytes := List.replicate ((4 - length % 4) % 4) 0

/-- Seven bits a byte, lowest first; the high bit says that more follow. -/
def encodeNumber (n : Nat) : Bytes :=
  if n < 128 then [UInt8.ofNat n] else UInt8.ofNat (n % 128 + 128) :: encodeNumber (n / 128)
termination_by n

/-- The number at the front of these bytes, which has at most nine bytes and no needless last
byte; the second component is what follows it. -/
def decodeNumber : (most place : Nat) → Bytes → Option (Nat × Bytes)
  | 0, _, _ => none
  | _, _, [] => none
  | most + 1, place, b :: rest =>
    if b.toNat < 128 then
      if b = 0 ∧ place ≠ 0 then none else some (b.toNat <<< (7 * place), rest)
    else (decodeNumber most (place + 1) rest).map fun r =>
      ((b.toNat - 128) <<< (7 * place) + r.1, r.2)

def checkSize (kind : Nat) : Nat :=
  [0, 4, 4, 4, 8, 8, 8, 16, 16, 16, 32, 32, 32, 64, 64, 64].getD kind 0

def check? (kind : Nat) (bs : Bytes) : Option Bytes :=
  match kind with
  | 0 => some []
  | 1 => some (crcBytes bs)
  | 4 => some (LittleEndian.encode 8 (Crc64.crc64 bs).toNat)
  | 10 => some (Sha256.sha256 bs)
  | _ => none

def undoDelta (distance : Nat) (bs : Array UInt8) : Array UInt8 :=
  bs.foldl (fun out b =>
    out.push (if distance ≤ out.size then b + out.getD (out.size - distance) 0 else b)) #[]

end SectionArchive.Xz

import SectionArchive.Lzma.Pack
import SectionArchive.Xz.Block
/-!
Writing an xz stream: one block with a CRC-64, or none for no bytes, and the index and footer that
describe it.
-/

namespace SectionArchive.Xz

def writerSettings : Bytes := [0x00, 0x04]

def writerBlockHeader : Bytes :=
  let body : Bytes := [0x02, 0x00, 0x21, 0x01, Lzma.windowByte, 0x00, 0x00, 0x00]
  body ++ crcBytes body

def encodeBlock (bs : Bytes) : Bytes × Record :=
  let packed := Lzma.pack bs
  (writerBlockHeader ++ packed ++ padding packed.length ++ (check? 4 bs).getD [],
    { unpadded := writerBlockHeader.length + packed.length + 8, size := bs.length })

def encodeIndex (records : List Record) : Bytes :=
  let body := 0x00 :: encodeNumber records.length ++
    records.flatMap fun r => encodeNumber r.unpadded ++ encodeNumber r.size
  let padded := body ++ padding body.length
  padded ++ crcBytes padded

def encode (bs : Bytes) : Bytes :=
  let block := encodeBlock bs
  let index := encodeIndex (if bs.isEmpty then [] else [block.2])
  let back := LittleEndian.encode 4 (index.length / 4 - 1) ++ writerSettings
  headerMagic ++ writerSettings ++ crcBytes writerSettings ++
    (if bs.isEmpty then [] else block.1) ++ index ++ crcBytes back ++ back ++ footerMagic

end SectionArchive.Xz

import Rc700.Sdlc.Receiver

/-!
# A synthetic capture

The encoder of `test_sdlc_decoder.py`: what the transmitter puts on the line for a
payload, and the samples that the adapter takes of it.
-/

namespace Rc700
namespace Sdlc

/-- `byte_to_lsb_bits` -/
def byteToLsbBits (b : Byte) : List Bool := (List.range 8).map fun i => (b >>> i) &&& 1#8 = 1#8

/-- `bytes_to_lsb_bits` -/
def bytesToLsbBits (bs : List Byte) : List Bool := bs.flatMap byteToLsbBits

/-- The loop of `hdlc_stuff`. -/
def stuffFrom : Nat → List Bool → List Bool
  | _, [] => []
  | ones, b :: bits =>
      if b = true then
        if ones + 1 = 5 then b :: false :: stuffFrom 0 bits else b :: stuffFrom (ones + 1) bits
      else b :: stuffFrom 0 bits

/-- `hdlc_stuff` -/
def hdlcStuff (bits : List Bool) : List Bool := stuffFrom 0 bits

/-- The two bytes of the CRC, the low byte first. -/
def crcBytes (payload : List Byte) : List Byte :=
  [(crcCcitt payload).setWidth 8, (crcCcitt payload >>> 8).setWidth 8]

/-- `build_frame_bits` -/
def buildFrameBits (payload : List Byte) : List Bool :=
  let data := payload ++ crcBytes payload
  let flag := byteToLsbBits 0x7E#8
  flag ++ hdlcStuff (bytesToLsbBits data) ++ flag

/-- `nrzi_encode` -/
def nrziEncode : Bool → List Bool → List Bool
  | _, [] => []
  | level, b :: bits =>
      let level := if b = false then !level else level
      level :: nrziEncode level bits

/-- The sample of a level: the other pins are high. -/
def sampleOf (rxdBit : Fin 8) (lvl : Bool) : Byte :=
  let rxdMask := 1#8 <<< rxdBit.val
  let other := 0xFF#8 ^^^ rxdMask
  if lvl then other ||| rxdMask else other

/-- `oversample` -/
def oversample (levels : List Bool) (sps : Nat) (rxdBit : Fin 8)
    (leadingIdle trailingIdle : Nat) : List Byte :=
  List.replicate (leadingIdle * sps) (sampleOf rxdBit true) ++
    levels.flatMap (fun lvl => List.replicate sps (sampleOf rxdBit lvl)) ++
    List.replicate (trailingIdle * sps) (sampleOf rxdBit true)

/-- So many flags. -/
def flags (n : Nat) : List Bool := (List.replicate n (byteToLsbBits 0x7E#8)).flatten

/-- `build_capture` -/
def buildCapture (payload : List Byte) (sps leadingFlags trailingFlags leadingIdle
    trailingIdle : Nat) (rxdBit : Fin 8) : List Byte :=
  let allBits := flags leadingFlags ++ buildFrameBits payload ++ flags trailingFlags
  oversample (nrziEncode true allBits) sps rxdBit leadingIdle trailingIdle

end Sdlc
end Rc700

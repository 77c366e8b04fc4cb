/-!
# Wire constants — sizes, limits and flag bits

A frame is a six-byte header, fixed fields, an optional metadata block
and data. The header holds a 31-bit stream id, a 6-bit type code and ten
flag bits. On a byte stream every frame follows its 24-bit length.
-/

namespace StreamWire

/-! ## Sizes in bytes -/

namespace Wire

/-- Stream id, type code and flags. -/
def headerSize : Nat := 6

/-- The length a frame follows on a byte stream. -/
def lengthSize : Nat := 3

/-- The length a metadata block begins with. -/
def metadataLengthSize : Nat := 3

/-- A request count. -/
def requestNSize : Nat := 4

/-- An error code. -/
def errorCodeSize : Nat := 4

/-- The position in a keep-alive frame. -/
def positionSize : Nat := 8

/-! ## Limits -/

/-- Stream ids have thirty-one bits. -/
def maxStreamId : Nat := 0x7FFFFFFF

/-- Request counts have thirty-two bits. -/
def maxRequestN : Nat := 0xFFFFFFFF

/-- Error codes have thirty-two bits. -/
def maxErrorCode : Nat := 0xFFFFFFFF

/-- Positions are the natural numbers a double holds without gaps. -/
def maxPosition : Nat := 0x1FFFFFFFFFFFFF

/-- Metadata lengths have twenty-four bits. -/
def maxMetadataLength : Nat := 0xFFFFFF

/-- Frame lengths have twenty-four bits. -/
def maxFrameLength : Nat := 0xFFFFFF

/-- The frame length a receiver admits unless told otherwise. -/
def defaultMaxFrameSize : Nat := maxFrameLength

/-- The least size a message may be split to. -/
def minFragmentSize : Nat := 64

/-! ## The second header word -/

/-- The type code stands above ten flag bits. -/
def typeShift : Nat := 10

/-- The bits of the header word that are flags. -/
def flagsMask : Nat := 0x3FF

end Wire

/-! ## Flag bits -/

namespace Flag

/-- A stream item is carried. -/
def next : BitVec 32 := 0x020

/-- The sender has finished the stream. -/
def complete : BitVec 32 := 0x040

/-- A set-up frame offers leases; the bit of `complete`. -/
def lease : BitVec 32 := 0x040

/-- More fragments of the message follow. -/
def follows : BitVec 32 := 0x080

/-- A keep-alive asks for an answer; the bit of `follows`. -/
def respond : BitVec 32 := 0x080

/-- A set-up frame asks for resumption; the bit of `follows`. -/
def resumeEnable : BitVec 32 := 0x080

/-- A metadata block is present. -/
def metadata : BitVec 32 := 0x100

/-- A receiver that does not know the frame may skip it. -/
def ignore : BitVec 32 := 0x200

end Flag

end StreamWire

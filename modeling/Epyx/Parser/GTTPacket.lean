import Epyx.Core.Text

/-! `parser/gttpacket.cpp`: a packet of the Generic Text Template and the bytes it is sent as. -/
namespace Epyx

/-- `std::map<std::string, std::string>`: the keys are kept in the byte order of `<`. -/
abbrev Headers := Std.ExtTreeMap ByteStr ByteStr

structure GTTPacket where
  protocol : ByteStr
  method : ByteStr
  headers : Headers
  body : ByteStr
  deriving DecidableEq

namespace GTTPacket

/-- `new GTTPacket()` -/
def empty : GTTPacket := ⟨[], [], ∅, []⟩

/-- One header line of `build`, with its line end. -/
def headerLine (h : ByteStr × ByteStr) : ByteStr := h.1 ++ lit ": " ++ h.2 ++ crlf

/-- The content-length line of `build`, for a body that is not empty. -/
def contentLine (body : ByteStr) : ByteStr :=
  if body.length > 0 then
    lit "content-length: " ++ Text.fromUnsignedLong body.length ++ crlf
  else []

def build (p : GTTPacket) : ByteStr :=
  p.protocol ++ lit " " ++ p.method ++ crlf ++ p.headers.toList.flatMap headerLine ++
    contentLine p.body ++ crlf ++ p.body

end GTTPacket
end Epyx

import StreamWire.Fault
/-!
# Stream ids — whose stream an id names

Zero is the connection itself, odd ids are streams opened by the client
and even ids streams opened by the server. `StreamId.classify` is total
on the thirty-one-bit range and refuses everything else.
-/

namespace StreamWire

/-- Who a stream id belongs to. -/
inductive Initiator where
  | connection
  | client
  | server
deriving DecidableEq, Repr

/-- The word an initiator is reported as. -/
def Initiator.name : Initiator → String
  | .connection => "connection"
  | .client => "client"
  | .server => "server"

namespace StreamId

/-- The stream id a value denotes. -/
def ofNumber? (x : Number) : Option Nat := x.toNatUpTo? Wire.maxStreamId

/-- Whether a value denotes a stream id. -/
def isValid (x : Number) : Bool := (ofNumber? x).isSome

/-- Who the stream with a given id belongs to. -/
def initiator (id : Nat) : Initiator :=
  if id = 0 then .connection else if id % 2 = 1 then .client else .server

/-- Who a value's stream belongs to. -/
def classify (x : Number) : Except Fault Initiator :=
  match ofNumber? x with
  | some id => .ok (initiator id)
  | none => .error (.invalidStreamId x)

/-- Whether a value is the connection's own id. -/
def isConnection (x : Number) : Bool := x.isZero

/-- Whether a value is the id of a client's stream. -/
def isClient (x : Number) : Bool := (ofNumber? x).any (initiator · == .client)

/-- Whether a value is the id of a server's stream. -/
def isServer (x : Number) : Bool := (ofNumber? x).any (initiator · == .server)

end StreamId

end StreamWire

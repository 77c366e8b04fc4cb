import StreamWire.Fault
/-!
# Notices — what a connection logs

Two things are worth a line in a connection's log: a chain of fragments
that was dropped, and a byte stream that cannot be read on. A `Notice`
says which, and `Notice.line` is its wording.
-/

namespace StreamWire

/-- Something to be logged. -/
inductive Notice where
  /-- A chain was dropped, with the bytes it held. -/
  | discarded (streamId : Number) (size : Nat)
  /-- A byte stream cannot be read on. -/
  | unreadable (fault : Fault)
deriving DecidableEq, Repr

/-- The line of a notice. -/
def Notice.line : Notice → String
  | .discarded streamId size =>
    s!"[fragments] discarded chain on stream {streamId.decimal} ({size} bytes buffered)"
  | .unreadable fault => s!"[parser] {fault.category.name}: {fault.message}"

end StreamWire

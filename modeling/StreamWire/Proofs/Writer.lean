import StreamWire.Writer
/-!
# Writers — steps that append

A writer holds what has been written and the room that is left
(`Writer.Holds`). A step that appends (`Write.Appends`) fills the next
bytes of a buffer that has room for them, and steps that append follow
one another. A step that is refused is refused in every buffer
(`Write.Refuses`), and so is whatever was to follow it.
-/

namespace StreamWire

namespace Writer

/-- What lies before the next write is `done`, and there is room for
`room` bytes behind it. -/
structure Holds (w : Writer) (done : Bytes) (room : Nat) : Prop where
  done_eq : w.parts.reverse.flatten = done
  length_rest : w.rest.length = room

theorem holds_blank (size : Nat) : (blank size).Holds [] size :=
  ⟨rfl, List.length_replicate⟩

/-- A write that fits is written whole. -/
theorem Holds.put {w : Writer} {done source : Bytes} {room : Nat}
    (h : w.Holds done (source.length + room)) : (w.put source).Holds (done ++ source) room := by
  have hkept : front source w.rest.length = source := by
    rw [front_eq_take, h.length_rest]
    exact List.take_of_length_le (Nat.le_add_right _ _)
  constructor
  · rw [Writer.put, hkept, List.reverse_cons, List.flatten_append, h.done_eq,
      List.flatten_singleton]
  · rw [Writer.put, hkept, List.length_drop, h.length_rest, Nat.add_sub_cancel_left]

/-- A writer without room holds its whole buffer. -/
theorem Holds.bytes_eq {w : Writer} {done : Bytes} (h : w.Holds done 0) : w.bytes = done := by
  rw [Writer.bytes_eq, h.done_eq, List.length_eq_zero_iff.1 h.length_rest, List.append_nil]

end Writer

namespace Write

/-- A step followed by another. -/
theorem filled_bind (step : Write Unit) (next : Unit → Write Unit) (w : Writer) :
    (step >>= next).filled w =
      match step.filled w with
      | .ok written => (next ()).filled written
      | .error fault => .error fault := by
  rw [filled, filled, run_bind]
  cases step.run w <;> rfl

/-- In a buffer with room for `source` the step is done, and writes just
that. -/
def Appends (step : Write Unit) (source : Bytes) : Prop :=
  ∀ (w : Writer) (done : Bytes) (room : Nat), w.Holds done (source.length + room) →
    ∃ written, step.filled w = .ok written ∧ written.Holds (done ++ source) room

theorem appends_bytes (source : Bytes) : (bytes source).Appends source := by
  intro w done room h
  exact ⟨w.put source, rfl, h.put⟩

theorem appends_pure : Appends (pure ()) [] := by
  intro w done room h
  refine ⟨w, rfl, ?_⟩
  rw [List.length_nil, Nat.zero_add] at h
  rwa [List.append_nil]

/-- **Steps that append follow one another.** -/
theorem Appends.bind {step : Write Unit} {next : Unit → Write Unit} {source rest : Bytes}
    (hstep : step.Appends source) (hnext : (next ()).Appends rest) :
    (step >>= next).Appends (source ++ rest) := by
  intro w done room h
  rw [List.length_append, Nat.add_assoc] at h
  obtain ⟨mid, hmid, hholds⟩ := hstep w done _ h
  obtain ⟨written, hwritten, hdone⟩ := hnext mid _ _ hholds
  refine ⟨written, ?_, ?_⟩
  · rw [filled_bind, hmid]
    exact hwritten
  · rwa [← List.append_assoc]

/-- A step that has been done where there was room for it has used up as
much of the room as it writes. -/
theorem Appends.holds_of_filled {step : Write Unit} {source done : Bytes} {w written : Writer}
    {room : Nat} (h : step.Appends source) (hw : w.Holds done (source.length + room))
    (hfilled : step.filled w = .ok written) : written.Holds (done ++ source) room := by
  obtain ⟨other, hother, hholds⟩ := h w done room hw
  rw [hother] at hfilled
  cases hfilled
  exact hholds

/-- A step that appends fills a blank buffer of the right size. -/
theorem Appends.filled_blank {step : Write Unit} {source : Bytes} (h : step.Appends source) :
    (step.filled (.blank source.length)).map Writer.bytes = .ok source := by
  obtain ⟨written, hwritten, hholds⟩ := h (.blank source.length) [] 0 (Writer.holds_blank _)
  rw [hwritten]
  exact congrArg Except.ok hholds.bytes_eq

/-- The step is refused, whatever the buffer. -/
def Refuses (step : Write Unit) (fault : Fault) : Prop :=
  ∀ w : Writer, step.filled w = .error fault

theorem refuses_throw (fault : Fault) : Refuses (throw fault) fault := fun _ => rfl

theorem Refuses.bind {step : Write Unit} {fault : Fault} (h : step.Refuses fault)
    (next : Unit → Write Unit) : (step >>= next).Refuses fault := by
  intro w
  rw [filled_bind, h w]

/-- A refusal after a step that is done in every buffer. -/
theorem Refuses.after {step : Write Unit} {next : Unit → Write Unit} {fault : Fault}
    (hstep : ∀ w, ∃ written, step.filled w = .ok written) (h : (next ()).Refuses fault) :
    (step >>= next).Refuses fault := by
  intro w
  obtain ⟨written, hwritten⟩ := hstep w
  rw [filled_bind, hwritten]
  exact h written

end Write

end StreamWire

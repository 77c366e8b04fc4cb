import Mathlib.Data.List.Nodup
import StreamWire.Proofs.Message.Turn
/-!
# Transcripts — an assembler across calls

An assembler is called again and again: a frame comes in, a stream is
given up, the connection ends. `Assembler.transcript` puts down every
call with what came back, and `Assembler.after` is the assembler that is
left. What a call does is said stream by stream: `Assembler.chain?_call`
for those that it concerns, `Assembler.chain?_call_of_not_concerns` for
all others. However many calls are made, no stream has more than one
chain (`Assembler.nodup_pending_after`).
-/

namespace StreamWire

/-- A call of an assembler. -/
inductive Call where
  | push (f : Frame)
  | discard (streamId : Number)
  | close
deriving DecidableEq, Repr

/-- What a call returned, or was refused with. -/
inductive Answer where
  | pushed (result : Except Fault (Option Frame))
  | discarded (result : Except Fault Bool)
  | closed (result : Except Fault Unit)

/-- What is seen of a call: its answer, and the notices it gave. -/
structure Reply where
  answer : Answer
  notices : List Notice

/-- A call and what came back. -/
structure Exchange where
  call : Call
  reply : Reply

namespace Call

/-- The stream a call is about. The end of the connection is about all of
them. -/
def streamId? : Call → Option Number
  | .push f => some f.streamId
  | .discard streamId => some streamId
  | .close => none

/-- Whether a call is about a stream and about no other. -/
def isOn (streamId : Number) (c : Call) : Bool := c.streamId?.any (·.key == streamId.key)

/-- Whether a call has to do with a stream: it is about this one, or it is
the end of the connection. -/
def concerns (streamId : Number) (c : Call) : Bool := c.streamId?.all (·.key == streamId.key)

/-- Short of the end of the connection a call concerns the stream it is
about. -/
theorem concerns_of_ne_close {c : Call} (h : c ≠ .close) (s : Number) :
    c.concerns s = c.isOn s := by
  cases c with
  | close => exact absurd rfl h
  | _ => rfl

@[simp] theorem isOn_push {s : Number} {f : Frame} :
    (push f).isOn s = true ↔ f.streamId.key = s.key := by
  simp [isOn, streamId?]

@[simp] theorem isOn_discard {s streamId : Number} :
    (discard streamId).isOn s = true ↔ streamId.key = s.key := by
  simp [isOn, streamId?]

@[simp] theorem concerns_push {s : Number} {f : Frame} :
    (push f).concerns s = true ↔ f.streamId.key = s.key := by
  simp [concerns, streamId?]

@[simp] theorem concerns_discard {s streamId : Number} :
    (discard streamId).concerns s = true ↔ streamId.key = s.key := by
  simp [concerns, streamId?]

end Call

/-- Whether what was said is about a stream and about no other. -/
def Exchange.isOn (streamId : Number) (e : Exchange) : Bool := e.call.isOn streamId

namespace Assembler

/-! ## Calls one after the other -/

/-- The assembler after a call, and what came back. -/
def call (a : Assembler) : Call → Assembler × Reply
  | .push f => ((a.push f).assembler, ⟨.pushed (a.push f).result, (a.push f).notices⟩)
  | .discard streamId =>
    ((a.discard streamId).assembler,
      ⟨.discarded (a.discard streamId).result, (a.discard streamId).notices⟩)
  | .close => (a.close.assembler, ⟨.closed a.close.result, a.close.notices⟩)

/-- The assembler after some calls. -/
def after (a : Assembler) : List Call → Assembler
  | [] => a
  | c :: later => (a.call c).1.after later

/-- Every call with what came back. -/
def transcript (a : Assembler) : List Call → List Exchange
  | [] => []
  | c :: later => ⟨c, (a.call c).2⟩ :: (a.call c).1.transcript later

variable {a : Assembler} {s streamId : Number} {chain : Chain}

theorem after_append (a : Assembler) (before later : List Call) :
    a.after (before ++ later) = (a.after before).after later := by
  induction before generalizing a with
  | nil => rfl
  | cons c rest ih => exact ih _

theorem after_concat (a : Assembler) (before : List Call) (c : Call) :
    a.after (before ++ [c]) = ((a.after before).call c).1 :=
  after_append a before [c]

theorem transcript_append (a : Assembler) (before later : List Call) :
    a.transcript (before ++ later) = a.transcript before ++ (a.after before).transcript later := by
  induction before generalizing a with
  | nil => rfl
  | cons c rest ih =>
    show _ :: (a.call c).1.transcript (rest ++ later) = _
    rw [ih]
    rfl

/-! ## What a call does to a stream -/

/-- Discarding leaves no chain on the stream, whether there was one or
not. -/
theorem assembler_discard (a : Assembler) (streamId : Number) :
    (a.discard streamId).assembler = a.drop streamId := by
  rw [discard]
  cases hchain : a.chain? streamId with
  | none => exact (drop_of_idle hchain).symm
  | some chain => rfl

/-- **A call leaves a stream that it concerns** with what its turn comes to,
if it is a frame, and with no chain otherwise. -/
theorem chain?_call {c : Call} (h : c.concerns s = true) :
    (a.call c).1.chain? s =
      match c with
      | .push f => (Chain.turn a.options (a.obstacle? f.streamId) (a.chain? s) f).chain?
      | _ => none := by
  cases c with
  | push f =>
    have hkey : f.streamId.key = s.key := Call.concerns_push.1 h
    dsimp only [call]
    rw [(a.push_follows f).chain?_eq, if_pos hkey.symm, chain?_congr hkey]
  | discard streamId =>
    have hkey : streamId.key = s.key := Call.concerns_discard.1 h
    dsimp only [call]
    rw [assembler_discard, chain?_drop, if_pos hkey.symm]
  | close => rfl

/-- **A call leaves the streams alone that it does not concern.** -/
theorem chain?_call_of_not_concerns {c : Call} (h : ¬ c.concerns s = true) :
    (a.call c).1.chain? s = a.chain? s := by
  cases c with
  | push f =>
    have hother : ¬ s.key = f.streamId.key := fun hkey => h (Call.concerns_push.2 hkey.symm)
    dsimp only [call]
    rw [(a.push_follows f).chain?_eq, if_neg hother]
  | discard streamId =>
    have hother : ¬ s.key = streamId.key := fun hkey => h (Call.concerns_discard.2 hkey.symm)
    dsimp only [call]
    rw [assembler_discard, chain?_drop, if_neg hother]
  | close => exact absurd rfl h

theorem options_call (a : Assembler) (c : Call) : (a.call c).1.options = a.options := by
  cases c with
  | push f => exact (a.push_follows f).options_eq
  | discard streamId =>
    dsimp only [call]
    rw [assembler_discard]
    rfl
  | close => rfl

theorem options_after (a : Assembler) (history : List Call) :
    (a.after history).options = a.options := by
  induction history generalizing a with
  | nil => rfl
  | cons c later ih => exact (ih _).trans (options_call a c)

/-! ## One chain to a stream -/

/-- The streams with an open chain are those on which one is found. -/
theorem mem_pending_iff : s.key ∈ a.pending ↔ (a.chain? s).isSome = true := by
  rw [pending, List.mem_map, chain?, List.find?_isSome]
  simp

theorem chain?_eq_none_iff : a.chain? s = none ↔ s.key ∉ a.pending := by
  rw [mem_pending_iff, Bool.not_eq_true, Option.isSome_eq_false_iff, Option.isNone_iff_eq_none]

theorem pending_drop (a : Assembler) (streamId : Number) :
    (a.drop streamId).pending = a.pending.filter (· != streamId.key) := by
  rw [pending, drop, pending, List.filter_map]
  rfl

/-- A chain that is put in place is filed under its own stream, behind
all others unless it takes the place of one. -/
theorem pending_put (a : Assembler) (chain : Chain) :
    (a.put chain).pending =
      if (a.chain? chain.streamId).isSome then a.pending else a.pending ++ [chain.key] := by
  rw [put]
  split
  · rw [pending, pending, List.map_map]
    apply List.map_congr_left
    intro other _
    rw [Function.comp_apply]
    split
    · rename_i hsame
      exact (beq_iff_eq.1 hsame).symm
    · rfl
  · rw [pending, List.map_append]
    rfl

theorem nodup_pending_settle (h : a.pending.Nodup) (streamId : Number) (chain? : Option Chain) :
    (a.settle streamId chain?).pending.Nodup := by
  cases chain? with
  | none =>
    rw [settle, pending_drop]
    exact h.filter _
  | some chain =>
    rw [settle, pending_put]
    split
    · exact h
    · rename_i hidle
      rw [List.nodup_append]
      refine ⟨h, List.pairwise_singleton _ _, ?_⟩
      rintro key hkey _ hmem rfl
      rw [List.mem_singleton.1 hmem] at hkey
      exact hidle (mem_pending_iff.1 hkey)

theorem nodup_pending_call (h : a.pending.Nodup) (c : Call) : (a.call c).1.pending.Nodup := by
  cases c with
  | push f =>
    dsimp only [call]
    rw [(a.push_settles f).assembler_eq]
    exact nodup_pending_settle h _ _
  | discard streamId =>
    dsimp only [call]
    rw [assembler_discard]
    exact nodup_pending_settle h streamId none
  | close => exact List.nodup_nil

/-- **No stream has more than one chain**, whatever calls are made. -/
theorem nodup_pending_after (h : a.pending.Nodup) (history : List Call) :
    (a.after history).pending.Nodup := by
  induction history generalizing a with
  | nil => exact h
  | cons c later ih => exact ih (nodup_pending_call h c)

/-- Where no stream has more than one chain, the chains are those that
are found. -/
theorem mem_chains_iff (h : a.pending.Nodup) :
    chain ∈ a.chains ↔ a.chain? chain.streamId = some chain := by
  constructor
  · intro hmem
    obtain ⟨found, hfound⟩ := Option.isSome_iff_exists.1
      (mem_pending_iff.1 (List.mem_map_of_mem hmem : chain.streamId.key ∈ a.pending))
    have hfoundmem : found ∈ a.chains := List.mem_of_find?_eq_some hfound
    have hsame : found = chain :=
      List.inj_on_of_nodup_map h hfoundmem hmem (key_of_chain? hfound)
    rw [hfound, hsame]
  · exact List.mem_of_find?_eq_some

end Assembler

end StreamWire

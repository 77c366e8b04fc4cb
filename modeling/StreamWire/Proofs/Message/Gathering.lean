import Mathlib.Data.List.Induction
import StreamWire.Proofs.Message.Pieces
import StreamWire.Proofs.Message.Transcript
/-!
# Gathering — what an assembler does, told from its history

`Assembler.Gathers` says from the calls alone, and from which pushes were
successful, that a stream has a chain open and of which frames: one that
started it, and those that have continued it since. An assembler does
just that (`reassembly_reference`): a chain is open where its history
gathers one, it holds the frames that were gathered, and the frame that
completes it brings out the message they make (`Frame.IsReassembly`). Any
other frame that comes out is the one that went in.
-/

namespace StreamWire

namespace Frame

/-! ## Messages in a chain -/

/-- A message is the reassembly of a chain: of the frame that started it,
those that continued it, and the last one. -/
structure IsReassembly (message first : Frame) (more : List Frame) (last : Frame) : Prop where
  streamId_eq : message.streamId = first.streamId
  /-- The kind and its fixed fields are those of the first frame. -/
  head_eq : ∃ head payload payload',
    first.body = .message head payload ∧ message.body = .message head payload'
  data_eq : message.data = (first :: (more ++ [last])).flatMap data
  metadata_eq : message.metadata =
    if ∀ f ∈ first :: (more ++ [last]), f.metadata = none then none
    else some ((first :: (more ++ [last])).filterMap metadata).flatten
  flags_eq : message.flags = .ofWord
    ((first.flags.word &&& ~~~(Flag.follows ||| Flag.complete ||| Flag.metadata)) |||
      (last.flags.word &&& Flag.complete) |||
      (if message.metadata.isSome then Flag.metadata else 0))

/-- Frames put together have metadata if one of them has. -/
theorem metadata_concat (frames : List Frame) :
    (Payload.concat (frames.map payload)).metadata =
      if ∀ f ∈ frames, f.metadata = none then none
      else some (frames.filterMap metadata).flatten := by
  have hany : (frames.map payload).any (·.metadata.isSome) = true ↔
      ¬ ∀ f ∈ frames, f.metadata = none := by
    rw [List.any_map, List.any_eq_true]
    simp [payload, Option.ne_none_iff_isSome]
  rw [Payload.concat, List.filterMap_map]
  by_cases hnone : ∀ f ∈ frames, f.metadata = none
  · rw [if_pos hnone]
    exact if_neg fun h => hany.1 h hnone
  · rw [if_neg hnone]
    exact if_pos (hany.2 hnone)

theorem data_concat (frames : List Frame) :
    (Payload.concat (frames.map payload)).data = frames.flatMap data := by
  rw [Payload.concat, List.map_map]
  rfl

end Frame

namespace Chain

/-! ## What a chain holds -/

/-- A chain holds these frames: the one that started it, and those that
continued it. -/
structure Holds (chain : Chain) (first : Frame) (more : List Frame) : Prop where
  streamId_eq : chain.streamId = first.streamId
  flags_eq : chain.flags = first.flags
  body_eq : first.body = .message chain.head first.payload
  pieces_eq : chain.pieces = (first :: more).map Frame.payload
  size_eq : chain.size = (Payload.concat chain.pieces).size

variable {chain : Chain} {f first : Frame} {more : List Frame}

theorem size_append (h : chain.size = (Payload.concat chain.pieces).size) (piece : Payload) :
    (chain.append piece).size = (Payload.concat (chain.append piece).pieces).size := by
  dsimp only [append]
  rw [Payload.concat_append, Payload.concat_singleton, Payload.size_join, h]

theorem holds_opening {head : Head} (hbody : f.body = .message head f.payload) :
    ((opening f head).append f.payload).Holds f [] :=
  ⟨rfl, rfl, hbody, rfl, size_append rfl _⟩

theorem Holds.append (h : chain.Holds first more) (f : Frame) :
    (chain.append f.payload).Holds first (more ++ [f]) := by
  refine ⟨h.streamId_eq, h.flags_eq, h.body_eq, ?_, size_append h.size_eq _⟩
  dsimp only [Chain.append]
  rw [h.pieces_eq, ← List.cons_append, List.map_append]
  rfl

/-- **A chain makes the message that its frames amount to.** -/
theorem Holds.isReassembly (h : chain.Holds first more) (last : Frame) :
    ((chain.append last.payload).message last.flags).IsReassembly first more last := by
  have hlast := h.append last
  have hpayload : Payload.concat (chain.append last.payload).pieces =
      Payload.concat ((first :: (more ++ [last])).map Frame.payload) := by
    rw [hlast.pieces_eq]
  have hmetadata := Frame.metadata_concat (first :: (more ++ [last]))
  refine ⟨hlast.streamId_eq, ⟨_, _, _, hlast.body_eq, rfl⟩, ?_, ?_, ?_⟩
  · rw [Frame.data, message, hpayload]
    exact Frame.data_concat _
  · rw [Frame.metadata, message, hpayload]
    exact hmetadata
  · rw [message, hlast.flags_eq]
    rfl

end Chain

namespace Assembler

/-! ## Histories -/

/-- The history of a stream has gathered a chain that is open: `first`
started it, `more` continued it, and nothing else has happened to the
stream since. -/
inductive Gathers (a : Assembler) (streamId : Number) : List Call → Frame → List Frame → Prop
  /-- A message frame with the `follows` bit, pushed with success where no
  chain is open. -/
  | start {history : List Call} {f : Frame} {result : Option Frame} :
      streamId.key ∉ (a.after history).pending → f.streamId.key = streamId.key →
      f.isFragmentable = .ok true → f.flags.hasFlag Flag.follows = true →
      ((a.after history).push f).result = .ok result →
      Gathers a streamId (history ++ [.push f]) f []
  /-- A payload with the `follows` bit, pushed with success. -/
  | more {history : List Call} {first f : Frame} {more : List Frame} {result : Option Frame} :
      Gathers a streamId history first more → f.streamId.key = streamId.key →
      f.kind = .ok .payload → f.flags.hasFlag Flag.follows = true →
      ((a.after history).push f).result = .ok result →
      Gathers a streamId (history ++ [.push f]) first (more ++ [f])
  /-- A call that has nothing to do with the stream. -/
  | other {history : List Call} {first : Frame} {more : List Frame} {c : Call} :
      Gathers a streamId history first more → ¬ c.concerns streamId = true →
      Gathers a streamId (history ++ [c]) first more

variable {a : Assembler} {s : Number} {history : List Call} {first f : Frame} {more : List Frame}

/-- **What a history has gathered is the chain that is open.** -/
theorem Gathers.exists_chain (h : a.Gathers s history first more) :
    ∃ chain, (a.after history).chain? s = some chain ∧ chain.Holds first more := by
  induction h with
  | @start history f result hidle hkey hmessage hfollows hresult =>
    obtain ⟨head, hbody⟩ := Frame.isFragmentable_eq_true_iff.1 hmessage
    have hpush := push_idle (chain?_eq_none_iff.2 hidle) hkey
    rw [hpush.result_eq] at hresult
    refine ⟨(Chain.opening f head).append f.payload, ?_, Chain.holds_opening hbody⟩
    rw [after_concat, call, hpush.chain?_eq, if_pos hkey.symm,
      Chain.idleTurn_of_ok hbody hfollows hresult]
  | @more history first f more result _ hkey hpayload hfollows hresult ih =>
    obtain ⟨chain, hchain, hholds⟩ := ih
    have hpush := push_open hchain hkey
    rw [hpush.result_eq] at hresult
    refine ⟨chain.append f.payload, ?_, hholds.append f⟩
    rw [after_concat, call, hpush.chain?_eq, if_pos hkey.symm,
      Chain.openTurn_of_ok hpayload hfollows hresult]
  | @other history first more c _ hnot ih =>
    obtain ⟨chain, hchain, hholds⟩ := ih
    refine ⟨chain, ?_, hholds⟩
    rw [after_concat, chain?_call_of_not_concerns hnot, hchain]

/-- **A chain that is open was gathered by the history.** -/
theorem exists_gathers (hfresh : a.chains = []) {chain : Chain}
    (h : (a.after history).chain? s = some chain) :
    ∃ first more, a.Gathers s history first more := by
  induction history using List.reverseRecOn generalizing chain with
  | nil =>
    rw [after, chain?, hfresh] at h
    cases h
  | append_singleton history c ih =>
    rw [after_concat] at h
    by_cases hconcerns : c.concerns s = true
    · cases c with
      | push f =>
        have hkey : f.streamId.key = s.key := Call.concerns_push.1 hconcerns
        cases hbefore : (a.after history).chain? s with
        | none =>
          -- The frame has started the chain.
          have hpush := push_idle hbefore hkey
          rw [call, hpush.chain?_eq, if_pos hkey.symm] at h
          obtain ⟨hmessage, hfollows, hresult⟩ := Chain.idleTurn_eq_some h
          exact ⟨f, [], .start (chain?_eq_none_iff.1 hbefore) hkey hmessage hfollows
            (hpush.result_eq.trans hresult)⟩
        | some gathered =>
          -- The frame has continued it.
          obtain ⟨first, more, hgathers⟩ := ih hbefore
          have hpush := push_open hbefore hkey
          rw [call, hpush.chain?_eq, if_pos hkey.symm] at h
          obtain ⟨hpayload, hfollows, hresult⟩ := Chain.openTurn_eq_some h
          exact ⟨first, more ++ [f], .more hgathers hkey hpayload hfollows
            (hpush.result_eq.trans hresult)⟩
      | discard streamId =>
        rw [chain?_call hconcerns] at h
        cases h
      | close =>
        rw [chain?_call hconcerns] at h
        cases h
    · rw [chain?_call_of_not_concerns hconcerns] at h
      obtain ⟨first, more, hgathers⟩ := ih h
      exact ⟨first, more, .other hgathers hconcerns⟩

/-- **A stream has a chain open exactly when its history has gathered
one.** -/
theorem isSome_chain?_iff (hfresh : a.chains = []) :
    ((a.after history).chain? s).isSome = true ↔ ∃ first more, a.Gathers s history first more := by
  rw [Option.isSome_iff_exists]
  constructor
  · rintro ⟨chain, hchain⟩
    exact exists_gathers hfresh hchain
  · rintro ⟨first, more, hgathers⟩
    obtain ⟨chain, hchain, -⟩ := hgathers.exists_chain
    exact ⟨chain, hchain⟩

/-! ## What comes out -/

/-- **Nothing comes out of a frame that is gathered**, and of no other. -/
theorem push_eq_none_iff (hfresh : a.chains = []) :
    ((a.after history).push f).result = .ok none ↔
      ∃ first more, a.Gathers f.streamId (history ++ [.push f]) first more := by
  have hpush := (a.after history).push_follows f
  have hafter := hpush.chain?_eq f.streamId
  rw [if_pos rfl] at hafter
  rw [hpush.result_eq, Chain.turn_eq_none_iff, ← hafter, ← isSome_chain?_iff hfresh, after_concat]
  rfl

/-- **The last payload of a chain brings out its message**, unless that
is too large. -/
theorem Gathers.push_last (h : a.Gathers s history first more) (hkey : f.streamId.key = s.key)
    (hpayload : f.kind = .ok .payload) (hlast : f.flags.hasFlag Flag.follows = false) :
    let size := (Payload.concat ((first :: (more ++ [f])).map Frame.payload)).size
    if (a.after history).options.maxMessageSize.isBelow size then
      ((a.after history).push f).result =
        .error (.messageTooLarge f.streamId size (a.after history).options.maxMessageSize)
    else ∃ message, ((a.after history).push f).result = .ok (some message) ∧
      message.IsReassembly first more f := by
  obtain ⟨chain, hchain, hholds⟩ := h.exists_chain
  have hgrown := hholds.append f
  have hpush := push_open hchain hkey
  rw [Chain.openTurn_payload (Frame.kind_eq_payload_iff.1 hpayload)] at hpush
  rw [← hgrown.pieces_eq, ← hgrown.size_eq]
  intro size
  split
  · rename_i hlarge
    rw [if_pos hlarge] at hpush
    exact hpush.result_eq
  · rename_i hfits
    rw [if_neg hfits, if_neg (by simp [hlast])] at hpush
    exact ⟨_, hpush.result_eq, hholds.isReassembly f⟩

/-- **What comes out is what went in**, or the message that it completes. -/
theorem eq_or_isReassembly_of_push (hfresh : a.chains = []) {g : Frame}
    (h : ((a.after history).push f).result = .ok (some g)) :
    g = f ∨ ∃ first more, a.Gathers f.streamId history first more ∧ f.kind = .ok .payload ∧
      f.flags.hasFlag Flag.follows = false ∧ g.IsReassembly first more f := by
  cases hchain : (a.after history).chain? f.streamId with
  | none =>
    have hresult := (push_idle hchain rfl).result_eq.symm.trans h
    by_cases hstarts : f.isFragmentable = .ok true ∧ f.flags.hasFlag Flag.follows = true
    · -- Of a frame that starts a chain nothing comes out.
      obtain ⟨head, hbody⟩ := Frame.isFragmentable_eq_true_iff.1 hstarts.1
      have hstarted := Chain.idleTurn_of_ok hbody hstarts.2 hresult
      obtain ⟨-, -, hnothing⟩ := Chain.idleTurn_eq_some hstarted
      rw [hresult] at hnothing
      cases hnothing
    · rw [Chain.idleTurn_other hstarts] at hresult
      cases hkind : f.kind with
      | ok kind =>
        rw [hkind] at hresult
        cases hresult
        exact .inl rfl
      | error fault =>
        rw [hkind] at hresult
        cases hresult
  | some chain =>
    have hresult := (push_open hchain rfl).result_eq.symm.trans h
    by_cases hpayload : f.kind = .ok .payload
    · obtain ⟨first, more, hgathers⟩ := exists_gathers hfresh hchain
      cases hfollows : f.flags.hasFlag Flag.follows with
      | true =>
        have hgrown := Chain.openTurn_of_ok hpayload hfollows hresult
        obtain ⟨-, -, hnothing⟩ := Chain.openTurn_eq_some hgrown
        rw [hresult] at hnothing
        cases hnothing
      | false =>
        have hlast := hgathers.push_last rfl hpayload hfollows
        dsimp only at hlast
        split at hlast
        · rw [h] at hlast
          cases hlast
        · obtain ⟨message, hmessage, hreassembly⟩ := hlast
          rw [h] at hmessage
          cases hmessage
          exact .inr ⟨first, more, hgathers, hpayload, rfl, hreassembly⟩
    · have hsame := (Chain.openTurn_other_cases hpayload).2 _ hresult
      cases hsame
      exact .inl rfl

/-- A frame passes that is the end of its stream, or that finds no chain
on it and starts none. -/
theorem push_passes {kind : FrameKind} (hkind : f.kind = .ok kind)
    (hpasses : kind = .cancel ∨ kind = .error ∨ (f.streamId.key ∉ a.pending ∧
      ¬ (kind.traits.fragmentable = true ∧ f.flags.hasFlag Flag.follows = true))) :
    (a.push f).result = .ok (some f) := by
  have hfragmentable : f.isFragmentable = .ok kind.traits.fragmentable := by
    rw [Frame.isFragmentable, hkind]
    rfl
  cases hchain : a.chain? f.streamId with
  | none =>
    have hstarts : ¬ (f.isFragmentable = .ok true ∧ f.flags.hasFlag Flag.follows = true) := by
      rintro ⟨hmessage, hfollows⟩
      rw [hfragmentable] at hmessage
      injection hmessage with hmessage
      rcases hpasses with rfl | rfl | ⟨-, hnot⟩
      · cases hmessage
      · cases hmessage
      · exact hnot ⟨hmessage, hfollows⟩
    rw [(push_idle hchain rfl).result_eq, Chain.idleTurn_other hstarts, hkind]
    rfl
  | some chain =>
    have hopen : f.streamId.key ∈ a.pending := by
      rw [mem_pending_iff, hchain]
      rfl
    rw [(push_open hchain rfl).result_eq]
    rcases hpasses with rfl | rfl | ⟨hidle, -⟩
    · rw [Chain.openTurn_other (by simp [hkind]), hkind]
    · rw [Chain.openTurn_other (by simp [hkind]), hkind]
    · exact absurd hopen hidle

/-- **An assembler computes the reference reassembly.** However it is run
and whatever calls are made: a stream has a chain open exactly when its
history has gathered one, and nothing comes out of a frame exactly when it
is gathered. The payload without the `follows` bit that comes next brings
out the message of the chain, or is refused because that is too large. Any
other frame that comes out is the one that was pushed, and such a frame
comes out where it is the end of its stream, or finds no chain on it and
starts none. -/
theorem reassembly_reference (options : AssemblerOptions) (history : List Call) :
    let a : Assembler := { options }
    let b := a.after history
    (∀ s : Number, s.key ∈ b.pending ↔ ∃ first more, a.Gathers s history first more) ∧
    (∀ f, (b.push f).result = .ok none ↔
      ∃ first more, a.Gathers f.streamId (history ++ [.push f]) first more) ∧
    (∀ f first more, a.Gathers f.streamId history first more → f.kind = .ok .payload →
      f.flags.hasFlag Flag.follows = false →
      let size := (Payload.concat ((first :: (more ++ [f])).map Frame.payload)).size
      if options.maxMessageSize.isBelow size then
        (b.push f).result = .error (.messageTooLarge f.streamId size options.maxMessageSize)
      else ∃ message, (b.push f).result = .ok (some message) ∧
        message.IsReassembly first more f) ∧
    (∀ f g, (b.push f).result = .ok (some g) →
      g = f ∨ ∃ first more, a.Gathers f.streamId history first more ∧ f.kind = .ok .payload ∧
        f.flags.hasFlag Flag.follows = false ∧ g.IsReassembly first more f) ∧
    ∀ f kind, f.kind = .ok kind →
      (kind = .cancel ∨ kind = .error ∨ (f.streamId.key ∉ b.pending ∧
        ¬ (kind.traits.fragmentable = true ∧ f.flags.hasFlag Flag.follows = true))) →
      (b.push f).result = .ok (some f) := by
  intro a b
  have hfresh : a.chains = [] := rfl
  refine ⟨?_, fun f => push_eq_none_iff hfresh, ?_,
    fun f g h => eq_or_isReassembly_of_push hfresh h, fun f kind => push_passes⟩
  · intro s
    rw [mem_pending_iff]
    exact isSome_chain?_iff hfresh
  · intro f first more hgathers hpayload hlast
    have hpush := hgathers.push_last rfl hpayload hlast
    rwa [options_after] at hpush

/-- A chain that is started under negative zero is gathered under zero,
and its message has as many bytes as the maximum admits. -/
theorem reassembly_reference_negZero :
    let options : AssemblerOptions := { maxMessageSize := .ofNat 4 }
    let a : Assembler := { options }
    let first : Frame :=
      ⟨.negZero, .ofWord (Flag.follows ||| Flag.metadata), .message .requestResponse ⟨none, [1]⟩⟩
    let more : Frame := ⟨.ofNat 0, .ofWord Flag.follows, .message .payload ⟨some [], [2]⟩⟩
    let last : Frame := ⟨.ofNat 0, .ofWord Flag.complete, .message .payload ⟨some [5], [3]⟩⟩
    let history : List Call := [.push first, .discard (.ofNat 3), .push more]
    a.Gathers last.streamId history first [more] ∧
      ∃ message, ((a.after history).push last).result = .ok (some message) ∧
        message.IsReassembly first [more] last := by
  intro options a first more last history
  have hfirst : ((a.after []).push first).result = .ok none := by decide +kernel
  have hmore : ((a.after [.push first, .discard (.ofNat 3)]).push more).result = .ok none := by
    decide +kernel
  have hstart : a.Gathers last.streamId ([] ++ [.push first]) first [] :=
    .start List.not_mem_nil rfl rfl (by decide) hfirst
  have hother : a.Gathers last.streamId ([] ++ [.push first] ++ [.discard (.ofNat 3)]) first [] :=
    .other hstart (by decide)
  have hgathers : a.Gathers last.streamId history first ([] ++ [more]) :=
    .more hother rfl rfl (by decide) hmore
  have hcomplete : last.flags.hasFlag Flag.follows = false := by decide
  have hlast :=
    (reassembly_reference options history).2.2.1 last first [more] hgathers rfl hcomplete
  exact ⟨hgathers, hlast⟩

end Assembler

end StreamWire

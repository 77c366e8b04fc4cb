import StreamWire.Message.Assembler
/-!
# Turns — what a frame does on its own stream

An assembler files its chains by stream, and a frame has to do with the
chain of its own stream only. `Chain.turn` is that part of a push: from
the chain that is open on the stream, if any, to the chain that is open
afterwards, the result and the notices. Its laws say, kind by kind, which
frames start a chain, continue it or end it, and which pass.
`Assembler.push_settles` says that a push puts the chain of the turn in
the place of its stream's, and `Assembler.push_follows` that every other
stream is left alone.
-/

namespace StreamWire

/-- What a frame leads to on its stream. -/
structure Turn where
  chain? : Option Chain
  result : Except Fault (Option Frame)
  notices : List Notice := []

namespace Chain

/-- A frame on a stream without an open chain. -/
def idleTurn (options : AssemblerOptions) (obstacle? : Option Chain) (f : Frame) : Turn :=
  match f.body with
  | .unassigned code _ => { chain? := none, result := .error (.unknownType code) }
  | .message head payload =>
    if f.flags.hasFlag Flag.follows then
      match obstacle? with
      | some other =>
        { chain? := none, result := .error (.interleaved other.key f.streamId) }
      | none =>
        match Assembler.grow { options } f.streamId ⟨f.streamId, f.flags, head, [], 0⟩ payload with
        | .error fault => { chain? := none, result := .error fault }
        | .ok started => { chain? := some started, result := .ok none }
    else
      { chain? := none, result := .ok (some f) }
  | _ => { chain? := none, result := .ok (some f) }

/-- A frame on a stream whose chain is open. -/
def openTurn (options : AssemblerOptions) (chain : Chain) (f : Frame) : Turn :=
  match f.body with
  | .cancel | .error _ _ =>
    { chain? := none
      result := .ok (some f)
      notices := [.discarded f.streamId chain.size] }
  | .message .payload payload =>
    match Assembler.grow { options } f.streamId chain payload with
    | .error fault => { chain? := none, result := .error fault }
    | .ok grown =>
      if f.flags.hasFlag Flag.follows then { chain? := some grown, result := .ok none }
      else { chain? := none, result := .ok (some (grown.message f.flags)) }
  | body =>
    { chain? := none
      result :=
        match body.kind with
        | .ok kind => .error (.brokenChain f.streamId kind)
        | .error fault => .error fault }

/-- A frame on a stream, where an obstacle keeps a chain from being
started. -/
def turn (options : AssemblerOptions) (obstacle? chain? : Option Chain) (f : Frame) : Turn :=
  match chain? with
  | none => idleTurn options obstacle? f
  | some chain => openTurn options chain f

end Chain

/-! ## Which frames do what -/

namespace Frame

/-- The metadata and the data of a frame. -/
def payload (f : Frame) : Payload := ⟨f.metadata, f.data⟩

variable {f : Frame}

theorem body_eq_of_message {head : Head} {payload : Payload} (h : f.body = .message head payload) :
    f.body = .message head f.payload := by
  rw [Frame.payload, metadata, data, h]
  rfl

theorem kind_of_message {head : Head} {payload : Payload} (h : f.body = .message head payload) :
    f.kind = .ok head.kind := by
  rw [kind, h]
  rfl

theorem metadata_of_message {head : Head} {payload : Payload}
    (h : f.body = .message head payload) : f.metadata = payload.metadata := by
  rw [metadata, h]
  rfl

/-- The type code is all that the kind of a frame can be refused for. -/
theorem exists_code_of_kind_error {fault : Fault} (h : f.kind = .error fault) :
    ∃ code, fault = .unknownType code := by
  rw [kind, Body.kind_eq_resolveKind, resolveKind] at h
  split at h
  · cases h
  · exact ⟨_, (Except.error.inj h).symm⟩

/-- The kinds that may be split are those that carry a message. -/
theorem isFragmentable_eq_true_iff :
    f.isFragmentable = .ok true ↔ ∃ head, f.body = .message head f.payload := by
  constructor
  · intro h
    rw [isFragmentable, kind] at h
    cases hbody : f.body with
    | message head payload => exact ⟨head, hbody ▸ body_eq_of_message hbody⟩
    | raw kind body =>
      rw [hbody] at h
      cases kind <;> cases h
    | _ =>
      rw [hbody] at h
      cases h
  · rintro ⟨head, h⟩
    rw [isFragmentable, kind, h]
    cases head <;> rfl

theorem kind_eq_payload_iff : f.kind = .ok .payload ↔ f.body = .message .payload f.payload := by
  constructor
  · intro h
    rw [kind] at h
    cases hbody : f.body with
    | message head payload =>
      rw [hbody] at h
      cases head with
      | payload => exact hbody ▸ body_eq_of_message hbody
      | _ => cases h
    | raw kind body =>
      rw [hbody] at h
      cases kind <;> cases h
    | _ =>
      rw [hbody] at h
      cases h
  · intro h
    rw [kind, h]
    rfl

end Frame

namespace Chain

variable {options : AssemblerOptions} {obstacle? : Option Chain} {chain : Chain} {f : Frame}

/-- A chain of which nothing has arrived yet, but its first frame is
known. -/
def opening (f : Frame) (head : Head) : Chain := ⟨f.streamId, f.flags, head, [], 0⟩

/-- A chain does not grow beyond the maximum. -/
theorem grow_of_isBelow (streamId : Number) {piece : Payload}
    (h : options.maxMessageSize.isBelow (chain.append piece).size = true) :
    Assembler.grow { options } streamId chain piece =
      .error (.messageTooLarge streamId (chain.append piece).size options.maxMessageSize) :=
  if_pos h

theorem grow_of_not_isBelow (streamId : Number) {piece : Payload}
    (h : ¬ options.maxMessageSize.isBelow (chain.append piece).size = true) :
    Assembler.grow { options } streamId chain piece = .ok (chain.append piece) :=
  if_neg h

/-- A message frame with the `follows` bit starts a chain, unless another
is in its way or it is too large for a message. -/
theorem idleTurn_start {head : Head} (hbody : f.body = .message head f.payload)
    (hfollows : f.flags.hasFlag Flag.follows = true) :
    let started := (opening f head).append f.payload
    idleTurn options obstacle? f =
      match obstacle? with
      | some other => { chain? := none, result := .error (.interleaved other.key f.streamId) }
      | none =>
        if options.maxMessageSize.isBelow started.size then
          { chain? := none
            result := .error (.messageTooLarge f.streamId started.size options.maxMessageSize) }
        else { chain? := some started, result := .ok none } := by
  intro started
  rw [idleTurn, hbody]
  dsimp only
  rw [if_pos hfollows]
  cases obstacle? with
  | some other => rfl
  | none =>
    by_cases hlarge : options.maxMessageSize.isBelow started.size = true
    · have hgrow := grow_of_isBelow f.streamId hlarge
      rw [opening] at hgrow
      dsimp only
      rw [hgrow, if_pos hlarge]
      rfl
    · have hgrow := grow_of_not_isBelow f.streamId hlarge
      rw [opening] at hgrow
      dsimp only
      rw [hgrow, if_neg hlarge]
      rfl

/-- Any other frame starts none, and comes out itself if it is of any
kind. -/
theorem idleTurn_other
    (h : ¬ (f.isFragmentable = .ok true ∧ f.flags.hasFlag Flag.follows = true)) :
    idleTurn options obstacle? f = { chain? := none, result := f.kind.map fun _ => some f } := by
  rw [idleTurn, Frame.kind]
  cases hbody : f.body with
  | message head payload =>
    have hfollows : ¬ f.flags.hasFlag Flag.follows = true := fun hfollows =>
      h ⟨Frame.isFragmentable_eq_true_iff.2 ⟨head, Frame.body_eq_of_message hbody⟩, hfollows⟩
    exact if_neg hfollows
  | _ => rfl

/-- A payload continues a chain or ends it, unless the message gets too
large. -/
theorem openTurn_payload (hbody : f.body = .message .payload f.payload) :
    let grown := chain.append f.payload
    openTurn options chain f =
      if options.maxMessageSize.isBelow grown.size then
        { chain? := none
          result := .error (.messageTooLarge f.streamId grown.size options.maxMessageSize) }
      else if f.flags.hasFlag Flag.follows then { chain? := some grown, result := .ok none }
      else { chain? := none, result := .ok (some (grown.message f.flags)) } := by
  intro grown
  rw [openTurn, hbody]
  dsimp only
  by_cases hlarge : options.maxMessageSize.isBelow grown.size = true
  · rw [grow_of_isBelow f.streamId hlarge, if_pos hlarge]
  · rw [grow_of_not_isBelow f.streamId hlarge, if_neg hlarge]

/-- Any other frame leaves no chain. The end of the stream comes out
itself, and nothing else does. -/
theorem openTurn_other (h : ¬ f.kind = .ok .payload) :
    openTurn options chain f =
      match f.kind with
      | .ok .cancel | .ok .error =>
        { chain? := none
          result := .ok (some f)
          notices := [.discarded f.streamId chain.size] }
      | .ok kind => { chain? := none, result := .error (.brokenChain f.streamId kind) }
      | .error fault => { chain? := none, result := .error fault } := by
  rw [openTurn, Frame.kind]
  cases hbody : f.body with
  | message head payload =>
    cases head with
    | payload => exact absurd (Frame.kind_eq_payload_iff.2 (Frame.body_eq_of_message hbody)) h
    | _ => rfl
  | raw kind body => cases kind <;> rfl
  | _ => rfl

/-- On an open chain such a frame leaves none behind, and what comes out
is the frame itself. -/
theorem openTurn_other_cases (h : ¬ f.kind = .ok .payload) :
    (openTurn options chain f).chain? = none ∧
      ∀ result, (openTurn options chain f).result = .ok result → result = some f := by
  rw [openTurn_other h]
  split
  · exact ⟨rfl, by rintro _ ⟨⟩; rfl⟩
  · exact ⟨rfl, by rintro _ ⟨⟩; rfl⟩
  · exact ⟨rfl, by rintro _ ⟨⟩⟩
  · exact ⟨rfl, by rintro _ ⟨⟩⟩

/-- A message frame with the `follows` bit that is not refused has started
a chain. -/
theorem idleTurn_of_ok {head : Head} {result : Option Frame}
    (hbody : f.body = .message head f.payload) (hfollows : f.flags.hasFlag Flag.follows = true)
    (h : (idleTurn options obstacle? f).result = .ok result) :
    (idleTurn options obstacle? f).chain? = some ((opening f head).append f.payload) := by
  rw [idleTurn_start hbody hfollows] at h ⊢
  cases obstacle? with
  | some other => cases h
  | none =>
    dsimp only at h ⊢
    split at h
    · cases h
    · rename_i hfits
      rw [if_neg hfits]

/-- A chain was started by such a frame. -/
theorem idleTurn_eq_some (h : (idleTurn options obstacle? f).chain? = some chain) :
    f.isFragmentable = .ok true ∧ f.flags.hasFlag Flag.follows = true ∧
      (idleTurn options obstacle? f).result = .ok none := by
  by_cases hstarts : f.isFragmentable = .ok true ∧ f.flags.hasFlag Flag.follows = true
  · obtain ⟨hmessage, hfollows⟩ := hstarts
    obtain ⟨head, hbody⟩ := Frame.isFragmentable_eq_true_iff.1 hmessage
    refine ⟨hmessage, hfollows, ?_⟩
    rw [idleTurn_start hbody hfollows] at h ⊢
    cases obstacle? with
    | some other => cases h
    | none =>
      dsimp only at h ⊢
      split at h
      · cases h
      · rename_i hfits
        rw [if_neg hfits]
  · rw [idleTurn_other hstarts] at h
    cases h

/-- A payload with the `follows` bit that is not refused has continued the
chain. -/
theorem openTurn_of_ok {result : Option Frame} (hpayload : f.kind = .ok .payload)
    (hfollows : f.flags.hasFlag Flag.follows = true)
    (h : (openTurn options chain f).result = .ok result) :
    (openTurn options chain f).chain? = some (chain.append f.payload) := by
  rw [openTurn_payload (Frame.kind_eq_payload_iff.1 hpayload)] at h ⊢
  split at h
  · cases h
  · rename_i hfits
    rw [if_neg hfits, if_pos hfollows]

/-- A chain that stays open was continued by such a frame. -/
theorem openTurn_eq_some {grown : Chain} (h : (openTurn options chain f).chain? = some grown) :
    f.kind = .ok .payload ∧ f.flags.hasFlag Flag.follows = true ∧
      (openTurn options chain f).result = .ok none := by
  by_cases hpayload : f.kind = .ok .payload
  · refine ⟨hpayload, ?_⟩
    rw [openTurn_payload (Frame.kind_eq_payload_iff.1 hpayload)] at h ⊢
    split at h
    · cases h
    · rename_i hfits
      split at h
      · rename_i hfollows
        rw [if_neg hfits, if_pos hfollows]
        exact ⟨hfollows, rfl⟩
      · cases h
  · rw [(openTurn_other_cases hpayload).1] at h
    cases h

/-- **Nothing comes out of a frame exactly where it leaves a chain open.** -/
theorem turn_eq_none_iff {chain? : Option Chain} :
    (turn options obstacle? chain? f).result = .ok none ↔
      (turn options obstacle? chain? f).chain?.isSome = true := by
  rw [Option.isSome_iff_exists]
  constructor
  · intro h
    cases chain? with
    | none =>
      by_cases hstarts : f.isFragmentable = .ok true ∧ f.flags.hasFlag Flag.follows = true
      · obtain ⟨head, hbody⟩ := Frame.isFragmentable_eq_true_iff.1 hstarts.1
        exact ⟨_, idleTurn_of_ok hbody hstarts.2 h⟩
      · rw [turn, idleTurn_other hstarts] at h
        cases hkind : f.kind <;> rw [hkind] at h <;> cases h
    | some chain =>
      by_cases hpayload : f.kind = .ok .payload
      · by_cases hfollows : f.flags.hasFlag Flag.follows = true
        · exact ⟨_, openTurn_of_ok hpayload hfollows h⟩
        · rw [turn, openTurn_payload (Frame.kind_eq_payload_iff.1 hpayload), if_neg hfollows] at h
          split at h <;> cases h
      · cases (openTurn_other_cases hpayload).2 _ h
  · rintro ⟨left, h⟩
    cases chain? with
    | none => exact (idleTurn_eq_some h).2.2
    | some chain => exact (openTurn_eq_some h).2.2

end Chain

namespace Assembler

variable {a : Assembler} {s streamId : Number} {chain : Chain} {f : Frame}

/-! ## Chains by stream -/

theorem chain?_congr (h : s.key = streamId.key) : a.chain? s = a.chain? streamId := by
  rw [chain?, chain?, h]

theorem key_of_chain? (h : a.chain? s = some chain) : chain.key = s.key := by
  simpa using List.find?_some h

/-- Dropping a chain leaves the other streams alone. -/
theorem chain?_drop : (a.drop streamId).chain? s =
    if s.key = streamId.key then none else a.chain? s := by
  rw [chain?, drop, List.find?_filter, chain?]
  split
  · rename_i hsame
    rw [List.find?_eq_none]
    rintro other -
    simp [hsame]
  · rename_i hother
    congr 1
    funext other
    by_cases hkey : other.key = s.key
    · simp [hkey, hother]
    · simp [hkey]

/-- Putting a chain in place leaves the other streams alone. -/
theorem chain?_put : (a.put chain).chain? s =
    if s.key = chain.key then some chain else a.chain? s := by
  have hkey : chain.key = chain.streamId.key := rfl
  rw [put]
  split
  · rename_i hopen
    -- Replacing chains keeps their keys, so the same one is found.
    have hkeeps : ((fun other : Chain => other.key == s.key) ∘
        fun other => if other.key == chain.key then chain else other) =
          fun other => other.key == s.key := by
      funext other
      simp only [Function.comp_apply]
      split
      · rename_i hsame
        rw [beq_iff_eq.1 hsame]
      · rfl
    have hfind : chain? { a with chains := a.chains.map fun other =>
        if other.key == chain.key then chain else other } s =
          (a.chain? s).map fun other => if other.key == chain.key then chain else other := by
      rw [chain?, List.find?_map, hkeeps]
      rfl
    rw [hfind]
    split
    · rename_i hsame
      obtain ⟨found, hfound⟩ := Option.isSome_iff_exists.1 hopen
      have hs : a.chain? s = some found := by rw [chain?_congr (hsame.trans hkey), hfound]
      have hfoundkey : found.key = chain.key := (key_of_chain? hs).trans hsame
      rw [hs, Option.map_some, if_pos (beq_iff_eq.2 hfoundkey)]
    · rename_i hother
      cases hs : a.chain? s with
      | none => rfl
      | some found =>
        have hne : ¬ found.key = chain.key := fun h => hother ((key_of_chain? hs).symm.trans h)
        rw [Option.map_some, if_neg (by simpa using hne)]
  · -- The chain is filed behind all others, and none of them is on its stream.
    rename_i hidle
    have hnone : a.chain? chain.streamId = none := by simpa using hidle
    rw [chain?, List.find?_append]
    split
    · rename_i hsame
      have hs : a.chain? s = none := by rw [chain?_congr (hsame.trans hkey), hnone]
      rw [chain?] at hs
      rw [hs]
      simp [hsame]
    · rename_i hother
      have hne : (chain.key == s.key) = false := by simpa using Ne.symm hother
      rw [List.find?_cons, hne, List.find?_nil, Option.or_none, chain?]

/-- A chain that grows stays on its stream. -/
theorem key_of_grow {grown : Chain} {piece : Payload}
    (h : a.grow streamId chain piece = .ok grown) : grown.key = chain.key := by
  unfold grow at h
  dsimp only at h
  split at h
  · cases h
  · injection h with h
    rw [← h]
    rfl

/-! ## A push is the turn of its stream -/

/-- With this chain on a stream, or with none. -/
def settle (a : Assembler) (streamId : Number) : Option Chain → Assembler
  | none => a.drop streamId
  | some chain => a.put chain

/-- There is nothing to drop on a stream without a chain. -/
theorem drop_of_idle (h : a.chain? streamId = none) : a.drop streamId = a := by
  rw [chain?, List.find?_eq_none] at h
  rw [drop, List.filter_eq_self.2]
  intro other hmem
  simpa using h other hmem

/-- The outcome of a push is a turn: its result and its notices, and its
chain in the place of the one of its stream. -/
structure Settles (a : Assembler) (streamId : Number) (outcome : Outcome (Option Frame))
    (turn : Turn) : Prop where
  result_eq : outcome.result = turn.result
  notices_eq : outcome.notices = turn.notices
  assembler_eq : outcome.assembler = a.settle streamId turn.chain?
  key_eq : ∀ chain ∈ turn.chain?, chain.key = streamId.key

/-- Nothing was filed. -/
theorem settles_of_idle (h : a.chain? streamId = none) (result : Except Fault (Option Frame)) :
    a.Settles streamId { assembler := a, result } { chain? := none, result } :=
  ⟨rfl, rfl, (drop_of_idle h).symm, fun _ hmem => absurd hmem (Option.not_mem_none _)⟩

/-- The chain of the stream was dropped. -/
theorem settles_of_drop (result : Except Fault (Option Frame)) (notices : List Notice) :
    a.Settles streamId { assembler := a.drop streamId, result, notices }
      { chain? := none, result, notices } :=
  ⟨rfl, rfl, rfl, fun _ hmem => absurd hmem (Option.not_mem_none _)⟩

/-- A chain of the stream was filed. -/
theorem settles_of_put (h : chain.key = streamId.key) (result : Except Fault (Option Frame)) :
    a.Settles streamId { assembler := a.put chain, result } { chain? := some chain, result } := by
  refine ⟨rfl, rfl, rfl, ?_⟩
  rintro _ ⟨⟩
  exact h

theorem settles_onIdleStream (h : a.chain? f.streamId = none) :
    a.Settles f.streamId (a.onIdleStream f)
      (Chain.idleTurn a.options (a.obstacle? f.streamId) f) := by
  have hidle := settles_of_idle h
  unfold onIdleStream Chain.idleTurn
  cases f.body with
  | message head payload =>
    dsimp only
    split
    · cases a.obstacle? f.streamId with
      | some other => exact hidle _
      | none =>
        -- Of the assembler growing a chain reads the options only.
        have hgrow : Assembler.grow { options := a.options } = a.grow := rfl
        rw [hgrow]
        dsimp only
        cases hstarted : a.grow f.streamId ⟨f.streamId, f.flags, head, [], 0⟩ payload with
        | error fault => exact settles_of_drop _ _
        | ok started => exact settles_of_put (key_of_grow hstarted) _
    · exact hidle _
  | unassigned code unused => exact hidle _
  | _ => exact hidle _

theorem settles_onOpenStream (h : a.chain? f.streamId = some chain) :
    a.Settles f.streamId (a.onOpenStream chain f) (Chain.openTurn a.options chain f) := by
  have hdiscard : a.discard f.streamId =
      { assembler := a.drop f.streamId
        result := .ok true
        notices := [.discarded f.streamId chain.size] } := by
    rw [discard, h]
  unfold onOpenStream Chain.openTurn
  rw [hdiscard]
  cases f.body with
  | message head payload =>
    cases head with
    | payload =>
      have hgrow : Assembler.grow { options := a.options } = a.grow := rfl
      rw [hgrow]
      dsimp only
      cases hgrown : a.grow f.streamId chain payload with
      | error fault => exact settles_of_drop _ _
      | ok grown =>
        dsimp only
        split
        · exact settles_of_put ((key_of_grow hgrown).trans (key_of_chain? h)) _
        · exact settles_of_drop _ _
    | _ => exact settles_of_drop _ _
  | _ => exact settles_of_drop _ _

/-- **A push is the turn of its stream**, settled there. -/
theorem push_settles (a : Assembler) (f : Frame) :
    a.Settles f.streamId (a.push f)
      (Chain.turn a.options (a.obstacle? f.streamId) (a.chain? f.streamId) f) := by
  unfold push Chain.turn
  cases hchain : a.chain? f.streamId with
  | none => exact settles_onIdleStream hchain
  | some chain => exact settles_onOpenStream hchain

/-- **Where anything comes of a push, no chain is left on its stream**, be
it a frame or a fault that comes. -/
theorem assembler_push_of_ne_none (h : (a.push f).result ≠ .ok none) :
    (a.push f).assembler = a.drop f.streamId := by
  obtain ⟨hresult, -, hassembler, -⟩ := a.push_settles f
  rw [hresult, ne_eq, Chain.turn_eq_none_iff, Bool.not_eq_true, Option.isSome_eq_false_iff,
    Option.isNone_iff_eq_none] at h
  rw [hassembler, h]
  rfl

/-- The outcome of a push is a turn: its result and its notices, the chain
of its stream as it says, and nothing else changed. -/
structure Follows (a : Assembler) (streamId : Number) (outcome : Outcome (Option Frame))
    (turn : Turn) : Prop where
  result_eq : outcome.result = turn.result
  notices_eq : outcome.notices = turn.notices
  options_eq : outcome.assembler.options = a.options
  chain?_eq : ∀ s, outcome.assembler.chain? s =
    if s.key = streamId.key then turn.chain? else a.chain? s

theorem options_settle (a : Assembler) (streamId : Number) (chain? : Option Chain) :
    (a.settle streamId chain?).options = a.options := by
  cases chain? with
  | none => rfl
  | some chain =>
    rw [settle, put]
    split <;> rfl

/-- **A push leaves every stream but its own alone.** -/
theorem push_follows (a : Assembler) (f : Frame) :
    a.Follows f.streamId (a.push f)
      (Chain.turn a.options (a.obstacle? f.streamId) (a.chain? f.streamId) f) := by
  obtain ⟨hresult, hnotices, hassembler, hkey⟩ := a.push_settles f
  refine ⟨hresult, hnotices, ?_, ?_⟩
  · rw [hassembler, options_settle]
  · intro s
    rw [hassembler]
    generalize (Chain.turn a.options (a.obstacle? f.streamId) (a.chain? f.streamId) f).chain? =
      chain? at hkey
    cases chain? with
    | none => exact chain?_drop
    | some chain =>
      rw [← hkey chain rfl]
      exact chain?_put

/-- A push on a stream without an open chain. -/
theorem push_idle (hidle : a.chain? s = none) (hkey : f.streamId.key = s.key) :
    a.Follows f.streamId (a.push f) (Chain.idleTurn a.options (a.obstacle? f.streamId) f) := by
  have hpush := a.push_follows f
  rwa [chain?_congr hkey, hidle] at hpush

/-- A push on a stream whose chain is open. -/
theorem push_open {chain : Chain} (hopen : a.chain? s = some chain)
    (hkey : f.streamId.key = s.key) :
    a.Follows f.streamId (a.push f) (Chain.openTurn a.options chain f) := by
  have hpush := a.push_follows f
  rwa [chain?_congr hkey, hopen] at hpush

/-- Where chains may be open side by side, none is in another's way. -/
theorem obstacle?_of_allowInterleaving (h : a.options.allowInterleaving = true) (s : Number) :
    a.obstacle? s = none := by
  rw [obstacle?, if_pos h]

/-- An assembler that is run by default goes by the chain of the stream
alone. -/
theorem push_follows_default (hoptions : a.options = {}) (hkey : f.streamId.key = s.key) :
    a.Follows f.streamId (a.push f) (Chain.turn {} none (a.chain? s) f) := by
  have hpush := a.push_follows f
  have hfree : a.options.allowInterleaving = true := by rw [hoptions]
  rwa [obstacle?_of_allowInterleaving hfree, hoptions, chain?_congr hkey] at hpush

end Assembler

end StreamWire

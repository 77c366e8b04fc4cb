import StreamWire.Proofs.Message.Reassembly
import StreamWire.Proofs.Message.Transcript
/-!
# Delivery — a message there and back

A message is split, sent, read and put together again. `Reassembly` says
what comes out where every fragment could be encoded; here it is shown
that they can. A message whose stream id and request count fit their
fields (`Frame.IsSendable`) has fragments that do, and a fragment is short
enough for the length of its metadata, however long the metadata of the
message is. So whatever the size asked for, the message is sent and
delivered (`Frame.fragments_delivered`).
-/

namespace StreamWire

/-- The request count of a message of a kind that has one. -/
def Head.initialN? : Head → Option Number
  | .requestStream initialN | .requestChannel initialN => some initialN
  | _ => none

/-- A limit is what a value in its range denotes. -/
theorem FragmentLimit.ofNumber_eq_ok_iff {x : Number} {limit : FragmentLimit} :
    ofNumber x = .ok limit ↔ x.key = .ofNat limit.bytes := by
  rw [← Number.toNat?_eq_some_iff, ofNumber]
  cases hx : x.toNat? with
  | none => simp
  | some n =>
    dsimp only
    split
    · rw [Except.ok.injEq, FragmentLimit.mk.injEq, Option.some_inj]
    · rename_i hout
      rw [Option.some_inj]
      refine ⟨fun h => ?_, ?_⟩
      · cases h
      · rintro rfl
        exact absurd ⟨limit.atLeast, limit.atMost⟩ hout

/-- A limit is what its own number denotes. -/
theorem FragmentLimit.ofNumber_bytes (limit : FragmentLimit) :
    ofNumber (.ofNat limit.bytes) = .ok limit :=
  ofNumber_eq_ok_iff.2 (Number.key_ofNat limit.bytes)

namespace Frame

/-- A message that may be sent on its stream, as far as its fixed fields
go. -/
structure IsSendable (f : Frame) (head : Head) (payload : Payload) : Prop where
  body_eq : f.body = .message head payload
  streamId_valid : ∃ id, StreamId.ofNumber? f.streamId = some id ∧ id ≠ 0
  initialN_valid : ∀ n ∈ head.initialN?, ∃ count, n.toNatUpTo? Wire.maxRequestN = some count

/-- Frames that bring a message to an assembler run by default: nothing
comes of any but the last, and the message of that one. -/
def Deliver (frames : List Frame) (message : Frame) : Prop :=
  (Assembler.transcript {} (frames.map .push)).map Exchange.reply =
    List.replicate (frames.length - 1) ⟨.pushed (.ok none), []⟩ ++
      [⟨.pushed (.ok (some message)), []⟩]

variable {f : Frame} {head : Head} {payload : Payload} {limit : FragmentLimit}

/-! ## Every fragment can be sent -/

/-- A stream that is not the connection itself is known by its id as it
stands. -/
theorem IsSendable.key_eq (h : f.IsSendable head payload) : f.streamId.key = f.streamId := by
  obtain ⟨id, hid, hne⟩ := h.streamId_valid
  rw [Number.eq_ofNat_of_key (StreamId.ofNumber?_eq_some_iff.1 hid).1 hne]
  rfl

theorem IsSendable.opening (h : f.IsSendable head payload) (piece : Piece) :
    (f.opening head piece).IsSendable head piece.payload :=
  ⟨rfl, h.streamId_valid, h.initialN_valid⟩

theorem IsSendable.continuation (h : f.IsSendable head payload) (piece : Piece) :
    (f.continuation piece).IsSendable .payload piece.payload :=
  ⟨rfl, h.streamId_valid, fun _ hmem => absurd hmem (Option.not_mem_none _)⟩

theorem IsSendable.exists_fixedFields (h : f.IsSendable head payload) :
    ∃ fields, f.body.fixedFields = .ok fields := by
  rw [h.body_eq]
  cases head with
  | requestStream initialN =>
    obtain ⟨count, hcount⟩ := h.initialN_valid initialN rfl
    exact ⟨_, by rw [Body.fixedFields, requestNField, numberField, hcount]⟩
  | requestChannel initialN =>
    obtain ⟨count, hcount⟩ := h.initialN_valid initialN rfl
    exact ⟨_, by rw [Body.fixedFields, requestNField, numberField, hcount]⟩
  | _ => exact ⟨[], rfl⟩

/-- A message goes on any stream but the connection itself. -/
theorem scope_allows_iff (head : Head) (streamId : Number) :
    head.kind.traits.scope.allows streamId = true ↔ streamId.key ≠ .ofNat 0 := by
  have hstream : head.kind.traits.scope = .stream := by cases head <;> rfl
  rw [hstream, Scope.allows, Bool.not_eq_true', ← Bool.not_eq_true, Number.isZero_iff]

theorem IsSendable.scope_allows (h : f.IsSendable head payload) :
    head.kind.traits.scope.allows f.streamId = true := by
  obtain ⟨id, hid, hne⟩ := h.streamId_valid
  rw [scope_allows_iff, (StreamId.ofNumber?_eq_some_iff.1 hid).1]
  exact fun hsame => hne (Number.ofNat_injective hsame)

/-- A message whose metadata is not too long for its length is
encoded. -/
theorem IsSendable.exists_bytes (h : f.IsSendable head payload)
    (hshort : (f.metadata.getD []).length ≤ Wire.maxMetadataLength) :
    ∃ bytes, f.encode = .ok bytes := by
  have hkind := kind_of_message h.body_eq
  obtain ⟨id, hid, -⟩ := h.streamId_valid
  obtain ⟨fields, hfields⟩ := h.exists_fixedFields
  obtain ⟨flags, hflags⟩ := exists_wireFlags hkind
  have hparts : f.parts = .ok ⟨⟨id, head.kind, flags⟩, fields, f.metadata, f.data⟩ :=
    parts_eq_ok_iff.2 ⟨hkind, h.scope_allows, hid, hfields, hshort, hflags, rfl, rfl⟩
  rw [encode_eq, hparts]
  exact ⟨_, rfl⟩

/-- **A message no longer than a frame may be is encoded.** Its metadata is
no longer than the frame, and so not too long for its length. -/
theorem IsSendable.exists_encode (h : f.IsSendable head payload) {size : Nat}
    (hsize : f.size = .ok size) (hle : size ≤ limit.bytes) :
    ∃ bytes, f.encode = .ok bytes ∧ bytes.length ≤ limit.bytes := by
  have hshort : (f.metadata.getD []).length ≤ Wire.maxMetadataLength :=
    ((length_metadata_le hsize).trans hle).trans limit.atMost
  obtain ⟨bytes, hencode⟩ := h.exists_bytes hshort
  have hlength := (size_of_encode hencode).symm.trans hsize
  injection hlength with hlength
  exact ⟨bytes, hencode, hlength ▸ hle⟩

/-- Every frame a message is split into can be sent. -/
theorem IsSendable.encode_split (h : f.IsSendable head payload) {g : Frame}
    (hg : g ∈ f.split head payload limit) :
    ∃ bytes, g.encode = .ok bytes ∧ bytes.length ≤ limit.bytes := by
  obtain ⟨size, hsize, hle⟩ := size_of_mem_split hg
  rw [split_eq] at hg
  rcases List.mem_cons.1 hg with rfl | hlater
  · exact (h.opening _).exists_encode hsize hle
  · obtain ⟨piece, -, rfl⟩ := List.mem_map.1 hlater
    exact (h.continuation piece).exists_encode hsize hle

/-- Frames that can all be encoded are. -/
theorem exists_mapM_encode {P : Bytes → Prop} {frames : List Frame}
    (h : ∀ g ∈ frames, ∃ bytes, g.encode = .ok bytes ∧ P bytes) :
    ∃ chain, frames.mapM encode = .ok chain ∧ ∀ bytes ∈ chain, P bytes := by
  induction frames with
  | nil => exact ⟨[], rfl, fun _ hmem => absurd hmem List.not_mem_nil⟩
  | cons g rest ih =>
    obtain ⟨bytes, hencode, hbytes⟩ := h g List.mem_cons_self
    obtain ⟨chain, hchain, hall⟩ := ih fun other hmem => h other (List.mem_cons_of_mem _ hmem)
    refine ⟨bytes :: chain, ?_, ?_⟩
    · rw [List.mapM_cons, hencode, hchain]
      rfl
    · rw [List.forall_mem_cons]
      exact ⟨hbytes, hall⟩

/-- What is sent for a message: the message where it fits, and otherwise
what it is split into. -/
theorem fragments_of_message (h : f.body = .message head payload) {maximum : Number}
    (hlimit : FragmentLimit.ofNumber maximum = .ok limit) {size : Nat}
    (hsize : f.size = .ok size) :
    f.fragments maximum =
      if size ≤ limit.bytes then f.encode.map fun bytes => [bytes]
      else (f.split head payload limit).mapM encode := by
  rw [fragments, hlimit, hsize, h]
  rfl

/-- **A message is sent in fragments of the size asked for.** -/
theorem IsSendable.exists_fragments (h : f.IsSendable head payload) {maximum : Number}
    (hlimit : FragmentLimit.ofNumber maximum = .ok limit) :
    ∃ chain, f.fragments maximum = .ok chain ∧ ∀ bytes ∈ chain, bytes.length ≤ limit.bytes := by
  have hsize := size_of_message h.body_eq
  rw [fragments_of_message h.body_eq hlimit hsize]
  split
  · rename_i hfits
    obtain ⟨bytes, hencode, hle⟩ := h.exists_encode hsize hfits
    rw [hencode]
    refine ⟨[bytes], rfl, ?_⟩
    rw [List.forall_mem_singleton]
    exact hle
  · exact exists_mapM_encode fun g hg => h.encode_split hg

/-! ## A message with the `follows` bit -/

/-- A frame without the `follows` bit. -/
def cleared (f : Frame) : Frame := { f with flags := .ofWord (f.flags.word &&& ~~~Flag.follows) }

theorem IsSendable.cleared (h : f.IsSendable head payload) : f.cleared.IsSendable head payload :=
  ⟨h.body_eq, h.streamId_valid, h.initialN_valid⟩

theorem getLsbD_cleared (f : Frame) {i : Nat} (hi : i < 32) :
    f.cleared.flags.word.getLsbD i = (f.flags.word.getLsbD i && !decide (i = 7)) := by
  rw [cleared, Number.word_ofWord, BitVec.getLsbD_and, BitVec.getLsbD_not, Flag.follows_eq,
    BitVec.getLsbD_twoPow]
  simp [hi, eq_comm]

theorem follows_cleared (f : Frame) : f.cleared.flags.hasFlag Flag.follows = false := by
  rw [Number.hasFlag_follows, f.getLsbD_cleared (by decide)]
  exact Bool.and_false _

theorem complete_cleared (f : Frame) :
    f.cleared.flags.hasFlag Flag.complete = f.flags.hasFlag Flag.complete := by
  rw [Number.hasFlag_complete, Number.hasFlag_complete, f.getLsbD_cleared (by decide)]
  exact Bool.and_true _

/-- The bit is not sent with the flags. -/
theorem wireFlags_cleared {flags : BitVec 10} (h : f.wireFlags = .ok flags) :
    f.cleared.wireFlags = .ok (flags &&& ~~~Flag.follows.setWidth 10) := by
  obtain ⟨kind, hkind, -⟩ := bind_eq_ok_iff.1 h
  have hcleared : f.cleared.kind = .ok kind := hkind
  obtain ⟨flags', hflags'⟩ := exists_wireFlags hcleared
  rw [hflags']
  congr 1
  apply BitVec.eq_of_getLsbD_eq
  intro i hi
  rw [BitVec.getLsbD_and, Flag.getLsbD_not_follows hi, getLsbD_wireFlags hkind h,
    getLsbD_wireFlags hcleared hflags', Number.wireFlags, Number.wireFlags]
  split
  · rename_i hmetadata
    rw [hmetadata.1]
    exact (Bool.and_true _).symm
  · rw [BitVec.getLsbD_setWidth, BitVec.getLsbD_setWidth, f.getLsbD_cleared (by omega)]
    exact (Bool.and_assoc _ _ _).symm

/-- **Splitting takes the bit off.** A message that has it and is split is
split like one without. -/
theorem split_cleared (f : Frame) (head : Head) (payload : Payload) (limit : FragmentLimit) :
    f.cleared.split head payload limit = f.split head payload limit := by
  have hkept : f.cleared.flags.word &&& ~~~(Flag.follows ||| Flag.complete) =
      f.flags.word &&& ~~~(Flag.follows ||| Flag.complete) := by
    rw [cleared, Number.word_ofWord]
    apply BitVec.eq_of_getLsbD_eq
    intro i hi
    simp only [BitVec.getLsbD_and, BitVec.getLsbD_not, BitVec.getLsbD_or, hi, decide_true,
      Bool.true_and, Bool.not_or, Bool.and_assoc, Bool.and_self_left]
  rw [split, split, complete_cleared, hkept]
  rfl

theorem fragments_cleared (h : f.body = .message head payload) {maximum : Number}
    (hlimit : FragmentLimit.ofNumber maximum = .ok limit) {size : Nat}
    (hsize : f.size = .ok size) (hlong : limit.bytes < size) :
    f.cleared.fragments maximum = f.fragments maximum := by
  have hcleared : f.cleared.size = .ok size := hsize
  have hbody : f.cleared.body = .message head payload := h
  rw [fragments_of_message h hlimit hsize, fragments_of_message hbody hlimit hcleared,
    split_cleared, if_neg (Nat.not_le.2 hlong), if_neg (Nat.not_le.2 hlong)]

/-! ## Every message is delivered -/

/-- What is read one by one is read. -/
theorem mapM_decode {frames : List Frame} {chain : List Bytes}
    (h : List.Forall₂ IsRead frames chain) : chain.mapM decode = .ok frames := by
  induction h with
  | nil => rfl
  | cons hread _ ih =>
    rw [List.mapM_cons, hread.decode_eq, ih]
    rfl

/-- **Frames that complete a message deliver it** to an assembler with just
their chain open on their stream. -/
theorem transcript_of_completes {message : Frame} {chain? : Option Chain} {frames : List Frame}
    (h : Completes message chain? frames) {a : Assembler} {s : Number}
    (hoptions : a.options = {}) (hchain : a.chain? s = chain?)
    (hstream : ∀ g ∈ frames, g.streamId.key = s.key) :
    (a.transcript (frames.map .push)).map Exchange.reply =
      List.replicate (frames.length - 1) ⟨.pushed (.ok none), []⟩ ++
        [⟨.pushed (.ok (some message)), []⟩] := by
  induction h generalizing a with
  | @last chain? g hturn =>
    have hpush := Assembler.push_follows_default hoptions (hstream g (List.mem_singleton_self g))
    rw [hchain, hturn] at hpush
    rw [List.map_singleton, Assembler.transcript, Assembler.call, hpush.result_eq,
      hpush.notices_eq]
    rfl
  | @more chain? chain g later hturn hlater ih =>
    have hkey := hstream g List.mem_cons_self
    have hpush := Assembler.push_follows_default hoptions hkey
    rw [hchain, hturn] at hpush
    have hafter : (a.push g).assembler.chain? s = some chain := by
      rw [hpush.chain?_eq, if_pos hkey.symm]
    have hrest := ih (hpush.options_eq.trans hoptions) hafter
      fun other hmem => hstream other (List.mem_cons_of_mem _ hmem)
    -- A chain does not end without its last frame.
    obtain ⟨last, rest, rfl⟩ : ∃ last rest, later = last :: rest := by
      cases hlater <;> exact ⟨_, _, rfl⟩
    rw [List.map_cons, Assembler.transcript, Assembler.call, List.map_cons]
    dsimp only
    rw [hrest, hpush.result_eq, hpush.notices_eq]
    rfl

/-- Frames that complete a message deliver it to an assembler that has no
chain open. -/
theorem Deliver.of_completes {message : Frame} {frames : List Frame}
    (h : Completes message none frames) {s : Number} (hstream : ∀ g ∈ frames, g.streamId = s) :
    Deliver frames message := by
  refine transcript_of_completes h (s := s) rfl rfl ?_
  intro g hg
  rw [hstream g hg]

/-- A message without the `follows` bit is delivered by what is sent for
it. -/
theorem IsSendable.exists_deliver (h : f.IsSendable head payload)
    (hfollows : f.flags.hasFlag Flag.follows = false) {flags : BitVec 10}
    (hflags : f.wireFlags = .ok flags) {maximum : Number} {chain : List Bytes}
    (hchain : f.fragments maximum = .ok chain) :
    ∃ frames, chain.mapM decode = .ok frames ∧
      Deliver frames ⟨f.streamId, .ofFlags flags, .message head.normal payload⟩ := by
  obtain ⟨frames, hcompletes, hread, hstream⟩ := fragments_complete hchain fun _ _ _ => hfollows
  refine ⟨frames, mapM_decode hread, ?_⟩
  rw [normal_of_wireFlags hflags, h.key_eq, h.body_eq, Body.normal_message] at hcompletes
  exact .of_completes hcompletes hstream

/-- **Every message is delivered**, whatever size is asked for. A message
that may be sent on its stream is sent in fragments of that size at most,
and they are read. Put together they are the message, with the flags it
is sent with; and where it has the `follows` bit and is split, without
that one. -/
theorem fragments_delivered (h : f.IsSendable head payload) {maximum : Nat}
    (hmin : Wire.minFragmentSize ≤ maximum) (hmax : maximum ≤ Wire.maxFrameLength) :
    ∃ size flags chain frames, f.size = .ok size ∧ f.wireFlags = .ok flags ∧
      f.fragments (.ofNat maximum) = .ok chain ∧ (∀ bytes ∈ chain, bytes.length ≤ maximum) ∧
      chain.mapM decode = .ok frames ∧
      (f.flags.hasFlag Flag.follows = false →
        Deliver frames ⟨f.streamId, .ofFlags flags, .message head.normal payload⟩) ∧
      (f.flags.hasFlag Flag.follows = true → maximum < size →
        Deliver frames ⟨f.streamId, .ofFlags (flags &&& ~~~Flag.follows.setWidth 10),
          .message head.normal payload⟩) := by
  have hlimit : FragmentLimit.ofNumber (.ofNat maximum) = .ok ⟨maximum, hmin, hmax⟩ := by
    rw [FragmentLimit.ofNumber, Number.toNat?_ofNat]
    exact dif_pos ⟨hmin, hmax⟩
  obtain ⟨flags, hflags⟩ := exists_wireFlags (kind_of_message h.body_eq)
  obtain ⟨chain, hchain, hlength⟩ := h.exists_fragments hlimit
  have hsize := size_of_message h.body_eq
  cases hfollows : f.flags.hasFlag Flag.follows with
  | false =>
    obtain ⟨frames, hread, hdeliver⟩ := h.exists_deliver hfollows hflags hchain
    exact ⟨_, flags, chain, frames, hsize, hflags, hchain, hlength, hread, fun _ => hdeliver,
      fun hset => absurd hset Bool.false_ne_true⟩
  | true =>
    -- The message is one that fits, or it is split like one without the bit.
    by_cases hlong : maximum < Wire.headerSize + head.kind.traits.fixedSize +
        metadataSize payload.metadata + payload.data.length
    · have hcleared := (fragments_cleared h.body_eq hlimit hsize hlong).trans hchain
      obtain ⟨frames, hread, hdeliver⟩ :=
        h.cleared.exists_deliver (follows_cleared f) (wireFlags_cleared hflags) hcleared
      exact ⟨_, flags, chain, frames, hsize, hflags, hchain, hlength, hread,
        fun hclear => absurd hclear.symm Bool.false_ne_true, fun _ _ => hdeliver⟩
    · have hwhole := fragments_of_message h.body_eq hlimit hsize
      rw [if_pos (Nat.not_lt.1 hlong), hchain] at hwhole
      obtain ⟨bytes, hencode, hbytes⟩ := map_eq_ok_iff.1 hwhole.symm
      have hread : chain.mapM decode = .ok [f.normal] := by
        rw [← hbytes, List.mapM_cons, decode_of_encode hencode]
        rfl
      exact ⟨_, flags, chain, [f.normal], hsize, hflags, hchain, hlength, hread,
        fun hclear => absurd hclear.symm Bool.false_ne_true, fun _ hlong' => absurd hlong' hlong⟩

/-- A request that is the end of its stream and has the `follows` bit, for
negative zero answers and with empty metadata: it is sent in two
fragments, and delivered without the bit. -/
theorem fragments_delivered_requestStream :
    let request : Frame :=
      ⟨.ofNat 7, .ofWord (Flag.follows ||| Flag.complete),
        .message (.requestStream .negZero) ⟨some [], List.replicate 60 7⟩⟩
    let first : Bytes := [0, 0, 0, 7, 25, 128, 0, 0, 0, 0, 0, 0, 0] ++ List.replicate 51 7
    let last : Bytes := [0, 0, 0, 7, 40, 96] ++ List.replicate 9 7
    ∃ frames, request.fragments (.ofNat 64) = .ok [first, last] ∧
      [first, last].mapM decode = .ok frames ∧
      Deliver frames ⟨.ofNat 7, .ofFlags 0x140,
        .message (.requestStream (.ofNat 0)) ⟨some [], List.replicate 60 7⟩⟩ := by
  intro request first last
  have hsendable : request.IsSendable (.requestStream .negZero) ⟨some [], List.replicate 60 7⟩ := by
    refine ⟨rfl, ⟨7, rfl, by decide⟩, ?_⟩
    rintro _ ⟨⟩
    exact ⟨0, rfl⟩
  have hsent : request.fragments (.ofNat 64) = .ok [first, last] := by decide +kernel
  have hset : request.wireFlags = .ok 0x1C0 := by decide +kernel
  have hfollows : request.flags.hasFlag Flag.follows = true := by decide
  obtain ⟨size, flags, chain, frames, hsize, hflags, hchain, -, hread, -, hdeliver⟩ :=
    @fragments_delivered _ _ _ hsendable 64 (by decide) (by decide)
  cases hsize
  cases hset.symm.trans hflags
  cases hsent.symm.trans hchain
  exact ⟨frames, hsent, hread, hdeliver hfollows (by decide)⟩

end Frame

end StreamWire

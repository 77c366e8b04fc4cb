import StreamWire.Proofs.Message.Delivery
/-!
# Fragment size — what a receiver can tell of it

A message is sent in frames of the size asked for, and a receiver does not
know the size. What it ends up with is a `Receipt`: what came of the last
frame, and the assembler that is left for the calls to come. Of a message
there are two: it came out (`Receipt.whole`), or it is the beginning of a
longer one (`Receipt.begun`).

`Frame.fragmentSize_unseen_iff` says when two sizes lead to receipts that
nobody can tell apart. Without the `follows` bit they always do. A message
with the bit is itself a fragment: sent whole it keeps the bit, and more is
expected; split it loses the bit, and with its last fragment it is
complete. So there it depends on whether either both sizes hold it or
neither does.
-/

namespace StreamWire

/-! ## Receipts -/

/-- What came of the last frame that an assembler was handed, and the
assembler that is left. -/
structure Receipt where
  result : Except Fault (Option Frame)
  assembler : Assembler

namespace Receipt

/-- After one more encoded frame. -/
def next (r : Receipt) (bytes : Bytes) : Receipt where
  result := (r.assembler.pushEncoded bytes).result
  assembler := (r.assembler.pushEncoded bytes).assembler

/-- What a new assembler, run by default, makes of encoded frames. -/
def of (fragments : List Bytes) : Receipt := fragments.foldl next ⟨.ok none, {}⟩

/-- Receipts that cannot be told apart: the same came of the last frame,
chains are open on the same streams, and whatever calls are made from then
on, the same comes back. -/
structure Agree (r r' : Receipt) : Prop where
  result_eq : r.result = r'.result
  pending_eq : r.assembler.pending = r'.assembler.pending
  transcript_eq : ∀ later : List Call, r.assembler.transcript later = r'.assembler.transcript later

theorem Agree.refl (r : Receipt) : r.Agree r := ⟨rfl, rfl, fun _ => rfl⟩

/-- A message has come out, and nothing is left of it. -/
def whole (message : Frame) : Receipt := ⟨.ok (some message), {}⟩

/-- A chain has been begun, and nothing has come out. -/
def begun (chain : Chain) : Receipt := ⟨.ok none, { chains := [chain] }⟩

/-- Whether anything has come out can be told. -/
theorem agree_ite_iff {chain : Chain} {message : Frame} {p q : Prop} [Decidable p] [Decidable q] :
    Agree (if p then begun chain else whole message) (if q then begun chain else whole message) ↔
      (p ↔ q) := by
  constructor
  · intro h
    have hresult := h.result_eq
    by_cases hp : p <;> by_cases hq : q
    · exact iff_of_true hp hq
    · rw [if_pos hp, if_neg hq] at hresult
      cases hresult
    · rw [if_neg hp, if_pos hq] at hresult
      cases hresult
    · exact iff_of_false hp hq
  · intro h
    simp only [h]
    exact .refl _

end Receipt

/-! ## One chain at most -/

namespace Assembler

/-- An assembler that is run by default and has this chain open, or
none. -/
def only (chain? : Option Chain) : Assembler := { chains := chain?.toList }

variable {chain? left? : Option Chain} {s : Number} {f : Frame}

theorem chain?_only (h : ∀ chain ∈ chain?, chain.key = s.key) :
    (only chain?).chain? s = chain? := by
  rcases chain? with _ | chain
  · rfl
  · have hkey : (chain.key == s.key) = true := beq_iff_eq.2 (h chain rfl)
    rw [Assembler.chain?, only, Option.toList_some, List.find?_cons, hkey]

/-- The chain of the one stream is all there is to settle. -/
theorem settle_only (h : ∀ chain ∈ chain?, chain.key = s.key)
    (hleft : ∀ chain ∈ left?, chain.key = s.key) :
    (only chain?).settle s left? = only left? := by
  rcases left? with _ | left
  · rcases chain? with _ | chain
    · rfl
    · have hsame : (chain.key != s.key) = false := by simpa using h chain rfl
      rw [settle, drop, only, Option.toList_some, List.filter_cons, hsame]
      rfl
  · rcases chain? with _ | chain
    · rfl
    · -- The chain that was open makes room for the one that is left.
      have hkey : chain.key = left.key := (h chain rfl).trans (hleft left rfl).symm
      have hopen : ((only (some chain)).chain? left.streamId).isSome = true := by
        rw [chain?_only fun other hmem => (h other hmem).trans (hleft left rfl).symm]
        rfl
      rw [settle, put, if_pos hopen, only, Option.toList_some, List.map_singleton,
        if_pos (beq_iff_eq.2 hkey)]
      rfl

/-- A push is the turn of the one stream, and leaves its chain or none. -/
theorem push_only (h : ∀ chain ∈ chain?, chain.key = f.streamId.key) :
    ((only chain?).push f).result = (Chain.turn {} none chain? f).result ∧
      ((only chain?).push f).assembler = only (Chain.turn {} none chain? f).chain? ∧
      ∀ chain ∈ (Chain.turn {} none chain? f).chain?, chain.key = f.streamId.key := by
  have hpush := (only chain?).push_settles f
  rw [obstacle?_of_allowInterleaving rfl, chain?_only h] at hpush
  refine ⟨hpush.result_eq, ?_, hpush.key_eq⟩
  rw [hpush.assembler_eq]
  exact settle_only h hpush.key_eq

end Assembler

/-! ## Frames that are handed over -/

namespace Receipt

variable {chain? : Option Chain} {message f : Frame} {bytes : Bytes}

/-- A frame that is read takes its turn. -/
theorem next_of_read (hread : Frame.IsRead f bytes)
    (h : ∀ chain ∈ chain?, chain.key = f.streamId.key) (result : Except Fault (Option Frame)) :
    next ⟨result, .only chain?⟩ bytes =
      ⟨(Chain.turn {} none chain? f).result, .only (Chain.turn {} none chain? f).chain?⟩ := by
  have hpush : (Assembler.only chain?).pushEncoded bytes = (Assembler.only chain?).push f := by
    rw [Assembler.pushEncoded, hread.decode_eq]
  obtain ⟨hresult, hassembler, -⟩ := Assembler.push_only h
  rw [next, hpush, hresult, hassembler]

/-- **Frames that complete a message bring it out** and leave nothing
open. -/
theorem foldl_next_of_completes {frames : List Frame} {fragments : List Bytes} {s : Number}
    (h : Completes message chain? frames) (hread : List.Forall₂ Frame.IsRead frames fragments)
    (hkey : ∀ chain ∈ chain?, chain.key = s.key) (hstream : ∀ g ∈ frames, g.streamId.key = s.key)
    (result : Except Fault (Option Frame)) :
    fragments.foldl next ⟨result, .only chain?⟩ = whole message := by
  induction h generalizing fragments result with
  | @last chain? g hturn =>
    rcases hread with _ | ⟨hg, _ | _⟩
    have hsame := hstream g (List.mem_singleton_self g)
    rw [List.foldl_cons, List.foldl_nil, next_of_read hg (hsame ▸ hkey), hturn]
    rfl
  | @more chain? chain g later hturn hlater ih =>
    rcases hread with _ | ⟨hg, hrest⟩
    have hsame := hstream g List.mem_cons_self
    have hleft := (Assembler.push_only (f := g) (hsame ▸ hkey)).2.2
    rw [hturn] at hleft
    rw [List.foldl_cons, next_of_read hg (hsame ▸ hkey), hturn]
    exact ih hrest (hsame ▸ hleft) (fun other hmem => hstream other (List.mem_cons_of_mem _ hmem)) _

end Receipt

namespace Frame

variable {f : Frame} {head : Head} {payload : Payload} {limit : FragmentLimit} {flags : BitVec 10}
  {maximum : Number} {chain : List Bytes}

/-! ## The two receipts of a message -/

/-- The message that comes out: as it is sent, without the `follows`
bit. -/
def completed (f : Frame) (flags : BitVec 10) (head : Head) (payload : Payload) : Frame :=
  ⟨f.streamId, .ofFlags (flags &&& ~~~Flag.follows.setWidth 10), .message head.normal payload⟩

/-- Flags without the bit are not changed by taking it off. -/
theorem clear_follows_of_wireFlags (hflags : f.wireFlags = .ok flags)
    (hfollows : f.flags.hasFlag Flag.follows = false) :
    flags &&& ~~~Flag.follows.setWidth 10 = flags := by
  obtain ⟨kind, hkind, -⟩ := bind_eq_ok_iff.1 hflags
  apply BitVec.eq_of_getLsbD_eq
  intro i hi
  rw [BitVec.getLsbD_and, Flag.getLsbD_not_follows hi]
  by_cases h7 : i = 7
  · subst h7
    rw [Number.hasFlag_follows] at hfollows
    rw [getLsbD_wireFlags hkind hflags, if_neg (fun h => absurd h.1 (by decide)), Number.wireFlags,
      BitVec.getLsbD_setWidth, hfollows]
    rfl
  · rw [decide_eq_false h7, Bool.not_false, Bool.and_true]

theorem IsSendable.normal_eq (h : f.IsSendable head payload) (hflags : f.wireFlags = .ok flags) :
    f.normal = ⟨f.streamId, .ofFlags flags, .message head.normal payload⟩ := by
  rw [normal_of_wireFlags hflags, h.key_eq, h.body_eq, Body.normal_message]

/-- A message without the bit is received whole, sent whole or split. -/
theorem IsSendable.receipt_of_clear (h : f.IsSendable head payload)
    (hflags : f.wireFlags = .ok flags) (hfollows : f.flags.hasFlag Flag.follows = false)
    (hchain : f.fragments maximum = .ok chain) :
    Receipt.of chain = .whole ⟨f.streamId, .ofFlags flags, .message head.normal payload⟩ := by
  obtain ⟨frames, hcompletes, hread, hstream⟩ := fragments_complete hchain fun _ _ _ => hfollows
  rw [h.normal_eq hflags] at hcompletes
  refine Receipt.foldl_next_of_completes hcompletes hread
    (fun _ hmem => absurd hmem (Option.not_mem_none _)) (s := f.streamId) ?_ _
  intro g hg
  rw [hstream g hg, Number.key_key]

/-- And so is a message with the bit that is split. -/
theorem IsSendable.receipt_of_split (h : f.IsSendable head payload)
    (hflags : f.wireFlags = .ok flags) (hlimit : FragmentLimit.ofNumber maximum = .ok limit)
    {size : Nat} (hsize : f.size = .ok size) (hlong : limit.bytes < size)
    (hchain : f.fragments maximum = .ok chain) :
    Receipt.of chain = .whole (f.completed flags head payload) := by
  have hcleared := (fragments_cleared h.body_eq hlimit hsize hlong).trans hchain
  exact h.cleared.receipt_of_clear (wireFlags_cleared hflags) (follows_cleared f) hcleared

/-- The chain that a message with the bit begins where it is sent
whole. -/
def beginning (f : Frame) (flags : BitVec 10) (head : Head) (payload : Payload) : Chain :=
  Chain.append ⟨f.streamId, .ofFlags flags, head.normal, [], 0⟩ payload

theorem IsSendable.receipt_of_fits (h : f.IsSendable head payload)
    (hflags : f.wireFlags = .ok flags) (hfollows : f.flags.hasFlag Flag.follows = true)
    (hlimit : FragmentLimit.ofNumber maximum = .ok limit) {size : Nat} (hsize : f.size = .ok size)
    (hfits : size ≤ limit.bytes) (hchain : f.fragments maximum = .ok chain) :
    Receipt.of chain = .begun (f.beginning flags head payload) := by
  rw [fragments_of_message h.body_eq hlimit hsize, if_pos hfits] at hchain
  obtain ⟨bytes, hencode, rfl⟩ := map_eq_ok_iff.1 hchain
  have hread := isRead_of_encode hencode hsize (hfits.trans limit.atMost)
  have hnormal := h.normal_eq hflags
  have hset : f.normal.flags.hasFlag Flag.follows = true := by
    rw [Number.hasFlag_follows, getLsbD_normal h.body_eq (by decide) (by decide),
      ← Number.hasFlag_follows, hfollows]
  have hturn := Chain.turn_start (by rw [hnormal]) hset
  rw [hnormal] at hturn hread
  have hnext := @Receipt.next_of_read none _ _ hread
    (fun _ hmem => absurd hmem (Option.not_mem_none _)) (.ok none)
  rw [hturn] at hnext
  exact hnext

/-- **A message has one of two receipts**, and the size asked for decides
between them only where the message has the `follows` bit. -/
theorem IsSendable.exists_receipt (h : f.IsSendable head payload) (hflags : f.wireFlags = .ok flags)
    {size : Nat} (hsize : f.size = .ok size) {n : Nat} (hmin : Wire.minFragmentSize ≤ n)
    (hmax : n ≤ Wire.maxFrameLength) :
    ∃ chain, f.fragments (.ofNat n) = .ok chain ∧
      Receipt.of chain =
        if f.flags.hasFlag Flag.follows = true ∧ size ≤ n then
          .begun (f.beginning flags head payload)
        else .whole (f.completed flags head payload) := by
  have hlimit : FragmentLimit.ofNumber (.ofNat n) = .ok ⟨n, hmin, hmax⟩ :=
    FragmentLimit.ofNumber_eq_ok_iff.2 (Number.key_ofNat n)
  obtain ⟨chain, hchain, -⟩ := h.exists_fragments hlimit
  refine ⟨chain, hchain, ?_⟩
  rcases hfollows : f.flags.hasFlag Flag.follows with _ | _
  · have hreceipt := h.receipt_of_clear hflags hfollows hchain
    rw [if_neg (fun hboth => absurd hboth.1 Bool.false_ne_true), hreceipt, completed,
      clear_follows_of_wireFlags hflags hfollows]
  · rcases Nat.lt_or_ge n size with hlong | hfits
    · rw [if_neg (fun hboth => absurd hlong (Nat.not_lt.2 hboth.2))]
      exact h.receipt_of_split hflags hlimit hsize hlong hchain
    · rw [if_pos ⟨rfl, hfits⟩]
      exact h.receipt_of_fits hflags hfollows hlimit hsize hfits hchain

/-- **The size asked for is unseen but where it decides whether a fragment
is split.** A message that may be sent on its stream is sent and read
whatever the size. Where it has no `follows` bit, the receipt is the
message, and nobody can tell which of two sizes was asked for. Where it has
the bit, the message is the beginning of a longer one if it is sent whole,
and complete, without the bit, if it is split; so nobody can tell exactly
if both sizes hold it or neither does. -/
theorem fragmentSize_unseen_iff (h : f.IsSendable head payload) {m n : Nat}
    (hm : Wire.minFragmentSize ≤ m ∧ m ≤ Wire.maxFrameLength)
    (hn : Wire.minFragmentSize ≤ n ∧ n ≤ Wire.maxFrameLength) :
    ∃ size flags first second, f.size = .ok size ∧ f.wireFlags = .ok flags ∧
      f.fragments (.ofNat m) = .ok first ∧ f.fragments (.ofNat n) = .ok second ∧
      (Receipt.of first =
        if f.flags.hasFlag Flag.follows = true ∧ size ≤ m then
          .begun (f.beginning flags head payload)
        else .whole (f.completed flags head payload)) ∧
      ((Receipt.of first).Agree (Receipt.of second) ↔
        (f.flags.hasFlag Flag.follows = true → (size ≤ m ↔ size ≤ n))) := by
  obtain ⟨flags, hflags⟩ := exists_wireFlags (kind_of_message h.body_eq)
  have hsize := size_of_message h.body_eq
  obtain ⟨first, hfirst, hreceipt⟩ := h.exists_receipt hflags hsize hm.1 hm.2
  obtain ⟨second, hsecond, hreceipt'⟩ := h.exists_receipt hflags hsize hn.1 hn.2
  refine ⟨_, flags, first, second, hsize, hflags, hfirst, hsecond, hreceipt, ?_⟩
  rw [hreceipt, hreceipt', Receipt.agree_ite_iff, and_congr_right_iff]

/-- A request with the bit, too long for both sizes: nobody can tell which
of them was asked for. -/
theorem fragmentSize_unseen_requestResponse :
    let request : Frame :=
      ⟨.ofNat 7, .ofWord Flag.follows, .message .requestResponse ⟨some [1], List.replicate 100 7⟩⟩
    ∃ first second, request.fragments (.ofNat 64) = .ok first ∧
      request.fragments (.ofNat 100) = .ok second ∧ first.length = 2 ∧ second.length = 2 ∧
      (Receipt.of first).Agree (Receipt.of second) := by
  intro request
  have hsendable : request.IsSendable .requestResponse ⟨some [1], List.replicate 100 7⟩ :=
    ⟨rfl, ⟨7, rfl, by decide⟩, fun _ hmem => absurd hmem (Option.not_mem_none _)⟩
  obtain ⟨size, flags, first, second, hsize, -, hfirst, hsecond, -, hagree⟩ :=
    @fragmentSize_unseen_iff _ _ _ hsendable 64 100 (by decide) (by decide)
  have hcount : (request.fragments (.ofNat 64)).map List.length = .ok 2 ∧
      (request.fragments (.ofNat 100)).map List.length = .ok 2 := by decide +kernel
  rw [hfirst, hsecond] at hcount
  cases hsize
  exact ⟨first, second, hfirst, hsecond, Except.ok.inj hcount.1, Except.ok.inj hcount.2,
    hagree.2 fun _ => by decide⟩

/-- A payload with the bit, one byte too long for the lesser of two sizes:
split it is complete, and whole it is the beginning of a longer message. -/
theorem fragmentSize_seen_payload :
    let fragment : Frame :=
      ⟨.ofNat 1, .ofWord Flag.follows, .message .payload ⟨none, List.replicate 59 7⟩⟩
    let split : List Bytes :=
      [[0, 0, 0, 1, 0x28, 0x80] ++ List.replicate 58 7, [0, 0, 0, 1, 0x28, 0x20, 7]]
    let whole : List Bytes := [[0, 0, 0, 1, 0x28, 0x80] ++ List.replicate 59 7]
    fragment.IsSendable .payload ⟨none, List.replicate 59 7⟩ ∧
      fragment.fragments (.ofNat 64) = .ok split ∧ fragment.fragments (.ofNat 65) = .ok whole ∧
      (Receipt.of split).result =
        .ok (some ⟨.ofNat 1, .ofNat 0, .message .payload ⟨none, List.replicate 59 7⟩⟩) ∧
      (Receipt.of split).assembler.pending = [] ∧
      (Receipt.of whole).result = .ok none ∧
      (Receipt.of whole).assembler.pending = [.ofNat 1] ∧
      ¬ (Receipt.of split).Agree (Receipt.of whole) := by
  intro fragment split whole
  have hsplit : (Receipt.of split).assembler.pending = [] := by decide +kernel
  have hwhole : (Receipt.of whole).assembler.pending = [.ofNat 1] := by decide +kernel
  refine ⟨⟨rfl, ⟨1, rfl, by decide⟩, fun _ hmem => absurd hmem (Option.not_mem_none _)⟩,
    by decide +kernel, by decide +kernel, by decide +kernel, hsplit, by decide +kernel, hwhole, ?_⟩
  intro hagree
  have hpending := hagree.pending_eq
  rw [hsplit, hwhole] at hpending
  cases hpending

end Frame

end StreamWire

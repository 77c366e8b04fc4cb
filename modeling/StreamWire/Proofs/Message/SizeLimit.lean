import Mathlib.Algebra.Order.Ring.Nat
import StreamWire.Proofs.Message.ChainTable
import StreamWire.Proofs.Message.Gathering
import StreamWire.Proofs.Message.SingleChain
/-!
# The size limit — no message larger than an assembler admits

An assembler may be given a maximum for the bytes of metadata and data of
a message. It counts the bytes of a chain as they arrive, and the count is
exact: it is the total of what the chain holds, however the chain has come
about. A frame is added to a chain only where the total with it is within
the maximum (`Chain.isAtLeast_of_turn`), so no chain and no message ever
exceeds it, and it is refused for its size in no other case
(`Assembler.push_messageTooLarge_iff`). The theorem about all of this is
`Assembler.size_limit_exact`.

The maximum is any value, so being within it is said of values:
`Number.IsAtLeast`. Of NaN nothing is said; a comparison with it fails
either way.
-/

namespace StreamWire

/-! ## What a maximum admits -/

namespace Number

/-- A value is at least a natural number. NaN is at least nothing. -/
def IsAtLeast (x : Number) (n : Nat) : Prop :=
  match x with
  | .nan => False
  | .infinite negative => negative = false
  | .negZero => n = 0
  | .whole i => n ≤ i
  | .fraction numerator places _ => (n <<< (places + 1) : Nat) ≤ numerator

/-- **Any value but NaN lies below a number or is at least that number.** -/
theorem isBelow_iff_not_isAtLeast {x : Number} (h : x ≠ .nan) {n : Nat} :
    x.isBelow n = true ↔ ¬ x.IsAtLeast n := by
  cases x with
  | nan => exact absurd rfl h
  | infinite negative => simp [isBelow, IsAtLeast]
  | _ =>
    simp only [isBelow, IsAtLeast, decide_eq_true_eq]
    omega

end Number

namespace Payload

/-- The bytes of metadata and data of several payloads. -/
def total (pieces : List Payload) : Nat := (pieces.map size).sum

/-- Payloads put together have the bytes they have one by one. -/
theorem size_concat (pieces : List Payload) : (concat pieces).size = total pieces := by
  induction pieces with
  | nil => rfl
  | cons piece rest ih =>
    have happend := concat_append [piece] rest
    rw [List.singleton_append, concat_singleton] at happend
    rw [happend, size_join, ih, total, total, List.map_cons, List.sum_cons]

end Payload

namespace Chain

variable {options : AssemblerOptions} {obstacle? chain? : Option Chain} {chain left : Chain}
  {f message : Frame} {fault : Fault}

theorem Holds.size_eq_total {first : Frame} {more : List Frame} (h : chain.Holds first more) :
    chain.size = Payload.total chain.pieces :=
  h.size_eq.trans (Payload.size_concat _)

/-! ## Turns -/

/-- **A chain that a turn leaves is within the maximum.** The frame was
added to it last, and not without a look at the total. -/
theorem isAtLeast_of_turn (hlimit : options.maxMessageSize ≠ .nan)
    (h : (turn options obstacle? chain? f).chain? = some left) :
    options.maxMessageSize.IsAtLeast left.size := by
  by_contra hexceeds
  rw [← Number.isBelow_iff_not_isAtLeast hlimit] at hexceeds
  rcases chain? with _ | chain
  · obtain ⟨hmessage, hfollows, -⟩ := idleTurn_eq_some h
    obtain ⟨head, hbody⟩ := Frame.isFragmentable_eq_true_iff.1 hmessage
    obtain rfl := obstacle?_of_idleTurn_eq_some h
    rw [turn, idleTurn_start hbody hfollows] at h
    dsimp only at h
    split at h
    · cases h
    · rename_i hfits
      obtain rfl := Option.some.inj h
      exact hfits hexceeds
  · obtain ⟨hpayload, hfollows, -⟩ := openTurn_eq_some h
    rw [turn, openTurn_payload (Frame.kind_eq_payload_iff.1 hpayload), if_pos hfollows] at h
    split at h
    · cases h
    · rename_i hfits
      obtain rfl := Option.some.inj h
      exact hfits hexceeds

/-- **And so is the message of a chain that a turn has completed.** -/
theorem isAtLeast_of_openTurn (hlimit : options.maxMessageSize ≠ .nan)
    (hsize : chain.size = Payload.total chain.pieces) (hpayload : f.kind = .ok .payload)
    (h : (openTurn options chain f).result = .ok (some message)) :
    options.maxMessageSize.IsAtLeast message.payload.size := by
  rw [openTurn_payload (Frame.kind_eq_payload_iff.1 hpayload)] at h
  split at h
  · cases h
  · rename_i hfits
    split at h
    · cases h
    · obtain rfl := Option.some.inj (Except.ok.inj h)
      have hgrown : (chain.append f.payload).size =
          (Payload.concat (chain.append f.payload).pieces).size :=
        size_append (hsize.trans (Payload.size_concat _).symm) f.payload
      by_contra hexceeds
      rw [← Number.isBelow_iff_not_isAtLeast hlimit] at hexceeds
      exact hfits (hgrown ▸ hexceeds)

/-- **A frame is refused for its size** exactly where it would be added to
a chain, as the first or as a continuation, and the total with it is above
the maximum. -/
theorem turn_eq_messageTooLarge_iff :
    ((turn options obstacle? chain? f).result = .error fault ∧
        fault.category = .messageTooLarge) ↔
      ∃ held, options.maxMessageSize.isBelow (held + f.payload.size) = true ∧
        fault = .messageTooLarge f.streamId (held + f.payload.size) options.maxMessageSize ∧
        match chain? with
        | none => f.isFragmentable = .ok true ∧ f.flags.hasFlag Flag.follows = true ∧
            obstacle? = none ∧ held = 0
        | some chain => f.kind = .ok .payload ∧ held = chain.size := by
  rcases chain? with _ | chain
  · constructor
    · rintro ⟨hresult, hcategory⟩
      by_cases hstarts : f.isFragmentable = .ok true ∧ f.flags.hasFlag Flag.follows = true
      · obtain ⟨head, hbody⟩ := Frame.isFragmentable_eq_true_iff.1 hstarts.1
        rw [turn, idleTurn_start hbody hstarts.2] at hresult
        rcases obstacle? with _ | other
        · dsimp only at hresult
          split at hresult
          · rename_i hlarge
            obtain rfl := Except.error.inj hresult
            exact ⟨0, hlarge, rfl, hstarts.1, hstarts.2, rfl, rfl⟩
          · cases hresult
        · obtain rfl := Except.error.inj hresult
          cases hcategory
      · rw [turn, idleTurn_other hstarts] at hresult
        rcases hkind : f.kind with other | kind
        · rw [hkind] at hresult
          obtain rfl := Except.error.inj hresult
          rw [Frame.category_of_kind_error hkind] at hcategory
          cases hcategory
        · rw [hkind] at hresult
          cases hresult
    · rintro ⟨held, hlarge, rfl, hmessage, hfollows, rfl, rfl⟩
      obtain ⟨head, hbody⟩ := Frame.isFragmentable_eq_true_iff.1 hmessage
      rw [turn, idleTurn_start hbody hfollows]
      exact ⟨congrArg Turn.result (if_pos hlarge), rfl⟩
  · rw [turn, openTurn_eq_error_iff]
    constructor
    · rintro ⟨hbreaks, hcategory⟩
      cases hbreaks with
      | size hpayload hlarge => exact ⟨chain.size, hlarge, rfl, hpayload, rfl⟩
      | _ => cases hcategory
    · rintro ⟨held, hlarge, rfl, hpayload, rfl⟩
      exact ⟨.size hpayload hlarge, rfl⟩

/-- A notice of a turn is that the open chain was dropped. -/
theorem of_mem_notices_turn {notice : Notice}
    (h : notice ∈ (turn options obstacle? chain? f).notices) :
    ∃ chain, chain? = some chain ∧ notice = .discarded f.streamId chain.size := by
  rcases chain? with _ | chain
  · by_cases hstarts : f.isFragmentable = .ok true ∧ f.flags.hasFlag Flag.follows = true
    · obtain ⟨head, hbody⟩ := Frame.isFragmentable_eq_true_iff.1 hstarts.1
      rw [turn, idleTurn_start hbody hstarts.2] at h
      rcases obstacle? with _ | other
      · dsimp only at h
        split at h <;> cases h
      · cases h
    · rw [turn, idleTurn_other hstarts] at h
      cases h
  · refine ⟨chain, rfl, ?_⟩
    by_cases hpayload : f.kind = .ok .payload
    · rw [turn, openTurn_payload (Frame.kind_eq_payload_iff.1 hpayload)] at h
      split at h
      · cases h
      · split at h <;> cases h
    · rw [turn, openTurn_other hpayload] at h
      split at h
      · exact List.mem_singleton.1 h
      · exact List.mem_singleton.1 h
      · cases h
      · cases h

end Chain

namespace Assembler

variable {a : Assembler} {s : Number} {chain : Chain} {c : Call} {f : Frame} {fault : Fault}

/-! ## Every chain is within the maximum -/

/-- Every open chain is within the maximum. -/
def IsWithin (a : Assembler) : Prop :=
  ∀ s chain, a.chain? s = some chain → a.options.maxMessageSize.IsAtLeast chain.size

/-- **A call keeps all chains within the maximum.** -/
theorem IsWithin.call (h : a.IsWithin) (hlimit : a.options.maxMessageSize ≠ .nan) (c : Call) :
    (a.call c).1.IsWithin := by
  intro s chain hchain
  rw [options_call]
  by_cases hconcerns : c.concerns s = true
  · rw [chain?_call hconcerns] at hchain
    rcases c with f | streamId | -
    · exact Chain.isAtLeast_of_turn hlimit hchain
    · cases hchain
    · cases hchain
  · rw [chain?_call_of_not_concerns hconcerns] at hchain
    exact h s chain hchain

/-- And so does any history. -/
theorem IsWithin.after (h : a.IsWithin) (hlimit : a.options.maxMessageSize ≠ .nan)
    (history : List Call) : (a.after history).IsWithin := by
  induction history generalizing a with
  | nil => exact h
  | cons c later ih => exact ih (h.call hlimit c) (by rwa [options_call])

/-! ## What is refused, and what is reported -/

/-- A frame would be added to a chain that holds so many bytes. -/
inductive Joins (a : Assembler) (f : Frame) : Nat → Prop
  /-- It is the first of a chain, and no other chain keeps it from being
  started. -/
  | start :
      f.isFragmentable = .ok true → f.flags.hasFlag Flag.follows = true →
      f.streamId.key ∉ a.pending → (a.options.allowInterleaving = true ∨ a.pending = []) →
      Joins a f 0
  /-- It continues the chain that is open on its stream. -/
  | more {chain : Chain} :
      a.chain? f.streamId = some chain → f.kind = .ok .payload →
      Joins a f (Payload.total chain.pieces)

/-- On a stream without a chain there is an obstacle where chains may not
be open side by side and another is. -/
theorem obstacle?_eq_none_iff (hidle : s.key ∉ a.pending) :
    a.obstacle? s = none ↔ a.options.allowInterleaving = true ∨ a.pending = [] := by
  rcases hallow : a.options.allowInterleaving with _ | _
  · rw [← Option.map_eq_none_iff (f := Chain.key), map_key_obstacle? hallow, List.find?_eq_none,
      List.eq_nil_iff_forall_not_mem]
    simp only [Bool.false_eq_true, false_or]
    refine forall_congr' fun key => ⟨fun h hmem => ?_, fun h hmem => absurd hmem h⟩
    have hsame : key = s.key := by simpa using h hmem
    exact hidle (hsame ▸ hmem)
  · simp [obstacle?_of_allowInterleaving hallow]

/-- **A push is refused for its size exactly where the frame would be
added to a chain**, and the total with it is above the maximum. -/
theorem push_messageTooLarge_iff
    (hsize : ∀ s chain, a.chain? s = some chain → chain.size = Payload.total chain.pieces) :
    ((a.push f).result = .error fault ∧ fault.category = .messageTooLarge) ↔
      ∃ held, a.Joins f held ∧ a.options.maxMessageSize.isBelow (held + f.payload.size) = true ∧
        fault =
          .messageTooLarge f.streamId (held + f.payload.size) a.options.maxMessageSize := by
  rw [(a.push_follows f).result_eq, Chain.turn_eq_messageTooLarge_iff]
  refine exists_congr fun held => ?_
  rcases hchain : a.chain? f.streamId with _ | chain
  · have hidle := chain?_eq_none_iff.1 hchain
    constructor
    · rintro ⟨hlarge, hfault, hmessage, hfollows, hobstacle, rfl⟩
      exact ⟨.start hmessage hfollows hidle ((obstacle?_eq_none_iff hidle).1 hobstacle), hlarge,
        hfault⟩
    · rintro ⟨hjoins, hlarge, hfault⟩
      cases hjoins with
      | start hmessage hfollows _ hfree =>
        exact ⟨hlarge, hfault, hmessage, hfollows, (obstacle?_eq_none_iff hidle).2 hfree, rfl⟩
      | more hopen _ => exact absurd (hopen.symm.trans hchain) (Option.some_ne_none _)
  · constructor
    · rintro ⟨hlarge, hfault, hpayload, rfl⟩
      have hjoins : a.Joins f (Payload.total chain.pieces) := .more hchain hpayload
      rw [← hsize _ _ hchain] at hjoins
      exact ⟨hjoins, hlarge, hfault⟩
    · rintro ⟨hjoins, hlarge, hfault⟩
      cases hjoins with
      | start _ _ hidle _ => exact absurd hchain (by simp [chain?_eq_none_iff.2 hidle])
      | more hopen hpayload =>
        obtain rfl := Option.some.inj (hopen.symm.trans hchain)
        exact ⟨hlarge, hfault, hpayload, (hsize _ _ hchain).symm⟩

/-- **A notice that a chain was dropped tells the bytes that it held.** -/
theorem chain?_of_mem_notices {streamId : Number} {size : Nat}
    (h : .discarded streamId size ∈ (a.call c).2.notices) :
    ∃ chain, a.chain? streamId = some chain ∧ chain.size = size := by
  rcases c with f | other | -
  · replace h : .discarded streamId size ∈ (a.push f).notices := h
    rw [(a.push_follows f).notices_eq] at h
    obtain ⟨chain, hchain, hnotice⟩ := Chain.of_mem_notices_turn h
    obtain ⟨rfl, rfl⟩ := Notice.discarded.inj hnotice
    exact ⟨chain, hchain, rfl⟩
  · replace h : .discarded streamId size ∈ (a.discard other).notices := h
    rw [discard] at h
    rcases hchain : a.chain? other with _ | chain
    · rw [hchain] at h
      cases h
    · rw [hchain] at h
      obtain ⟨rfl, rfl⟩ := Notice.discarded.inj (List.mem_singleton.1 h)
      exact ⟨chain, hchain, rfl⟩
  · cases h

/-- **The size limit holds, and refuses nothing else.** Of an assembler
with any maximum but NaN, whatever calls were made: an open chain holds
the frames that its history gathered, its size is the bytes of metadata
and data they have together, and that is within the maximum; so is the
message that a chain is completed to. A notice that a chain was dropped
tells those bytes. A frame is refused for its size if and only if it would
be added to a chain and the total with it is above the maximum; the
refusal tells the total, the stream has no chain afterwards, and all
others are as they were. A frame that finds no chain and starts none
passes, whatever its size. -/
theorem size_limit_exact (options : AssemblerOptions) (hlimit : options.maxMessageSize ≠ .nan)
    (history : List Call) :
    let a : Assembler := { options }
    let b := a.after history
    let limit := options.maxMessageSize
    (∀ chain ∈ b.chains, (∃ first more, a.Gathers chain.streamId history first more ∧
        chain.pieces = (first :: more).map Frame.payload) ∧
      chain.size = Payload.total chain.pieces ∧ limit.IsAtLeast chain.size) ∧
    (∀ f message, f.streamId.key ∈ b.pending → f.kind = .ok .payload →
      (b.push f).result = .ok (some message) → limit.IsAtLeast message.payload.size) ∧
    (∀ c streamId size, .discarded streamId size ∈ (b.call c).2.notices →
      (∃ chain, b.chain? streamId = some chain ∧ size = Payload.total chain.pieces) ∧
      (Notice.discarded streamId size).line =
        s!"[fragments] discarded chain on stream {streamId.decimal} ({size} bytes buffered)") ∧
    (∀ f fault,
      ((b.push f).result = .error fault ∧ fault.category = .messageTooLarge) ↔
        ∃ held, b.Joins f held ∧ ¬ limit.IsAtLeast (held + f.payload.size) ∧
          fault = .messageTooLarge f.streamId (held + f.payload.size) limit) ∧
    (∀ f fault, (b.push f).result = .error fault → fault.category = .messageTooLarge →
      f.streamId.key ∉ (b.push f).assembler.pending ∧
      (b.push f).assembler.chains = b.others f.streamId) ∧
    ∀ f, f.streamId.key ∉ b.pending →
      ¬ (f.isFragmentable = .ok true ∧ f.flags.hasFlag Flag.follows = true) →
      (b.push f).result = f.kind.map fun _ => some f := by
  intro a b limit
  have hoptions : b.options = options := options_after a history
  have hnodup : b.pending.Nodup := nodup_pending_after (a := a) List.nodup_nil history
  have hwithin : b.IsWithin :=
    IsWithin.after (a := a) (fun _ _ h => absurd h (Option.some_ne_none _).symm) hlimit history
  -- What is open was gathered by the history, and that is what it holds.
  have hgathers : ∀ s chain, b.chain? s = some chain → ∃ first more,
      a.Gathers s history first more ∧ chain.Holds first more := by
    intro s chain hchain
    obtain ⟨first, more, hgathers⟩ := exists_gathers rfl hchain
    obtain ⟨found, hfound, hholds⟩ := hgathers.exists_chain
    obtain rfl := Option.some.inj (hfound.symm.trans hchain)
    exact ⟨first, more, hgathers, hholds⟩
  have hsize : ∀ s chain, b.chain? s = some chain → chain.size = Payload.total chain.pieces := by
    intro s chain hchain
    obtain ⟨first, more, -, hholds⟩ := hgathers s chain hchain
    exact hholds.size_eq_total
  refine ⟨fun chain hmem => ?_, fun f message hopen hpayload hmessage => ?_,
    fun c streamId size hnotice => ⟨?_, rfl⟩, fun f fault => ?_,
    fun f fault hresult _ => ⟨?_, ?_⟩, fun f hidle hother => ?_⟩
  · have hchain := (mem_chains_iff hnodup).1 hmem
    obtain ⟨first, more, hgathered, hholds⟩ := hgathers _ chain hchain
    have hatLeast := hwithin _ chain hchain
    rw [hoptions] at hatLeast
    exact ⟨⟨first, more, hgathered, hholds.pieces_eq⟩, hholds.size_eq_total, hatLeast⟩
  · obtain ⟨chain, hchain⟩ := Option.isSome_iff_exists.1 (mem_pending_iff.1 hopen)
    rw [(push_open hchain rfl).result_eq, hoptions] at hmessage
    exact Chain.isAtLeast_of_openTurn hlimit (hsize _ chain hchain) hpayload hmessage
  · obtain ⟨chain, hchain, rfl⟩ := chain?_of_mem_notices hnotice
    exact ⟨chain, hchain, hsize _ chain hchain⟩
  · rw [push_messageTooLarge_iff hsize, hoptions]
    simp only [Number.isBelow_iff_not_isAtLeast hlimit, limit]
  · rw [← push_eq_none_iff_mem_pending, hresult]
    exact fun hnone => by cases hnone
  · have hdrop := assembler_push_of_ne_none (a := b) (f := f) (by simp [hresult])
    rw [hdrop]
    rfl
  · rw [(push_idle (chain?_eq_none_iff.2 hidle) rfl).result_eq, Chain.idleTurn_other hother]

/-- Three bytes and a half are admitted, and two streams have a chain
open. On the first there is room for one byte more: with two the frame is
refused, and the other chain is left. -/
theorem size_limit_exact_fraction :
    let limit : Number := .fraction 7 0 (by decide)
    let options : AssemblerOptions := { maxMessageSize := limit }
    let first (s : Nat) : Frame :=
      ⟨.ofNat s, .ofWord Flag.follows, .message .requestResponse ⟨some [9], [1]⟩⟩
    let last (data : Bytes) : Frame := ⟨.ofNat 1, .ofNat 0, .message .payload ⟨none, data⟩⟩
    let b := ({ options } : Assembler).after [.push (first 1), .push (first 3)]
    limit ≠ .nan ∧
      (b.push (last [2, 3])).result = .error (.messageTooLarge (.ofNat 1) 4 limit) ∧
      (b.push (last [2, 3])).assembler.chains = b.others (.ofNat 1) ∧
      ∃ message, (b.push (last [2])).result = .ok (some message) ∧
        message.payload.size = 3 ∧ limit.IsAtLeast 3 := by
  intro limit options first last b
  have hlimit : limit ≠ .nan := Number.noConfusion
  obtain ⟨-, hmessage, -, hrefused, hdropped, -⟩ :=
    size_limit_exact options hlimit [.push (first 1), .push (first 3)]
  let chain := (Chain.opening (first 1) .requestResponse).append ⟨some [9], [1]⟩
  have hopen : b.chain? (.ofNat 1) = some chain := by decide +kernel
  have hlarge : ¬ limit.IsAtLeast 4 := by
    show ¬ (8 : Int) ≤ 7
    omega
  have hjoins : b.Joins (last [2, 3]) (Payload.total chain.pieces) := .more hopen rfl
  have hresult := (hrefused (last [2, 3]) (.messageTooLarge (.ofNat 1) 4 limit)).2
    ⟨2, hjoins, hlarge, rfl⟩
  have hcomplete : (b.push (last [2])).result = .ok (some
      ⟨.ofNat 1, .ofWord Flag.metadata, .message .requestResponse ⟨some [9], [1, 2]⟩⟩) := by
    decide +kernel
  exact ⟨hlimit, hresult.1, (hdropped _ _ hresult.1 hresult.2).2, _, hcomplete, rfl,
    hmessage _ _ (by decide +kernel) rfl hcomplete⟩

end Assembler

end StreamWire

import Mathlib.Data.List.TakeWhile
import StreamWire.Proofs.Message.SingleChain
/-!
# Restrictions — what the options of an assembler change

An assembler may be run so that chains are not open side by side, or so
that messages do not get too large. Either way it does what it would do by
default, call by call, until it has to refuse a frame for the sake of its
options (`Assembler.call_unrestricted`): the checks leave no trace where
they pass, and how many bytes a chain holds is not seen in what comes out.
`Assembler.options_only_refuse` says it of whole histories.
-/

namespace StreamWire

/-- The refusals that come of how an assembler is run. -/
def Category.isRestriction : Category → Bool
  | .interleavedFragments | .messageTooLarge => true
  | _ => false

/-- Whether a call was a frame refused for the sake of the options. -/
def Reply.isRestricted (reply : Reply) : Bool :=
  match reply.answer with
  | .pushed (.error fault) => fault.category.isRestriction
  | _ => false

/-- What is seen of a call: what came back, and the streams that have a
chain open afterwards. -/
structure Sighting where
  reply : Reply
  pending : List Number

/-- Whether a call was not refused for the sake of the options. -/
def Sighting.isUnrestricted (seen : Sighting) : Bool := !seen.reply.isRestricted

namespace Chain

variable {options : AssemblerOptions} {obstacle? chain? : Option Chain} {chain : Chain} {f : Frame}

/-- Nothing is too large by default. -/
theorem not_isBelow_default (n : Nat) :
    ¬ ({} : AssemblerOptions).maxMessageSize.isBelow n = true := Bool.false_ne_true

/-- A frame on a stream without a chain is treated as by default, unless it
is refused for the sake of the options. -/
theorem idleTurn_eq_default
    (h : ∀ fault, (idleTurn options obstacle? f).result = .error fault →
      fault.category.isRestriction = false) :
    idleTurn options obstacle? f = idleTurn {} none f := by
  by_cases hstarts : f.isFragmentable = .ok true ∧ f.flags.hasFlag Flag.follows = true
  · obtain ⟨head, hbody⟩ := Frame.isFragmentable_eq_true_iff.1 hstarts.1
    rw [idleTurn_start hbody hstarts.2] at h ⊢
    rw [idleTurn_start hbody hstarts.2]
    rcases obstacle? with _ | other
    · dsimp only at h ⊢
      split at h
      · cases h _ rfl
      · rename_i hfits
        rw [if_neg hfits, if_neg (not_isBelow_default _)]
    · cases h _ rfl
  · rw [idleTurn_other hstarts, idleTurn_other hstarts]

/-- And so is a frame on an open chain. -/
theorem openTurn_eq_default
    (h : ∀ fault, (openTurn options chain f).result = .error fault →
      fault.category.isRestriction = false) :
    openTurn options chain f = openTurn {} chain f := by
  by_cases hpayload : f.kind = .ok .payload
  · have hbody := Frame.kind_eq_payload_iff.1 hpayload
    rw [openTurn_payload hbody] at h ⊢
    rw [openTurn_payload hbody]
    split at h
    · cases h _ rfl
    · rename_i hfits
      rw [if_neg hfits, if_neg (not_isBelow_default _)]
  · rw [openTurn_other hpayload, openTurn_other hpayload]

/-- **A turn is as by default**, unless the frame is refused for the sake
of the options. -/
theorem turn_eq_default
    (h : ∀ fault, (turn options obstacle? chain? f).result = .error fault →
      fault.category.isRestriction = false) :
    turn options obstacle? chain? f = turn {} none chain? f := by
  rcases chain? with _ | chain
  · exact idleTurn_eq_default h
  · exact openTurn_eq_default h

/-- By default no frame is refused for the sake of the options. -/
theorem isRestriction_of_turn_default {fault : Fault}
    (h : (turn {} none chain? f).result = .error fault) : fault.category.isRestriction = false := by
  have hkind {other : Fault} (hother : f.kind = .error other) :
      other.category.isRestriction = false := by
    rw [Frame.category_of_kind_error hother]
    rfl
  rcases chain? with _ | chain
  · by_cases hstarts : f.isFragmentable = .ok true ∧ f.flags.hasFlag Flag.follows = true
    · obtain ⟨head, hbody⟩ := Frame.isFragmentable_eq_true_iff.1 hstarts.1
      rw [turn, idleTurn_start hbody hstarts.2] at h
      dsimp only at h
      rw [if_neg (not_isBelow_default _)] at h
      cases h
    · rw [turn, idleTurn_other hstarts] at h
      rcases hf : f.kind with other | kind
      · rw [hf] at h
        obtain rfl := Except.error.inj h
        exact hkind hf
      · rw [hf] at h
        cases h
  · by_cases hpayload : f.kind = .ok .payload
    · rw [turn, openTurn_payload (Frame.kind_eq_payload_iff.1 hpayload),
        if_neg (not_isBelow_default _)] at h
      split at h <;> cases h
    · rw [turn, openTurn_other hpayload] at h
      split at h
      · cases h
      · cases h
      · obtain rfl := Except.error.inj h
        rfl
      · rename_i other hother
        obtain rfl := Except.error.inj h
        exact hkind hother

end Chain

namespace Assembler

variable {a : Assembler} {f : Frame} {c : Call}

/-! ## In step -/

/-- What is seen of each call of a history. -/
def sightings (a : Assembler) : List Call → List Sighting
  | [] => []
  | c :: later => ⟨(a.call c).2, (a.call c).1.pending⟩ :: (a.call c).1.sightings later

/-- The same chains, in an assembler that is run by default. -/
def unrestricted (a : Assembler) : Assembler := { a with options := {} }

/-- Where a chain is filed does not hang on the options. -/
theorem unrestricted_settle (a : Assembler) (streamId : Number) (chain? : Option Chain) :
    (a.settle streamId chain?).unrestricted = a.unrestricted.settle streamId chain? := by
  rcases chain? with _ | chain
  · rfl
  · have hsame : a.unrestricted.chain? chain.streamId = a.chain? chain.streamId := rfl
    rw [settle, settle, put, put, hsame]
    split <;> rfl

/-- **Both go in step.** A call that is not refused for the sake of the
options comes back with what it comes back with by default, and leaves the
same chains. -/
theorem call_unrestricted (h : (a.call c).2.isRestricted = false) :
    a.unrestricted.call c = ((a.call c).1.unrestricted, (a.call c).2) := by
  rcases c with f | streamId | -
  · obtain ⟨hresult, hnotices, hassembler, -⟩ := a.push_settles f
    obtain ⟨hresult', hnotices', hassembler', -⟩ := a.unrestricted.push_settles f
    have hturn : Chain.turn a.options (a.obstacle? f.streamId) (a.chain? f.streamId) f =
        Chain.turn {} none (a.chain? f.streamId) f := by
      refine Chain.turn_eq_default fun fault hfault => ?_
      rw [← hresult] at hfault
      rw [call, Reply.isRestricted] at h
      dsimp only at h
      rwa [hfault] at h
    have hturn' : Chain.turn a.unrestricted.options (a.unrestricted.obstacle? f.streamId)
        (a.unrestricted.chain? f.streamId) f = Chain.turn {} none (a.chain? f.streamId) f := rfl
    rw [hturn] at hresult hnotices hassembler
    rw [hturn'] at hresult' hnotices' hassembler'
    rw [call, call, hresult, hnotices, hassembler, hresult', hnotices', hassembler',
      unrestricted_settle]
  · have hsame : a.unrestricted.chain? streamId = a.chain? streamId := rfl
    rw [call, call, discard, discard, hsame]
    rcases a.chain? streamId with _ | chain <;> rfl
  · rfl

/-- By default no call is refused for the sake of the options. -/
theorem isRestricted_of_default (hdefault : a.options = {}) (c : Call) :
    (a.call c).2.isRestricted = false := by
  rcases c with f | streamId | -
  · have hpush := a.push_follows_default hdefault (rfl : f.streamId.key = f.streamId.key)
    rw [call, Reply.isRestricted]
    dsimp only
    rcases hresult : (a.push f).result with fault | out
    · exact Chain.isRestriction_of_turn_default (hpush.result_eq ▸ hresult)
    · rfl
  · rfl
  · rfl

/-! ## Histories -/

/-- **As far as nothing is refused for the sake of the options**, the same
is seen as by default. -/
theorem takeWhile_sightings_prefix (a : Assembler) (history : List Call) :
    (a.sightings history).takeWhile Sighting.isUnrestricted <+:
      a.unrestricted.sightings history := by
  induction history generalizing a with
  | nil => exact List.prefix_rfl
  | cons c later ih =>
    let seen : Sighting := ⟨(a.call c).2, (a.call c).1.pending⟩
    show (seen :: _).takeWhile Sighting.isUnrestricted <+: _
    rcases hrestricted : (a.call c).2.isRestricted with _ | _
    · have hgo : seen.isUnrestricted = true := by simp [Sighting.isUnrestricted, seen, hrestricted]
      rw [List.takeWhile_cons_of_pos hgo, sightings, call_unrestricted hrestricted]
      exact (List.prefix_cons_inj _).2 (ih _)
    · have hstop : ¬ seen.isUnrestricted = true := by
        simp [Sighting.isUnrestricted, seen, hrestricted]
      rw [List.takeWhile_cons_of_neg hstop]
      exact List.nil_prefix

/-- One sighting for each call. -/
theorem length_sightings (a : Assembler) (history : List Call) :
    (a.sightings history).length = history.length := by
  induction history generalizing a with
  | nil => rfl
  | cons c later ih => rw [sightings, List.length_cons, List.length_cons, ih]

theorem isRestricted_of_mem_sightings (hdefault : a.options = {}) {history : List Call}
    {seen : Sighting} (h : seen ∈ a.sightings history) : seen.reply.isRestricted = false := by
  induction history generalizing a with
  | nil => cases h
  | cons c later ih =>
    rw [sightings, List.mem_cons] at h
    rcases h with rfl | h
    · exact isRestricted_of_default hdefault c
    · exact ih ((options_call a c).trans hdefault) h

/-- **The options of an assembler only refuse.** However it is run and
whatever calls are made: up to the first frame that is refused because of
another chain or because its message is too large, every call comes back
with the result and the notices it comes back with by default, and leaves
chains open on the same streams. If no frame is so refused, that is all of
the history. By default none is. -/
theorem options_only_refuse (options : AssemblerOptions) (history : List Call) :
    let a : Assembler := { options }
    let b : Assembler := {}
    (a.sightings history).takeWhile Sighting.isUnrestricted <+:
        b.sightings history ∧
      ((∀ seen ∈ a.sightings history, seen.reply.isRestricted = false) →
        a.sightings history = b.sightings history) ∧
      ∀ seen ∈ b.sightings history, seen.reply.isRestricted = false := by
  intro a b
  have hcommon := a.takeWhile_sightings_prefix history
  refine ⟨hcommon, fun hnone => ?_, fun seen hmem => isRestricted_of_mem_sightings rfl hmem⟩
  have hwhole : (a.sightings history).takeWhile Sighting.isUnrestricted =
      a.sightings history := by
    rw [List.takeWhile_eq_self_iff]
    intro seen hmem
    simp [Sighting.isUnrestricted, hnone seen hmem]
  rw [hwhole] at hcommon
  refine hcommon.eq_of_length ?_
  rw [length_sightings, length_sightings]

/-- A chain is dropped, and another grows to the maximum: nothing tells
the assembler from one that is run by default. With one byte more the last
call is refused, and those before it are still the same. -/
theorem options_only_refuse_atMaximum :
    let options : AssemblerOptions := { allowInterleaving := false, maxMessageSize := .ofNat 2 }
    let a : Assembler := { options }
    let b : Assembler := {}
    let first (s : Nat) : Call :=
      .push ⟨.ofNat s, .ofWord Flag.follows, .message .requestResponse ⟨none, [1]⟩⟩
    let last (data : Bytes) : Call := .push ⟨.ofNat 3, .ofNat 0, .message .payload ⟨none, data⟩⟩
    let history (data : Bytes) := [first 1, .discard (.ofNat 1), first 3, last data, .close]
    (∀ seen ∈ a.sightings (history [2]), seen.reply.isRestricted = false) ∧
      a.sightings (history [2]) = b.sightings (history [2]) ∧
      (a.sightings (history [2, 3])).takeWhile Sighting.isUnrestricted <+:
        b.sightings (history [2, 3]) ∧
      ((a.sightings (history [2, 3])).map fun seen => seen.reply.isRestricted) =
        [false, false, false, true, false] := by
  intro options a b first last history
  have hnone : ∀ seen ∈ a.sightings (history [2]), seen.reply.isRestricted = false := by
    decide +kernel
  obtain ⟨-, hsame, -⟩ := options_only_refuse options (history [2])
  obtain ⟨hcommon, -, -⟩ := options_only_refuse options (history [2, 3])
  exact ⟨hnone, hsame hnone, hcommon, by decide +kernel⟩

end Assembler

end StreamWire

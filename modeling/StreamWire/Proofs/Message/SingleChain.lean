import StreamWire.Proofs.Message.Transcript
/-!
# Single chains — where none may be open beside another

An assembler that does not let chains be open side by side never has more
than one, whatever calls are made
(`Assembler.length_pending_after_le`). What keeps it so is one refusal: a
frame that would start a chain while that of another stream is open. The
refusal names both streams and leaves everything as it was, and no other
frame meets it (`Assembler.one_chain_at_a_time`).
-/

namespace StreamWire

theorem Frame.category_of_kind_error {f : Frame} {fault : Fault} (h : f.kind = .error fault) :
    fault.category = .unknownFrameType := by
  obtain ⟨code, rfl⟩ := exists_code_of_kind_error h
  rfl

namespace Chain

variable {options : AssemblerOptions} {obstacle? chain? : Option Chain} {chain : Chain} {f : Frame}
  {fault : Fault}

/-- Where a chain was started, none was in its way. -/
theorem obstacle?_of_idleTurn_eq_some (h : (idleTurn options obstacle? f).chain? = some chain) :
    obstacle? = none := by
  obtain ⟨hmessage, hfollows, -⟩ := idleTurn_eq_some h
  obtain ⟨head, hbody⟩ := Frame.isFragmentable_eq_true_iff.1 hmessage
  rw [idleTurn_start hbody hfollows] at h
  rcases obstacle? with _ | other
  · rfl
  · cases h

/-- A frame on an open chain is not refused for the sake of another. -/
theorem openTurn_ne_interleaved (h : (openTurn options chain f).result = .error fault) :
    fault.category ≠ .interleavedFragments := by
  by_cases hpayload : f.kind = .ok .payload
  · rw [openTurn_payload (Frame.kind_eq_payload_iff.1 hpayload)] at h
    split at h
    · obtain rfl := Except.error.inj h
      exact Category.noConfusion
    · split at h <;> cases h
  · rw [openTurn_other hpayload] at h
    split at h
    · cases h
    · cases h
    · obtain rfl := Except.error.inj h
      exact Category.noConfusion
    · rename_i other hkind
      obtain rfl := Except.error.inj h
      rw [Frame.category_of_kind_error hkind]
      exact Category.noConfusion

/-- **A frame is refused for the sake of another chain** exactly where it
would start one and there is an obstacle. -/
theorem turn_eq_interleaved_iff :
    ((turn options obstacle? chain? f).result = .error fault ∧
        fault.category = .interleavedFragments) ↔
      f.isFragmentable = .ok true ∧ f.flags.hasFlag Flag.follows = true ∧ chain? = none ∧
        ∃ other, obstacle? = some other ∧ fault = .interleaved other.key f.streamId := by
  constructor
  · rintro ⟨hresult, hcategory⟩
    rcases chain? with _ | chain
    · by_cases hstarts : f.isFragmentable = .ok true ∧ f.flags.hasFlag Flag.follows = true
      · obtain ⟨head, hbody⟩ := Frame.isFragmentable_eq_true_iff.1 hstarts.1
        rw [turn, idleTurn_start hbody hstarts.2] at hresult
        rcases obstacle? with _ | other
        · dsimp only at hresult
          split at hresult
          · obtain rfl := Except.error.inj hresult
            cases hcategory
          · cases hresult
        · exact ⟨hstarts.1, hstarts.2, rfl, other, rfl, (Except.error.inj hresult).symm⟩
      · rw [turn, idleTurn_other hstarts] at hresult
        rcases hkind : f.kind with other | kind
        · rw [hkind] at hresult
          obtain rfl := Except.error.inj hresult
          rw [Frame.category_of_kind_error hkind] at hcategory
          cases hcategory
        · rw [hkind] at hresult
          cases hresult
    · exact absurd hcategory (openTurn_ne_interleaved hresult)
  · rintro ⟨hmessage, hfollows, rfl, other, rfl, rfl⟩
    obtain ⟨head, hbody⟩ := Frame.isFragmentable_eq_true_iff.1 hmessage
    rw [turn, idleTurn_start hbody hfollows]
    exact ⟨rfl, rfl⟩

end Chain

namespace Assembler

variable {a : Assembler} {f : Frame}

/-! ## One chain at most -/

/-- Where chains may not be open side by side, the first on another stream
is an obstacle. -/
theorem map_key_obstacle? (hstrict : a.options.allowInterleaving = false) (s : Number) :
    (a.obstacle? s).map Chain.key = a.pending.find? (· != s.key) := by
  rw [obstacle?, if_neg (by simp [hstrict]), pending, List.find?_map]
  rfl

/-- A chain is started only where none is open. -/
theorem pending_eq_nil_of_start (hstrict : a.options.allowInterleaving = false)
    (hidle : a.chain? f.streamId = none) (hfree : a.obstacle? f.streamId = none) :
    a.pending = [] := by
  have hothers := map_key_obstacle? hstrict f.streamId
  rw [hfree, Option.map_none, eq_comm, List.find?_eq_none] at hothers
  rw [List.eq_nil_iff_forall_not_mem]
  intro key hkey
  have hsame : key = f.streamId.key := by simpa using hothers key hkey
  exact chain?_eq_none_iff.1 hidle (hsame ▸ hkey)

/-- **A call leaves one chain at most.** -/
theorem length_pending_call_le (hstrict : a.options.allowInterleaving = false)
    (h : a.pending.length ≤ 1) (c : Call) : (a.call c).1.pending.length ≤ 1 := by
  have hdrop (streamId : Number) : (a.drop streamId).pending.length ≤ 1 := by
    rw [pending_drop]
    exact Nat.le_trans (List.length_filter_le _ _) h
  rcases c with f | streamId | -
  · obtain ⟨-, -, hassembler, hkey⟩ := a.push_settles f
    show (a.push f).assembler.pending.length ≤ 1
    rw [hassembler]
    rcases hturn : (Chain.turn a.options (a.obstacle? f.streamId) (a.chain? f.streamId) f).chain?
      with _ | chain
    · exact hdrop f.streamId
    · have hchain : chain.streamId.key = f.streamId.key := hkey chain hturn
      rw [settle, pending_put, chain?_congr hchain]
      split
      · exact h
      · -- The chain is new, and then it is the only one.
        rename_i hidle
        rw [Option.not_isSome_iff_eq_none] at hidle
        rw [hidle] at hturn
        have hfree := Chain.obstacle?_of_idleTurn_eq_some hturn
        rw [pending_eq_nil_of_start hstrict hidle hfree]
        exact Nat.le_refl 1
  · show (a.discard streamId).assembler.pending.length ≤ 1
    rw [assembler_discard]
    exact hdrop streamId
  · exact Nat.zero_le 1

/-- **Whatever calls are made, one chain at most is open.** -/
theorem length_pending_after_le (hstrict : a.options.allowInterleaving = false)
    (h : a.pending.length ≤ 1) (history : List Call) : (a.after history).pending.length ≤ 1 := by
  induction history generalizing a with
  | nil => exact h
  | cons c later ih =>
    have hoptions : (a.call c).1.options.allowInterleaving = false := by rwa [options_call]
    exact ih hoptions (length_pending_call_le hstrict h c)

/-! ## What is refused -/

/-- The one chain that is open is the obstacle on every stream but its
own. -/
theorem exists_obstacle?_iff (hstrict : a.options.allowInterleaving = false)
    (hone : a.pending.length ≤ 1) {s key : Number} (hidle : s.key ∉ a.pending) :
    (∃ other, a.obstacle? s = some other ∧ other.key = key) ↔ a.pending = [key] := by
  have hkeys := map_key_obstacle? hstrict s
  have hfind : (∃ other, a.obstacle? s = some other ∧ other.key = key) ↔
      a.pending.find? (· != s.key) = some key := by
    rw [← hkeys, Option.map_eq_some_iff]
  rw [hfind]
  rcases hpending : a.pending with _ | ⟨first, rest⟩
  · simp
  · rw [hpending, List.length_cons] at hone
    obtain rfl : rest = [] := List.eq_nil_of_length_eq_zero (by omega)
    have hother : first ≠ s.key := fun hsame => hidle (by simp [hpending, hsame])
    simp [hother]

/-- A frame that is refused for the sake of another chain changes
nothing. -/
theorem push_of_obstacle {other : Chain} (hmessage : f.isFragmentable = .ok true)
    (hfollows : f.flags.hasFlag Flag.follows = true) (hidle : a.chain? f.streamId = none)
    (hobstacle : a.obstacle? f.streamId = some other) :
    a.push f = { assembler := a, result := .error (.interleaved other.key f.streamId) } := by
  obtain ⟨head, hbody⟩ := Frame.isFragmentable_eq_true_iff.1 hmessage
  rw [push, hidle]
  dsimp only
  rw [onIdleStream, hbody]
  dsimp only
  rw [if_pos hfollows, hobstacle]

/-- **One chain at a time.** Where chains may not be open side by side, and
whatever the maximum for a message and the calls made: at most one chain
is open. A frame is refused for the sake of another chain if and only if
it is a message frame with the `follows` bit, no chain is open on its own
stream, and one is on another; the refusal names the other stream and its
own. What was refused has changed nothing, so the open chain goes on, and
is completed, as if the frame had never come. -/
theorem one_chain_at_a_time (maximum : Number) (history : List Call) (f : Frame) :
    let a : Assembler := { options := { allowInterleaving := false, maxMessageSize := maximum } }
    let b := a.after history
    b.pending.length ≤ 1 ∧
    (∀ fault, ((b.push f).result = .error fault ∧ fault.category = .interleavedFragments) ↔
      f.isFragmentable = .ok true ∧ f.flags.hasFlag Flag.follows = true ∧
        f.streamId.key ∉ b.pending ∧
        ∃ other, b.pending = [other] ∧ fault = .interleaved other f.streamId) ∧
    (∀ other, (Fault.interleaved other f.streamId).message =
      s!"Fragment for stream {f.streamId.decimal} interleaved with open chain on stream " ++
        other.decimal) ∧
    ∀ fault, (b.push f).result = .error fault → fault.category = .interleavedFragments →
      (b.push f).assembler = b ∧ (b.push f).notices = [] ∧
        ∀ later, a.after (history ++ .push f :: later) = a.after (history ++ later) ∧
          a.transcript (history ++ .push f :: later) =
            a.transcript history ++
              ⟨.push f, .pushed (.error fault), []⟩ :: b.transcript later := by
  intro a b
  have hstrict : b.options.allowInterleaving = false := by rw [options_after]
  have hstart : a.pending.length ≤ 1 := Nat.zero_le 1
  have hone : b.pending.length ≤ 1 := length_pending_after_le rfl hstart history
  have hpush := b.push_follows f
  refine ⟨hone, ?_, fun other => rfl, ?_⟩
  · intro fault
    rw [hpush.result_eq, Chain.turn_eq_interleaved_iff, chain?_eq_none_iff]
    refine and_congr_right fun _ => and_congr_right fun _ => and_congr_right fun hidle => ?_
    constructor
    · rintro ⟨other, hobstacle, rfl⟩
      exact ⟨other.key, (exists_obstacle?_iff hstrict hone hidle).1 ⟨other, hobstacle, rfl⟩, rfl⟩
    · rintro ⟨key, hpending, rfl⟩
      obtain ⟨other, hobstacle, rfl⟩ := (exists_obstacle?_iff hstrict hone hidle).2 hpending
      exact ⟨other, hobstacle, rfl⟩
  · intro fault hresult hcategory
    obtain ⟨hmessage, hfollows, hidle, other, hobstacle, rfl⟩ :=
      Chain.turn_eq_interleaved_iff.1 ⟨hpush.result_eq ▸ hresult, hcategory⟩
    have hpushed := push_of_obstacle hmessage hfollows hidle hobstacle
    refine ⟨by rw [hpushed], by rw [hpushed], fun later => ?_⟩
    -- The call leads back to where it was made.
    have hcall : b.call (.push f) =
        (b, ⟨.pushed (.error (.interleaved other.key f.streamId)), []⟩) := by
      rw [call, hpushed]
    rw [after_append, after_append, transcript_append, after, transcript]
    show (b.call (.push f)).1.after later = b.after later ∧ a.transcript history ++
      ⟨.push f, (b.call (.push f)).2⟩ :: (b.call (.push f)).1.transcript later = _
    rw [hcall]
    exact ⟨rfl, rfl⟩

/-- A chain is open on stream 1. A message for stream 3 that would be
split is refused, a whole one passes, and the open chain is completed. -/
theorem one_chain_at_a_time_refused :
    let a : Assembler := { options := { allowInterleaving := false } }
    let first (s : Nat) : Frame := ⟨.ofNat s, .ofWord Flag.follows, .message .payload ⟨none, [1]⟩⟩
    let last : Frame := ⟨.ofNat 1, .ofNat 0, .message .payload ⟨none, [2]⟩⟩
    let fault : Fault := .interleaved (.ofNat 1) (.ofNat 3)
    let b := a.after [.push (first 1)]
    ((b.push (first 3)).result = .error fault ∧ fault.category = .interleavedFragments) ∧
      (b.push (first 3)).assembler = b ∧
      a.transcript [.push (first 1), .push (first 3), .push last] =
        a.transcript [.push (first 1)] ++
          ⟨.push (first 3), .pushed (.error fault), []⟩ :: b.transcript [.push last] ∧
      (b.push last).result = .ok (some ⟨.ofNat 1, .ofNat 0, .message .payload ⟨none, [1, 2]⟩⟩) := by
  intro a first last fault b
  obtain ⟨-, hrefused, -, hunchanged⟩ := one_chain_at_a_time .infinity [.push (first 1)] (first 3)
  have hfault : (b.push (first 3)).result = .error fault ∧
      fault.category = .interleavedFragments :=
    (hrefused fault).2 ⟨rfl, by decide, by decide +kernel, .ofNat 1, by decide +kernel, rfl⟩
  obtain ⟨hsame, -, hlater⟩ := hunchanged fault hfault.1 hfault.2
  exact ⟨hfault, hsame, (hlater [.push last]).2, by decide +kernel⟩

end Assembler

end StreamWire

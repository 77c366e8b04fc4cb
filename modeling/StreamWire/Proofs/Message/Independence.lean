import StreamWire.Proofs.Message.Transcript
/-!
# Independence — streams do not influence each other

Where chains may be open side by side, what comes back from a call of a
stream depends on the chain of that stream only, and a call of another
stream leaves it as it was. So an assembler that serves many streams
answers each as if it were alone (`streams_independent`), and calls of
different streams may change places.

Two assemblers are compared on one stream: `AgreesOn` says that they are
run in the same way and have the same chain there. A call of the stream
keeps it on both sides (`AgreesOn.call`), a call of another on either side
(`agreesOn_call`).
-/

namespace StreamWire

namespace Call

/-- Calls that are each about one stream, and not about the same. -/
def Apart (c d : Call) : Prop :=
  ∃ s t, c.streamId? = some s ∧ d.streamId? = some t ∧ s.key ≠ t.key

variable {c d : Call}

theorem Apart.symm (h : c.Apart d) : d.Apart c := by
  obtain ⟨s, t, hs, ht, hne⟩ := h
  exact ⟨t, s, ht, hs, hne.symm⟩

theorem Apart.ne_close (h : c.Apart d) : c ≠ .close := by
  rintro rfl
  obtain ⟨s, t, hs, -⟩ := h
  cases hs

theorem Apart.isOn_eq_false (h : c.Apart d) {s : Number} (hon : c.isOn s = true) :
    d.isOn s = false := by
  obtain ⟨t, u, ht, hu, hne⟩ := h
  rw [isOn, ht, Option.any_some, beq_iff_eq] at hon
  rw [isOn, hu, Option.any_some, beq_eq_false_iff_ne, ← hon]
  exact hne.symm

theorem Apart.exists_isOn (h : c.Apart d) : ∃ s, c.isOn s = true ∧ d.isOn s = false := by
  have hoff {s : Number} : c.isOn s = true → d.isOn s = false := h.isOn_eq_false
  obtain ⟨s, -, hs, -⟩ := h
  have hon : c.isOn s = true := by simp [isOn, hs]
  exact ⟨s, hon, hoff hon⟩

end Call

namespace Assembler

/-- Assemblers that are run in the same way and have the same chain open
on a stream, if any. -/
structure AgreesOn (streamId : Number) (a b : Assembler) : Prop where
  options_eq : a.options = b.options
  chain?_eq : a.chain? streamId = b.chain? streamId

variable {a b : Assembler} {s : Number} {c d : Call}

theorem AgreesOn.symm (h : AgreesOn s a b) : AgreesOn s b a :=
  ⟨h.options_eq.symm, h.chain?_eq.symm⟩

theorem AgreesOn.trans {e : Assembler} (h : AgreesOn s a b) (h' : AgreesOn s b e) :
    AgreesOn s a e :=
  ⟨h.options_eq.trans h'.options_eq, h.chain?_eq.trans h'.chain?_eq⟩

/-- **A call of another stream changes nothing on this one.** -/
theorem agreesOn_call (hclose : c ≠ .close) (hoff : c.isOn s = false) :
    AgreesOn s a (a.call c).1 := by
  have hnot : ¬ c.concerns s = true := by simp [Call.concerns_of_ne_close hclose, hoff]
  exact ⟨(options_call a c).symm, (chain?_call_of_not_concerns hnot).symm⟩

/-- **A call of a stream is answered from the chain of that stream**, and
leaves the same chain there. -/
theorem AgreesOn.call (h : AgreesOn s a b) (hfree : a.options.allowInterleaving = true)
    (hon : c.isOn s = true) :
    (a.call c).2 = (b.call c).2 ∧ AgreesOn s (a.call c).1 (b.call c).1 := by
  have hfree' : b.options.allowInterleaving = true := h.options_eq ▸ hfree
  have hoptions : (a.call c).1.options = (b.call c).1.options := by
    rw [options_call, options_call, h.options_eq]
  cases c with
  | push f =>
    have hkey : f.streamId.key = s.key := Call.isOn_push.1 hon
    -- Both pushes are the same turn.
    have hturn : Chain.turn b.options (b.obstacle? f.streamId) (b.chain? s) f =
        Chain.turn a.options (a.obstacle? f.streamId) (a.chain? s) f := by
      rw [obstacle?_of_allowInterleaving hfree, obstacle?_of_allowInterleaving hfree',
        h.options_eq, h.chain?_eq]
    have hpush := a.push_follows f
    have hpush' := b.push_follows f
    rw [chain?_congr hkey] at hpush hpush'
    rw [hturn] at hpush'
    refine ⟨?_, hoptions, ?_⟩
    · rw [Assembler.call, Assembler.call, hpush.result_eq, hpush.notices_eq, hpush'.result_eq,
        hpush'.notices_eq]
    · rw [chain?_call (Call.concerns_push.2 hkey), chain?_call (Call.concerns_push.2 hkey)]
      exact (congrArg Turn.chain? hturn).symm
  | discard streamId =>
    have hkey : streamId.key = s.key := Call.isOn_discard.1 hon
    refine ⟨?_, hoptions, ?_⟩
    · rw [Assembler.call, Assembler.call, discard, discard, chain?_congr hkey, h.chain?_eq,
        chain?_congr hkey]
      cases b.chain? s <;> rfl
    · rw [chain?_call (Call.concerns_discard.2 hkey), chain?_call (Call.concerns_discard.2 hkey)]
  | close => cases hon

/-! ## Many calls -/

/-- **A stream is answered as if it were alone.** -/
theorem AgreesOn.transcript (h : AgreesOn s a b) (hfree : a.options.allowInterleaving = true)
    {history : List Call} (hopen : .close ∉ history) :
    (a.transcript history).filter (·.isOn s) =
        b.transcript (history.filter (·.isOn s)) ∧
      AgreesOn s (a.after history) (b.after (history.filter (·.isOn s))) := by
  induction history generalizing a b with
  | nil => exact ⟨rfl, h⟩
  | cons c later ih =>
    have hfree' : (a.call c).1.options.allowInterleaving = true := by
      rwa [options_call]
    have hlater : .close ∉ later := fun hmem => hopen (List.mem_cons_of_mem _ hmem)
    cases hon : c.isOn s with
    | true =>
      -- Both are called, with the same result.
      obtain ⟨hreply, hagree⟩ := h.call hfree hon
      obtain ⟨hrest, hafter⟩ := ih hagree hfree' hlater
      have hexchange : Exchange.isOn s ⟨c, (a.call c).2⟩ = true := hon
      rw [List.filter_cons_of_pos hon]
      refine ⟨?_, hafter⟩
      rw [Assembler.transcript, Assembler.transcript, List.filter_cons_of_pos hexchange, hrest,
        hreply]
    | false =>
      -- Only the one that serves other streams too is called.
      have hclose : c ≠ .close := fun hc => hopen (hc ▸ List.mem_cons_self)
      have hagree := (agreesOn_call (a := a) hclose hon).symm.trans h
      obtain ⟨hrest, hafter⟩ := ih hagree hfree' hlater
      have hoff : ¬ c.isOn s = true := by simp [hon]
      have hexchange : ¬ Exchange.isOn s ⟨c, (a.call c).2⟩ = true := hoff
      rw [List.filter_cons_of_neg hoff]
      refine ⟨?_, hafter⟩
      rw [Assembler.transcript, List.filter_cons_of_neg hexchange, hrest]

/-! ## Changing places -/

/-- Assemblers that agree on every stream have the same chains. -/
theorem perm_chains (ha : a.pending.Nodup) (hb : b.pending.Nodup)
    (h : ∀ s, AgreesOn s a b) : a.chains.Perm b.chains := by
  rw [List.perm_ext_iff_of_nodup ha.of_map hb.of_map]
  intro chain
  rw [mem_chains_iff ha, mem_chains_iff hb, (h chain.streamId).chain?_eq]

/-- **Calls of different streams may change places**: each comes back with
the same, and the same chains are open afterwards. -/
theorem call_swap (hfree : a.options.allowInterleaving = true) (hnodup : a.pending.Nodup)
    (h : c.Apart d) :
    (a.call c).2 = ((a.call d).1.call c).2 ∧ ((a.call c).1.call d).2 = (a.call d).2 ∧
      ((a.call c).1.call d).1.chains.Perm ((a.call d).1.call c).1.chains := by
  obtain ⟨s, hs, hsoff⟩ := h.exists_isOn
  obtain ⟨t, ht, htoff⟩ := h.symm.exists_isOn
  have hc := h.ne_close
  have hd := h.symm.ne_close
  have hfreec : (a.call c).1.options.allowInterleaving = true := by rwa [options_call]
  have hfreed : (a.call d).1.options.allowInterleaving = true := by rwa [options_call]
  refine ⟨?_, ?_, ?_⟩
  · exact ((agreesOn_call hd hsoff).call hfree hs).1
  · exact ((agreesOn_call hc htoff).symm.call hfreec ht).1
  · apply perm_chains (nodup_pending_call (nodup_pending_call hnodup c) d)
      (nodup_pending_call (nodup_pending_call hnodup d) c)
    intro u
    cases hcu : c.isOn u with
    | true =>
      -- On the stream of the one call the other makes no difference.
      have hdu := h.isOn_eq_false hcu
      exact (agreesOn_call hd hdu).symm.trans ((agreesOn_call hd hdu).call hfree hcu).2
    | false =>
      cases hdu : d.isOn u with
      | true => exact ((agreesOn_call hc hcu).symm.call hfreec hdu).2.trans (agreesOn_call hc hcu)
      | false =>
        have hone := (agreesOn_call (a := a) hc hcu).trans (agreesOn_call hd hdu)
        have hother := (agreesOn_call (a := a) hd hdu).trans (agreesOn_call hc hcu)
        exact hone.symm.trans hother

/-- **Streams do not influence each other.** Where chains may be open side
by side, and whatever the maximum for a message: of a connection that is
not yet at its end, the calls of a stream come back with the results and
the notices they come back with where they are the only calls, and a
chain is open on the stream in the end if and only if it is there. Two
calls of different streams that follow one another may change places:
each comes back with the same, and the same chains are open afterwards. -/
theorem streams_independent (maximum : Number) :
    let a : Assembler := { options := { allowInterleaving := true, maxMessageSize := maximum } }
    (∀ history s, .close ∉ history →
      (a.transcript history).filter (·.isOn s) = a.transcript (history.filter (·.isOn s)) ∧
        (s.key ∈ (a.after history).pending ↔
          s.key ∈ (a.after (history.filter (·.isOn s))).pending)) ∧
    ∀ before c d, c.Apart d →
      let b := a.after before
      (b.call c).2 = ((b.call d).1.call c).2 ∧ ((b.call c).1.call d).2 = (b.call d).2 ∧
        ((b.call c).1.call d).1.chains.Perm ((b.call d).1.call c).1.chains := by
  intro a
  refine ⟨?_, ?_⟩
  · intro history s hopen
    have hsame : AgreesOn s a a := ⟨rfl, rfl⟩
    obtain ⟨htranscript, hafter⟩ := hsame.transcript rfl hopen
    refine ⟨htranscript, ?_⟩
    rw [mem_pending_iff, mem_pending_iff, hafter.chain?_eq]
  · intro before c d hapart b
    have hfree : b.options.allowInterleaving = true := by rw [options_after]
    have hnodup : a.pending.Nodup := List.nodup_nil
    exact call_swap hfree (nodup_pending_after hnodup before) hapart

/-- Two chains side by side, one of which outgrows the maximum: the other
is completed as if it had been alone. -/
theorem streams_independent_two :
    let a : Assembler := { options := { allowInterleaving := true, maxMessageSize := .ofNat 2 } }
    let first (s : Nat) : Call :=
      .push ⟨.ofNat s, .ofWord Flag.follows, .message .requestResponse ⟨none, [1]⟩⟩
    let last (s : Nat) (data : Bytes) : Call :=
      .push ⟨.ofNat s, .ofNat 0, .message .payload ⟨none, data⟩⟩
    let history := [first 1, first 3, last 3 [2, 2], last 1 [2]]
    (a.transcript history).filter (·.isOn (.ofNat 1)) = a.transcript [first 1, last 1 [2]] ∧
      (((a.after [first 1, first 3]).call (last 3 [2, 2])).2 =
        (((a.after [first 1, first 3]).call (last 1 [2])).1.call (last 3 [2, 2])).2) := by
  intro a first last history
  obtain ⟨halone, hswap⟩ := streams_independent (.ofNat 2)
  have hopen : .close ∉ history := by simp [history, first, last]
  refine ⟨(halone history (.ofNat 1) hopen).1, ?_⟩
  exact (hswap [first 1, first 3] _ _ ⟨_, _, rfl, rfl, by decide⟩).1

end Assembler

end StreamWire

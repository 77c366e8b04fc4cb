import StreamWire.Proofs.Message.Transcript
/-!
# The chain table — what a push leaves of the open chains

A push has one of three outcomes: nothing comes of it, a frame does, or it
is refused. The chains it leaves go with the outcome
(`Assembler.push_leaves_table`). Nothing comes exactly where the stream of
the frame has a chain afterwards; a chain that is new stands behind all
others, and the other streams keep theirs, in the order they had. A frame
that is refused on an open chain takes that chain with it and no other,
and no notice is given. `Chain.Breaks` lists the frames that are: those
of another kind than a continuation, those of no kind, and those too
large.
-/

namespace StreamWire

namespace Chain

/-- A frame breaks the open chain of its stream, and this is what it is
refused with. -/
inductive Breaks (chain : Chain) (maximum : Number) (f : Frame) : Fault → Prop
  /-- It is neither a continuation nor the end of the stream. -/
  | kind {kind : FrameKind} :
      f.kind = .ok kind → kind ≠ .payload → kind ≠ .cancel → kind ≠ .error →
      Breaks chain maximum f (.brokenChain f.streamId kind)
  /-- It is of no kind. -/
  | unknown {code : Number} :
      f.kind = .error (.unknownType code) → Breaks chain maximum f (.unknownType code)
  /-- It is a continuation with which the message gets too large. -/
  | size :
      f.kind = .ok .payload → maximum.isBelow (chain.size + f.payload.size) = true →
      Breaks chain maximum f
        (.messageTooLarge f.streamId (chain.size + f.payload.size) maximum)

variable {options : AssemblerOptions} {chain : Chain} {f : Frame} {fault : Fault}

/-- A frame that breaks a chain leaves none, and is refused without a
notice. -/
theorem Breaks.openTurn_eq (h : chain.Breaks options.maxMessageSize f fault) :
    openTurn options chain f = { chain? := none, result := .error fault } := by
  cases h with
  | @kind kind hkind hpayload hcancel herror =>
    rw [openTurn_other (by simp [hkind, hpayload]), hkind]
    cases kind with
    | cancel => exact absurd rfl hcancel
    | error => exact absurd rfl herror
    | _ => rfl
  | unknown hkind => rw [openTurn_other (by simp [hkind]), hkind]
  | size hpayload hlarge =>
    rw [openTurn_payload (Frame.kind_eq_payload_iff.1 hpayload)]
    exact if_pos hlarge

/-- **A frame on an open chain is refused exactly where it breaks the
chain.** -/
theorem openTurn_eq_error_iff :
    (openTurn options chain f).result = .error fault ↔
      chain.Breaks options.maxMessageSize f fault := by
  refine ⟨fun h => ?_, fun h => by rw [h.openTurn_eq]⟩
  by_cases hpayload : f.kind = .ok .payload
  · rw [openTurn_payload (Frame.kind_eq_payload_iff.1 hpayload)] at h
    split at h
    · rename_i hlarge
      obtain rfl := Except.error.inj h
      exact .size hpayload hlarge
    · split at h <;> cases h
  · rw [openTurn_other hpayload] at h
    split at h
    · cases h
    · cases h
    · rename_i kind hcancel herror hkind
      obtain rfl := Except.error.inj h
      refine .kind hkind ?_ ?_ ?_
      · exact fun hsame => hpayload (hkind.trans (congrArg _ hsame))
      · exact fun hsame => hcancel hsame
      · exact fun hsame => herror hsame
    · rename_i other hkind
      obtain rfl := Except.error.inj h
      obtain ⟨code, rfl⟩ := Frame.exists_code_of_kind_error hkind
      exact .unknown hkind

end Chain

namespace Assembler

variable {a : Assembler} {s : Number} {chain : Chain} {f : Frame}

/-! ## The other chains -/

/-- The chains of all streams but one, by the time they were started. -/
def others (a : Assembler) (streamId : Number) : List Chain :=
  a.chains.filter (·.key != streamId.key)

theorem others_drop (a : Assembler) (s : Number) : (a.drop s).others s = a.others s := by
  rw [others, drop, List.filter_filter]
  simp only [Bool.and_self]
  rfl

/-- A chain that is put in place is no other stream's. -/
theorem others_put (hkey : chain.key = s.key) : (a.put chain).others s = a.others s := by
  have hown : (chain.key != s.key) = false := by simp [hkey]
  rw [others, put]
  split
  · -- In its place only chains of its stream are replaced.
    show (a.chains.map _).filter _ = _
    rw [List.filter_map]
    have hkept : (fun c : Chain => c.key != s.key) ∘
        (fun other => if other.key == chain.key then chain else other) =
          fun c => c.key != s.key := by
      funext other
      rw [Function.comp_apply]
      split
      · rename_i hsame
        rw [beq_iff_eq.1 hsame]
      · rfl
    rw [hkept]
    refine (List.map_congr_left fun other hmem => ?_).trans (List.map_id _)
    have hother : other.key ≠ chain.key := by
      rw [hkey]
      exact bne_iff_ne.1 (List.mem_filter.1 hmem).2
    exact if_neg (by simpa using hother)
  · show (a.chains ++ [chain]).filter _ = _
    rw [List.filter_append, List.filter_cons_of_neg (by simp [hown]), List.filter_nil,
      List.append_nil]
    rfl

/-- **A push leaves the chains of the other streams as they were**, in the
order they had. -/
theorem others_push (a : Assembler) (f : Frame) :
    (a.push f).assembler.others f.streamId = a.others f.streamId := by
  obtain ⟨-, -, hassembler, hkey⟩ := a.push_settles f
  rw [hassembler]
  rcases hturn : (Chain.turn a.options (a.obstacle? f.streamId) (a.chain? f.streamId) f).chain?
    with _ | chain
  · exact others_drop a f.streamId
  · exact others_put (hkey chain hturn)

/-- **A chain that a push has started stands behind all others.** -/
theorem exists_chains_push (hidle : f.streamId.key ∉ a.pending)
    (hopen : f.streamId.key ∈ (a.push f).assembler.pending) :
    ∃ chain, (a.push f).assembler.chains = a.chains ++ [chain] := by
  obtain ⟨-, -, hassembler, hkey⟩ := a.push_settles f
  rw [hassembler] at hopen ⊢
  rcases hturn : (Chain.turn a.options (a.obstacle? f.streamId) (a.chain? f.streamId) f).chain?
    with _ | chain
  · rw [hturn, settle, pending_drop, List.mem_filter] at hopen
    simp at hopen
  · have hnone : a.chain? chain.streamId = none := by
      rw [chain?_eq_none_iff, show chain.streamId.key = f.streamId.key from hkey chain hturn]
      exact hidle
    refine ⟨chain, ?_⟩
    rw [settle, put, hnone]
    rfl

/-! ## The chain of the stream -/

/-- Nothing comes of a push exactly where its stream has a chain open
afterwards. -/
theorem push_eq_none_iff_mem_pending :
    (a.push f).result = .ok none ↔ f.streamId.key ∈ (a.push f).assembler.pending := by
  have hpush := a.push_follows f
  have hafter := hpush.chain?_eq f.streamId
  rw [if_pos rfl] at hafter
  rw [mem_pending_iff, hafter, hpush.result_eq, Chain.turn_eq_none_iff]

/-- **Dropping a chain takes that one and no other.** -/
theorem exists_chains_drop (h : a.pending.Nodup) (hchain : a.chain? s = some chain) :
    ∃ before later, a.chains = before ++ chain :: later ∧
      (a.drop s).chains = before ++ later := by
  have hkey : chain.key = s.key := key_of_chain? hchain
  obtain ⟨before, later, hsplit⟩ :=
    List.append_of_mem (List.mem_of_find?_eq_some hchain : chain ∈ a.chains)
  rw [pending, hsplit, List.map_append, List.map_cons, List.nodup_middle, List.nodup_cons,
    ← List.map_append] at h
  have hall : ∀ other ∈ before ++ later, (other.key != s.key) = true := by
    intro other hmem
    have hne : other.key ≠ chain.key := fun hsame => h.1 (hsame ▸ List.mem_map_of_mem hmem)
    simpa [hkey] using hne
  refine ⟨before, later, hsplit, ?_⟩
  show a.chains.filter _ = _
  rw [hsplit, List.filter_append, List.filter_cons_of_neg (by simp [hkey]), ← List.filter_append]
  exact List.filter_eq_self.2 hall

/-- **What a push leaves goes with what comes of it.** However an
assembler is run, whatever calls were made and whatever frame is pushed:
nothing comes of it if and only if a chain is open on its stream
afterwards, so none is where a frame comes out or a fault. Every other
stream has the chain it had, and they stand in the order they stood in; a
chain that was started stands behind them all. On an open chain a frame
is refused if and only if it breaks the chain, as one of another kind
than a continuation, of no kind, or too large; that chain is then gone,
no other is, and no notice was given. -/
theorem push_leaves_table (options : AssemblerOptions) (history : List Call) (f : Frame) :
    let b := ({ options } : Assembler).after history
    let left := (b.push f).assembler
    ((b.push f).result = .ok none ↔ f.streamId.key ∈ left.pending) ∧
    (∀ g, (b.push f).result = .ok (some g) → f.streamId.key ∉ left.pending) ∧
    (∀ fault, (b.push f).result = .error fault → f.streamId.key ∉ left.pending) ∧
    (∀ s : Number, s.key ≠ f.streamId.key → left.chain? s = b.chain? s) ∧
    left.others f.streamId = b.others f.streamId ∧
    (f.streamId.key ∉ b.pending → f.streamId.key ∈ left.pending →
      ∃ chain, left.chains = b.chains ++ [chain]) ∧
    ∀ chain fault, b.chain? f.streamId = some chain →
      ((b.push f).result = .error fault ↔ chain.Breaks options.maxMessageSize f fault) ∧
      ((b.push f).result = .error fault → (b.push f).notices = [] ∧
        ∃ before later, b.chains = before ++ chain :: later ∧ left.chains = before ++ later) := by
  intro b left
  have hnone : (b.push f).result = .ok none ↔ f.streamId.key ∈ left.pending :=
    push_eq_none_iff_mem_pending
  have hidle : (b.push f).result ≠ .ok none → f.streamId.key ∉ left.pending :=
    fun hcomes hmem => hcomes (hnone.2 hmem)
  refine ⟨hnone, fun g hg => hidle (by simp [hg]), fun fault hfault => hidle (by simp [hfault]),
    fun s hother => ?_, b.others_push f, exists_chains_push, fun chain fault hchain => ?_⟩
  · rw [(b.push_follows f).chain?_eq, if_neg hother]
  · have hpush := push_open hchain rfl
    have hbreaks : (b.push f).result = .error fault ↔
        chain.Breaks options.maxMessageSize f fault := by
      rw [hpush.result_eq, Chain.openTurn_eq_error_iff, options_after]
    refine ⟨hbreaks, fun hfault => ⟨?_, ?_⟩⟩
    · have hturn := hpush.result_eq.symm.trans hfault
      rw [hpush.notices_eq, (Chain.openTurn_eq_error_iff.1 hturn).openTurn_eq]
    · have hdrop : left = b.drop f.streamId := assembler_push_of_ne_none (by simp [hfault])
      rw [hdrop]
      have hstart : ({ options } : Assembler).pending.Nodup := List.nodup_nil
      exact exists_chains_drop (nodup_pending_after hstart history) hchain

/-- Two chains are open, and a frame of no kind comes for the first. It
is refused, and of the two the second is left. -/
theorem push_leaves_table_unknown :
    let first (s : Nat) : Frame := ⟨.ofNat s, .ofWord Flag.follows, .message .payload ⟨none, [1]⟩⟩
    let unknown : Frame := ⟨.ofNat 1, .ofWord Flag.follows, .unassigned (.ofNat 99) (by decide)⟩
    let b := ({} : Assembler).after [.push (first 1), .push (first 3)]
    (b.push unknown).result = .error (.unknownType (.ofNat 99)) ∧
      (b.push unknown).notices = [] ∧
      (b.push unknown).assembler.pending = [.ofNat 3] ∧
      (b.push unknown).assembler.others (.ofNat 1) = b.others (.ofNat 1) := by
  intro first unknown b
  obtain ⟨-, -, -, -, hothers, -, hopen⟩ :=
    push_leaves_table {} [.push (first 1), .push (first 3)] unknown
  obtain ⟨hbreaks, hdropped⟩ := hopen ((Chain.opening (first 1) .payload).append ⟨none, [1]⟩)
    (.unknownType (.ofNat 99)) (by decide +kernel)
  have hresult : (b.push unknown).result = .error (.unknownType (.ofNat 99)) :=
    hbreaks.2 (.unknown rfl)
  exact ⟨hresult, (hdropped hresult).1, by decide +kernel, hothers⟩

end Assembler

end StreamWire

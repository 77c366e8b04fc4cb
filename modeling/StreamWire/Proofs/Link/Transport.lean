import StreamWire.Proofs.Link.Delimited
import StreamWire.Proofs.Message.Reassembly
/-!
# Transport — messages over a shared link

Messages on several streams are sent over one link: each as its
fragments (`Shipment`), the fragments of all streams in any order that
keeps the order of every stream (`IsMerge`), each behind its length, and
the byte stream cut into chunks anywhere. `transport_lossless` says that
every message comes out once and unharmed, at the moment its last
fragment has come in, and that nothing is left at the receiving end.

The receiver is followed stream by stream. `Expects` relates the chain
that is open on a stream to the fragments of it that are still under way,
and every fragment of the line keeps it for all streams.
-/

namespace StreamWire

namespace Link

/-! ## What is sent -/

/-- A message that is sent: the frame, the size it is to be split to, and
its fragments. -/
structure Shipment where
  frame : Frame
  size : Number
  fragments : List Bytes
  fragments_eq : frame.fragments size = .ok fragments
  isWhole : frame.IsWhole

/-- A fragment on its way, with the message that it is the last of, if
it is. -/
structure Parcel where
  streamId : Number
  bytes : Bytes
  completes : Option Frame
deriving DecidableEq, Repr

/-- The fragments of a message, the last of which completes it. -/
def parcels (message : Frame) : List Bytes → List Parcel
  | [] => []
  | [bytes] => [⟨message.streamId, bytes, some message⟩]
  | bytes :: more => ⟨message.streamId, bytes, none⟩ :: parcels message more

namespace Shipment

def parcels (s : Shipment) : List Parcel := Link.parcels s.frame s.fragments

/-- Whether a message belongs to a stream. -/
def isOn (streamId : Number) (s : Shipment) : Bool := s.frame.streamId.key == streamId.key

end Shipment

namespace Parcel

/-- Whether a fragment belongs to a stream. -/
def isOn (streamId : Number) (p : Parcel) : Bool := p.streamId.key == streamId.key

end Parcel

/-- The fragments on the line, in whichever order, are on every stream
those of the messages sent on it, one message after the other. -/
def IsMerge (sent : List Shipment) (line : List Parcel) : Prop :=
  ∀ streamId, line.filter (·.isOn streamId) =
    (sent.filter (·.isOn streamId)).flatMap Shipment.parcels

/-! ## What is still to come on a stream -/

/-- The fragments still to come on a stream go with the chain that is
open on it: each is read and taken, the last of a message and no other
brings the message out, and after all of them no chain is open. -/
inductive Expects : Option Chain → List Parcel → Prop
  | done : Expects none []
  | take {chain? next? : Option Chain} {p : Parcel} {later : List Parcel} {f : Frame} :
      Frame.IsRead f p.bytes → f.streamId.key = p.streamId.key →
      Chain.turn {} none chain? f =
        { chain? := next?, result := .ok (p.completes.map Frame.normal) } →
      Expects next? later → Expects chain? (p :: later)

/-- The fragments of a message may be expected in front of what is
expected after it. -/
theorem expects_parcels {message : Frame} {chain? : Option Chain} {frames : List Frame}
    {fragments : List Bytes} {later : List Parcel}
    (hcompletes : Completes message.normal chain? frames)
    (hread : List.Forall₂ Frame.IsRead frames fragments)
    (hstream : ∀ f ∈ frames, f.streamId = message.streamId.key) (hlater : Expects none later) :
    Expects chain? (parcels message fragments ++ later) := by
  induction hcompletes generalizing fragments with
  | @last chain? f hturn =>
    obtain _ | ⟨hbytes, hnil⟩ := hread
    obtain _ | _ := hnil
    have hkey : f.streamId.key = message.streamId.key := by
      rw [hstream f (List.mem_singleton_self f), Number.key_key]
    exact .take hbytes hkey hturn hlater
  | @more chain? chain f rest hturn hrest ih =>
    obtain _ | ⟨hbytes, hmore⟩ := hread
    have hkey : f.streamId.key = message.streamId.key := by
      rw [hstream f List.mem_cons_self, Number.key_key]
    have hgoes := ih hmore fun g hg => hstream g (List.mem_cons_of_mem _ hg)
    -- A chain does not end without its last fragment.
    obtain _ | ⟨hnext, hend⟩ := hmore
    · cases hrest
    · exact .take hbytes hkey hturn hgoes

/-- **A stream expects the messages that are sent on it.** -/
theorem expects_sent (sent : List Shipment) : Expects none (sent.flatMap Shipment.parcels) := by
  induction sent with
  | nil => exact .done
  | cons s rest ih =>
    obtain ⟨frames, hcompletes, hread, hstream⟩ := Frame.fragments_complete s.fragments_eq s.isWhole
    rw [List.flatMap_cons]
    exact expects_parcels hcompletes hread hstream ih

/-! ## The line -/

namespace Receiver

variable {r : Receiver}

/-- The receiver expects what is on the line, on every stream. -/
structure Ready (r : Receiver) (line : List Parcel) : Prop where
  options_eq : r.assembler.options = {}
  expects : ∀ streamId, Expects (r.assembler.chain? streamId) (line.filter (·.isOn streamId))

/-- **The next fragment is taken**, brings out the message it completes,
and leaves every stream with what it expects. -/
theorem Ready.accept {p : Parcel} {line : List Parcel} (h : r.Ready (p :: line)) :
    ∃ f, Frame.IsRead f p.bytes ∧ (r.accept f).Ready line ∧
      (r.accept f).deliveries.toList =
        r.deliveries.toList ++ (p.completes.map fun m => Delivery.message m.normal).toList ∧
      (r.accept f).notices = r.notices := by
  have hown : (p :: line).filter (·.isOn p.streamId) = p :: line.filter (·.isOn p.streamId) :=
    List.filter_cons_of_pos (by simp [Parcel.isOn])
  have hexpects := h.expects p.streamId
  rw [hown] at hexpects
  generalize hchain : r.assembler.chain? p.streamId = chain? at hexpects
  obtain _ | ⟨hread, hkey, hturn, hrest⟩ := hexpects
  rename_i next? f
  refine ⟨f, hread, ?_⟩
  have hfollows := Assembler.push_follows_default h.options_eq hkey
  rw [hchain, hturn] at hfollows
  obtain ⟨hresult, hnotices, hoptions, hchains⟩ := hfollows
  refine ⟨⟨?_, ?_⟩, ?_, ?_⟩
  · exact hoptions.trans h.options_eq
  · intro streamId
    have hafter : (r.accept f).assembler.chain? streamId =
        if streamId.key = f.streamId.key then next? else r.assembler.chain? streamId :=
      hchains streamId
    rw [hafter]
    split
    · -- On the stream of the fragment the turn is what was expected.
      rename_i hsame
      have hfilter : (fun q : Parcel => q.isOn streamId) = fun q => q.isOn p.streamId := by
        funext q
        rw [Parcel.isOn, Parcel.isOn, hsame, hkey]
      rw [hfilter]
      exact hrest
    · -- On any other stream neither the chain nor what is to come has changed.
      rename_i hother
      have hoff : ¬ p.isOn streamId = true := by
        intro hon
        exact hother ((beq_iff_eq.1 hon).symm.trans hkey.symm)
      have hhere := h.expects streamId
      rwa [List.filter_cons_of_neg hoff] at hhere
  · rw [Receiver.accept]
    dsimp only
    rw [hresult]
    cases p.completes <;> simp
  · rw [Receiver.accept]
    dsimp only
    rw [hnotices]
    simp

/-- **All that is on the line is taken**, the messages come out in the
order of their last fragments, and no chain is left open. -/
theorem Ready.foldl_accept {line : List Parcel} (h : r.Ready line) :
    ∃ frames, List.Forall₂ Frame.IsRead frames (line.map Parcel.bytes) ∧
      (frames.foldl Receiver.accept r).Ready [] ∧
      (frames.foldl Receiver.accept r).deliveries.toList = r.deliveries.toList ++
        (line.filterMap Parcel.completes).map (fun m => Delivery.message m.normal) ∧
      (frames.foldl Receiver.accept r).notices = r.notices := by
  induction line generalizing r with
  | nil => exact ⟨[], .nil, h, (List.append_nil _).symm, rfl⟩
  | cons p later ih =>
    obtain ⟨f, hread, hready, hdeliveries, hnotices⟩ := h.accept
    obtain ⟨frames, hreads, hend, hrest, hquiet⟩ := ih hready
    refine ⟨f :: frames, .cons hread hreads, hend, ?_, hquiet.trans hnotices⟩
    rw [List.foldl_cons, hrest, hdeliveries, List.filterMap_cons, List.append_assoc]
    cases p.completes <;> rfl

/-- Where nothing is expected no chain is open. -/
theorem Ready.chains_eq_nil (h : r.Ready []) : r.assembler.chains = [] := by
  by_contra hne
  obtain ⟨chain, rest, hchains⟩ := List.exists_cons_of_ne_nil hne
  have hexpects := h.expects chain.streamId
  have hopen : r.assembler.chain? chain.streamId = some chain := by
    rw [Assembler.chain?, hchains]
    exact List.find?_cons_of_pos (beq_self_eq_true _)
  rw [hopen] at hexpects
  cases hexpects

end Receiver

/-! ## Every message once -/

/-- The fragments of a message complete it once. -/
theorem filterMap_parcels (message : Frame) {fragments : List Bytes} (hne : fragments ≠ []) :
    (parcels message fragments).filterMap Parcel.completes = [message] := by
  fun_induction parcels message fragments with
  | case1 => exact absurd rfl hne
  | case2 bytes => rfl
  | case3 bytes more hmore ih => exact ih hmore

theorem isOn_of_mem_parcels {message : Frame} {fragments : List Bytes} {p : Parcel}
    (h : p ∈ parcels message fragments) : p.streamId = message.streamId := by
  fun_induction parcels message fragments with
  | case1 => cases h
  | case2 bytes => rw [List.mem_singleton.1 h]
  | case3 bytes more hmore ih =>
    rcases List.mem_cons.1 h with rfl | hlater
    · rfl
    · exact ih hlater

namespace Shipment

/-- Something is sent for every message. -/
theorem fragments_ne_nil (s : Shipment) : s.fragments ≠ [] := by
  obtain ⟨frames, hcompletes, hread, -⟩ := Frame.fragments_complete s.fragments_eq s.isWhole
  intro hnil
  rw [hnil] at hread
  cases hread
  cases hcompletes

/-- On a stream are the fragments of the messages on it. -/
theorem filter_parcels (sent : List Shipment) (streamId : Number) :
    (sent.flatMap parcels).filter (·.isOn streamId) =
      (sent.filter (·.isOn streamId)).flatMap parcels := by
  induction sent with
  | nil => rfl
  | cons s rest ih =>
    have hsame : ∀ p ∈ s.parcels, p.isOn streamId = s.isOn streamId := by
      intro p hp
      rw [Parcel.isOn, isOn, isOn_of_mem_parcels hp]
    rw [List.flatMap_cons, List.filter_append, ih]
    cases hon : s.isOn streamId with
    | true =>
      rw [List.filter_cons_of_pos hon, List.flatMap_cons,
        List.filter_eq_self.2 fun p hp => (hsame p hp).trans hon]
    | false =>
      rw [List.filter_cons_of_neg (by simp [hon]),
        List.filter_eq_nil_iff.2 fun p hp => by simp [hsame p hp, hon], List.nil_append]

theorem filterMap_completes (sent : List Shipment) :
    (sent.flatMap parcels).filterMap Parcel.completes = sent.map frame := by
  induction sent with
  | nil => rfl
  | cons s rest ih =>
    rw [List.flatMap_cons, List.filterMap_append, ih, parcels,
      filterMap_parcels s.frame s.fragments_ne_nil]
    rfl

end Shipment

/-! ## Merges -/

variable {sent : List Shipment} {line : List Parcel}

/-- The messages may be sent one after the other. -/
theorem isMerge_parcels (sent : List Shipment) : IsMerge sent (sent.flatMap Shipment.parcels) :=
  fun streamId => Shipment.filter_parcels sent streamId

/-- Fragments on different streams may change places. -/
theorem IsMerge.swap {p q : Parcel} (before after : List Parcel)
    (h : IsMerge sent (before ++ p :: q :: after)) (hne : p.streamId.key ≠ q.streamId.key) :
    IsMerge sent (before ++ q :: p :: after) := by
  intro streamId
  rw [← h streamId, List.filter_append, List.filter_append]
  congr 1
  by_cases hq : q.isOn streamId = true
  · have hp : ¬ p.isOn streamId = true := fun hp =>
      hne ((beq_iff_eq.1 hp).trans (beq_iff_eq.1 hq).symm)
    rw [List.filter_cons_of_pos hq, List.filter_cons_of_neg hp, List.filter_cons_of_neg hp,
      List.filter_cons_of_pos hq]
  · simp only [List.filter_cons, if_neg hq]

/-- **Every message is on the line once.** -/
theorem IsMerge.completes_perm (h : IsMerge sent line) :
    (line.filterMap Parcel.completes).Perm (sent.map Shipment.frame) := by
  have hperm : line.Perm (sent.flatMap Shipment.parcels) := by
    rw [List.perm_iff_count]
    intro p
    have hon : p.isOn p.streamId = true := beq_self_eq_true _
    rw [← List.count_filter hon, h p.streamId, ← Shipment.filter_parcels, List.count_filter hon]
  rw [← Shipment.filterMap_completes]
  exact hperm.filterMap _

/-! ## The whole way -/

/-- **Transport is lossless.** Whatever is sent on however many streams,
in whichever order the streams take turns, and wherever the byte stream
is cut: the messages come out in the order in which their last fragments
are sent, every message once and in normal form, which is with the flags
it is sent with and without a sign on zero. Nothing is refused or
unreadable, and afterwards nothing is pending and no byte waits. -/
theorem transport_lossless {chunks : List Bytes} (hmerge : IsMerge sent line)
    (hcut : chunks.flatten = (line.map fun p => delimited p.bytes).flatten) :
    let r := chunks.foldl Receiver.feed {}
    r.deliveries.toList =
        (line.filterMap Parcel.completes).map (fun m => Delivery.message m.normal) ∧
      (line.filterMap Parcel.completes).Perm (sent.map Shipment.frame) ∧
      (∀ s ∈ sent, ∃ flags, s.frame.wireFlags = .ok flags ∧
        s.frame.normal = ⟨s.frame.streamId.key, .ofFlags flags, s.frame.body.normal⟩) ∧
      r.assembler.pending = [] ∧ r.notices = #[] ∧
      r.session.deframer.failed = false ∧ r.session.deframer.buffered = 0 := by
  intro r
  have hready : Receiver.Ready {} line := by
    refine ⟨rfl, ?_⟩
    intro streamId
    rw [hmerge streamId]
    exact expects_sent _
  -- The line is read as frames, and those are what the chunks hold.
  obtain ⟨frames, hread, hend, hdeliveries, hnotices⟩ := hready.foldl_accept
  have hstream : chunks.flatten = ((line.map Parcel.bytes).map delimited).flatten := by
    rw [hcut, List.map_map]
    rfl
  obtain ⟨session, hfeed, hopen, hempty⟩ := Receiver.feed_delimited hread hstream
  have hr : r = { frames.foldl Receiver.accept {} with session } := hfeed
  rw [hr]
  refine ⟨?_, hmerge.completes_perm, ?_, ?_, hnotices, hopen, hempty⟩
  · rw [hdeliveries]
    rfl
  · intro s _
    obtain ⟨-, total, hsize, -⟩ := Frame.fragments_cases s.fragments_eq
    obtain ⟨kind, hkind⟩ := Frame.exists_kind_of_size hsize
    obtain ⟨flags, hflags⟩ := Frame.exists_wireFlags hkind
    exact ⟨flags, hflags, Frame.normal_of_wireFlags hflags⟩
  · rw [Assembler.pending, hend.chains_eq_nil]
    rfl

/-- A request in two fragments with a sign of life between them, cut
within the first length: the sign of life comes out first. -/
theorem transport_lossless_keepAlive :
    let request : Frame :=
      ⟨.ofNat 1, .ofNat 0, .message .requestResponse ⟨none, List.replicate 60 7⟩⟩
    let ping : Frame := ⟨.ofNat 0, .ofWord Flag.respond, .keepAlive .negZero []⟩
    let first : Bytes := [0, 0, 0, 1, 16, 128] ++ List.replicate 58 7
    let between : Bytes := [0, 0, 0, 0, 12, 128, 0, 0, 0, 0, 0, 0, 0, 0]
    let last : Bytes := [0, 0, 0, 1, 40, 32, 7, 7]
    request.fragments (.ofNat 64) = .ok [first, last] ∧ ping.fragments (.ofNat 64) = .ok [between] ∧
      ([[0], [0, 64] ++ first ++ delimited between, delimited last].foldl
        Receiver.feed {}).deliveries.toList = [.message ping.normal, .message request.normal] := by
  intro request ping first between last
  have hrequest : request.fragments (.ofNat 64) = .ok [first, last] := by decide +kernel
  have hping : ping.fragments (.ofNat 64) = .ok [between] := by decide +kernel
  refine ⟨hrequest, hping, ?_⟩
  have hwhole : request.flags.hasFlag Flag.follows = false := by decide
  have hwhole' : ping.IsWhole := by rintro _ _ ⟨⟩
  let sent : List Shipment :=
    [⟨request, .ofNat 64, _, hrequest, fun _ _ _ => hwhole⟩, ⟨ping, .ofNat 64, _, hping, hwhole'⟩]
  let line : List Parcel :=
    [⟨.ofNat 1, first, none⟩, ⟨.ofNat 0, between, some ping⟩, ⟨.ofNat 1, last, some request⟩]
  have hne : Number.ofNat 1 ≠ .ofNat 0 := by decide
  have hmerge : IsMerge sent line :=
    (isMerge_parcels sent).swap [⟨.ofNat 1, first, none⟩] [] hne
  have hcut : [[0], [0, 64] ++ first ++ delimited between, delimited last].flatten =
      (line.map fun p => delimited p.bytes).flatten := by
    decide +kernel
  exact (transport_lossless hmerge hcut).1

end Link

end StreamWire

import StreamWire.Proofs.Frame.Readers
import StreamWire.Proofs.Message.Delivery
/-!
# Refusals — when nothing is sent for a frame

A frame is sent whole or split, and either way it is judged by what it is
made of. Of a message only the stream id and the request count can be at
fault (`Frame.FieldFault`): they stand on its first fragment, and the
later ones have nothing left to be refused for. So it does not depend on
the size asked for whether a message is refused, nor for what
(`Frame.fragments_eq_error_iff`), and where its metadata has a length it
is refused exactly if it is not encoded.
-/

namespace StreamWire

/-- A value that is no size to split to is refused. -/
theorem FragmentLimit.ofNumber_eq_error {x : Number}
    (h : ¬ ∃ n, x = .ofNat n ∧ Wire.minFragmentSize ≤ n ∧ n ≤ Wire.maxFrameLength) :
    ofNumber x = .error (.invalidFragmentSize x) := by
  unfold ofNumber
  split
  · rename_i n hn
    refine dif_neg fun hrange => h ⟨n, ?_, hrange⟩
    have hpos : Wire.minFragmentSize ≠ 0 := by decide
    exact Number.eq_ofNat_of_key (Number.toNat?_eq_some_iff.1 hn) (by omega)
  · rfl

namespace Frame

variable {f : Frame} {head : Head} {payload : Payload} {limit : FragmentLimit} {fault : Fault}

/-! ## The fields of a message -/

/-- What keeps a message of a kind from being sent, however it is split:
its stream is the connection itself, or no stream, or it asks for a number
of answers that is no request count. The stream id is judged first. -/
inductive FieldFault (f : Frame) (kind : FrameKind) : Fault → Prop
  | connection : f.streamId.key = .ofNat 0 → FieldFault f kind (.unsendable kind f.streamId)
  | streamId : (∀ id ≤ Wire.maxStreamId, f.streamId.key ≠ .ofNat id) →
      FieldFault f kind (.invalidStreamId f.streamId)
  | requestN {id : Nat} {count : Number} :
      f.streamId.key = .ofNat id → id ≠ 0 → id ≤ Wire.maxStreamId →
      f.body.requestN? = some count → (∀ n ≤ Wire.maxRequestN, count.key ≠ .ofNat n) →
      FieldFault f kind (.invalidRequestN count)

theorem requestN?_of_message (hbody : f.body = .message head payload) :
    f.body.requestN? = head.initialN? := by
  rw [hbody]
  cases head <;> rfl

/-- The fixed fields of a message are refused for its request count. -/
theorem fixedFields_eq_error (hbody : f.body = .message head payload) {count : Number}
    (hcount : f.body.requestN? = some count) (h : ∀ n ≤ Wire.maxRequestN, count.key ≠ .ofNat n) :
    f.body.fixedFields = .error (.invalidRequestN count) := by
  rw [requestN?_of_message hbody] at hcount
  rw [hbody]
  cases head with
  | requestStream initialN =>
    cases hcount
    exact numberField_eq_error h
  | requestChannel initialN =>
    cases hcount
    exact numberField_eq_error h
  | _ => cases hcount

/-- **A fault of a field is what encoding is refused for**, before the
metadata is looked at. -/
theorem FieldFault.encode_eq (h : f.FieldFault head.kind fault)
    (hbody : f.body = .message head payload) : f.encode = .error fault := by
  have hkind := kind_of_message hbody
  have hscope := scope_allows_iff head f.streamId
  have hparts : f.parts = .error fault := by
    cases h with
    | connection hzero => exact parts_of_scope hkind fun hallows => hscope.1 hallows hzero
    | streamId hnone =>
      exact parts_of_streamId hkind (hscope.2 (hnone 0 (Nat.zero_le _)))
        (Number.toNatUpTo?_eq_none_iff.2 hnone)
    | @requestN id count hkey hne hle hcount hnone =>
      have hnonzero : f.streamId.key ≠ .ofNat 0 := by
        rw [hkey]
        exact fun hsame => hne (Number.ofNat_injective hsame)
      exact parts_of_fixedFields hkind (hscope.2 hnonzero)
        (StreamId.ofNumber?_eq_some_iff.2 ⟨hkey, hle⟩) (fixedFields_eq_error hbody hcount hnone)
  rw [Frame.encode_eq, hparts]
  rfl

/-- The first fragment has the fields of the message. -/
theorem FieldFault.opening (h : f.FieldFault head.kind fault)
    (hbody : f.body = .message head payload) (piece : Piece) :
    (f.opening head piece).FieldFault head.kind fault := by
  have hcounts : (f.opening head piece).body.requestN? = f.body.requestN? := by
    rw [requestN?_of_message rfl, requestN?_of_message hbody]
  cases h with
  | connection hzero => exact .connection hzero
  | streamId hnone => exact .streamId hnone
  | requestN hkey hne hle hcount hnone =>
    exact .requestN hkey hne hle (hcounts.trans hcount) hnone

/-- A message has a field at fault, or it may be sent. -/
theorem exists_fieldFault_or_isSendable (hbody : f.body = .message head payload) :
    (∃ fault, f.FieldFault head.kind fault) ∨ f.IsSendable head payload := by
  have hcounts := requestN?_of_message hbody
  by_cases hzero : f.streamId.key = .ofNat 0
  · exact .inl ⟨_, .connection hzero⟩
  rcases hid : StreamId.ofNumber? f.streamId with _ | id
  · exact .inl ⟨_, .streamId (Number.toNatUpTo?_eq_none_iff.1 hid)⟩
  obtain ⟨hkey, hle⟩ := StreamId.ofNumber?_eq_some_iff.1 hid
  have hne : id ≠ 0 := by
    rintro rfl
    exact hzero hkey
  by_cases hvalid : ∀ n ∈ head.initialN?, ∃ count, n.toNatUpTo? Wire.maxRequestN = some count
  · exact .inr ⟨hbody, ⟨id, hid, hne⟩, hvalid⟩
  · simp only [not_forall, exists_prop] at hvalid
    obtain ⟨count, hcount, hnone⟩ := hvalid
    rw [← Option.isSome_iff_exists, Bool.not_eq_true, Option.isSome_eq_false_iff,
      Option.isNone_iff_eq_none, Number.toNatUpTo?_eq_none_iff] at hnone
    exact .inl ⟨_, .requestN hkey hne hle (hcounts.trans hcount) hnone⟩

/-- What is refused for a fault of a field, and succeeds for a message that
may be sent, is refused for nothing else. -/
theorem eq_error_iff_fieldFault {α : Type} {x : Except Fault α}
    (hbody : f.body = .message head payload)
    (hfault : ∀ fault, f.FieldFault head.kind fault → x = .error fault)
    (hsent : f.IsSendable head payload → ∃ value, x = .ok value) :
    x = .error fault ↔ f.FieldFault head.kind fault := by
  refine ⟨fun hrefused => ?_, hfault fault⟩
  rcases exists_fieldFault_or_isSendable hbody with ⟨other, h⟩ | h
  · have hsame := hrefused.symm.trans (hfault other h)
    injection hsame with hsame
    exact hsame ▸ h
  · obtain ⟨value, hvalue⟩ := hsent h
    rw [hvalue] at hrefused
    cases hrefused

/-! ## Whole or split -/

/-- A fault of a field is refused whatever size is asked for: a message
that does not fit is refused with its first fragment. -/
theorem FieldFault.fragments_eq (h : f.FieldFault head.kind fault)
    (hbody : f.body = .message head payload) {maximum : Number}
    (hlimit : FragmentLimit.ofNumber maximum = .ok limit) :
    f.fragments maximum = .error fault := by
  rw [fragments_of_message hbody hlimit (size_of_message hbody)]
  split
  · rw [h.encode_eq hbody]
    rfl
  · rw [split_eq, List.mapM_cons, (h.opening hbody _).encode_eq rfl]
    rfl

/-- **A message is refused for its fields only**, and for the same fault
whatever size is asked for. -/
theorem fragments_eq_error_iff (hbody : f.body = .message head payload) {maximum : Number}
    (hlimit : FragmentLimit.ofNumber maximum = .ok limit) :
    f.fragments maximum = .error fault ↔ f.FieldFault head.kind fault := by
  refine eq_error_iff_fieldFault hbody (fun _ h => h.fragments_eq hbody hlimit) fun h => ?_
  obtain ⟨chain, hchain, -⟩ := h.exists_fragments hlimit
  exact ⟨chain, hchain⟩

/-- Encoding a message whole is refused for its fields only, unless its
metadata is too long for its length. -/
theorem encode_eq_error_iff (hbody : f.body = .message head payload)
    (hshort : (f.metadata.getD []).length ≤ Wire.maxMetadataLength) :
    f.encode = .error fault ↔ f.FieldFault head.kind fault :=
  eq_error_iff_fieldFault hbody (fun _ h => h.encode_eq hbody) fun h => h.exists_bytes hshort

/-- A frame of another kind is not split. -/
theorem fragments_unsplittable {kind : FrameKind} (hkind : f.kind = .ok kind)
    (hwhole : kind.traits.fragmentable = false) {maximum : Number}
    (hlimit : FragmentLimit.ofNumber maximum = .ok limit) {size : Nat} (hsize : f.size = .ok size)
    (hlong : limit.bytes < size) :
    f.fragments maximum = .error (.unsplittable kind size limit.bytes) := by
  rw [fragments, hlimit, hsize]
  simp only [bind, Except.bind, if_neg (Nat.not_le.2 hlong)]
  split
  · rename_i head payload hbody
    cases (kind_of_message hbody).symm.trans hkind
    cases head <;> cases hwhole
  · rw [hkind]
    rfl

theorem exists_message_of_fragmentable {kind : FrameKind} (hkind : f.kind = .ok kind)
    (h : kind.traits.fragmentable = true) :
    ∃ head, f.body = .message head f.payload ∧ head.kind = kind := by
  have hfragmentable : f.isFragmentable = .ok true := by
    rw [isFragmentable, hkind, ← h]
    rfl
  obtain ⟨head, hbody⟩ := isFragmentable_eq_true_iff.1 hfragmentable
  exact ⟨head, hbody, Except.ok.inj ((kind_of_message hbody).symm.trans hkind)⟩

/-- **A frame is refused exactly when it has to be.** A value that is no
size to split to is refused whatever the frame; then a type that no kind
has. A frame that fits is sent whole, or refused as it is when encoded, and
one that does not fit is refused if its kind is never split. A message is
refused for its stream id and its request count only, however long its
metadata is, and encoding refuses it for the same fault; where its metadata
has a length, encoding refuses it for no other. -/
theorem fragments_refusals (f : Frame) (maximum : Number) :
    ((¬ ∃ n, maximum = .ofNat n ∧ Wire.minFragmentSize ≤ n ∧ n ≤ Wire.maxFrameLength) →
      f.fragments maximum = .error (.invalidFragmentSize maximum) ∧
        (Fault.invalidFragmentSize maximum).category = .range) ∧
    ∀ n, maximum = .ofNat n → Wire.minFragmentSize ≤ n → n ≤ Wire.maxFrameLength →
      (FrameKind.ofCode? f.typeCode = none →
        f.fragments maximum = .error (.unknownType f.typeCode) ∧
          (Fault.unknownType f.typeCode).category = .unknownFrameType) ∧
      ∀ kind, FrameKind.ofCode? f.typeCode = some kind → ∃ size, f.size = .ok size ∧
        (size ≤ n → f.fragments maximum = f.encode.map fun bytes => [bytes]) ∧
        (n < size → kind.traits.fragmentable = false →
          f.fragments maximum = .error (.unsplittable kind size n) ∧
            (Fault.unsplittable kind size n).category = .range) ∧
        (kind.traits.fragmentable = true → ∀ fault,
          (f.fragments maximum = .error fault ↔ f.FieldFault kind fault) ∧
          (f.FieldFault kind fault → f.encode = .error fault) ∧
          ((f.metadata.getD []).length ≤ Wire.maxMetadataLength →
            (f.fragments maximum = .error fault ↔ f.encode = .error fault))) := by
  constructor
  · intro hout
    rw [fragments, FragmentLimit.ofNumber_eq_error hout]
    exact ⟨rfl, rfl⟩
  intro n hmaximum hmin hmax
  have hlimit : FragmentLimit.ofNumber maximum = .ok ⟨n, hmin, hmax⟩ := by
    rw [FragmentLimit.ofNumber_eq_ok_iff, hmaximum, Number.key_ofNat]
  have hresolve : f.kind = resolveKind f.typeCode := Body.kind_eq_resolveKind f.body
  constructor
  · intro hnone
    rw [resolveKind, hnone] at hresolve
    rw [fragments, hlimit, size, hresolve]
    exact ⟨rfl, rfl⟩
  intro kind hsome
  rw [resolveKind, hsome] at hresolve
  have hsize := size_of_kind hresolve
  refine ⟨_, hsize, ?_, ?_, ?_⟩
  · intro hfits
    rw [fragments, hlimit, hsize]
    simp only [bind, Except.bind, if_pos hfits]
    cases f.encode <;> rfl
  · intro hlong hwhole
    exact ⟨fragments_unsplittable hresolve hwhole hlimit hsize hlong, rfl⟩
  · intro hsplit fault
    obtain ⟨head, hbody, rfl⟩ := exists_message_of_fragmentable hresolve hsplit
    have hrefused := @fragments_eq_error_iff f head f.payload _ fault hbody maximum hlimit
    refine ⟨hrefused, fun h => h.encode_eq hbody, fun hshort => ?_⟩
    rw [hrefused, encode_eq_error_iff hbody hshort]

/-- A size that is no whole number, a stream that is none with a frame that
does not fit and one that does, and an error too long for one frame. -/
theorem fragments_refusals_payload :
    let half : Number := .fraction 129 0 (by decide)
    let stray : Frame := ⟨.whole (-1), .ofNat 0, .message .payload ⟨none, List.replicate 70 1⟩⟩
    let long : Frame := ⟨.ofNat 1, .ofNat 0, .error (.ofNat 0) (List.replicate 70 1)⟩
    stray.fragments half = .error (.invalidFragmentSize half) ∧
      stray.fragments (.ofNat 64) = .error (.invalidStreamId (.whole (-1))) ∧
      stray.fragments (.ofNat 100) = .error (.invalidStreamId (.whole (-1))) ∧
      stray.encode = .error (.invalidStreamId (.whole (-1))) ∧
      long.fragments (.ofNat 64) = .error (.unsplittable .error 80 64) := by
  intro half stray long
  have hhalf : ¬ ∃ n, half = .ofNat n ∧ Wire.minFragmentSize ≤ n ∧ n ≤ Wire.maxFrameLength := by
    rintro ⟨n, hn, -⟩
    cases show Number.fraction 129 0 (by decide) = .whole n from hn
  have hfault : stray.FieldFault .payload (.invalidStreamId (.whole (-1))) := by
    refine .streamId fun id _ hkey => ?_
    injection hkey with hkey
    omega
  have hstray (n : Nat) (hmin : Wire.minFragmentSize ≤ n) (hmax : n ≤ Wire.maxFrameLength) :
      stray.fragments (.ofNat n) = .error (.invalidStreamId (.whole (-1))) ∧
        stray.encode = .error (.invalidStreamId (.whole (-1))) := by
    obtain ⟨-, -, -, -, hsplit⟩ :=
      ((fragments_refusals stray (.ofNat n)).2 n rfl hmin hmax).2 .payload rfl
    obtain ⟨hsent, hencode, -⟩ := hsplit rfl (.invalidStreamId (.whole (-1)))
    exact ⟨hsent.2 hfault, hencode hfault⟩
  obtain ⟨size, hsize, -, hwhole, -⟩ :=
    ((fragments_refusals long (.ofNat 64)).2 64 rfl (by decide) (by decide)).2 .error rfl
  cases hsize
  exact ⟨((fragments_refusals stray half).1 hhalf).1, (hstray 64 (by decide) (by decide)).1,
    (hstray 100 (by decide) (by decide)).1, (hstray 100 (by decide) (by decide)).2,
    (hwhole (by decide) rfl).1⟩

end Frame

end StreamWire

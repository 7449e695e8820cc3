import QtDataSync.Messages.Message

/-!
# Messages.RoundTrip — what is written is read back

A message that has been serialized is restored, whatever follows it, exactly if all its texts are `Streamable`: the
operator `>>` of `Utf8String` refuses the others, which the operator `<<` has written.  A message that has lost its
end is always refused.
-/

namespace QtDataSync.Messages

open QDataStream

/-! ## The values that are read back -/

def StreamableText (t : Option Text) : Prop := ∀ s ∈ t, QtDataSync.Streamable s.1

/-- The texts of a value are read back. -/
def MetaType.Streamable : (t : MetaType) → t.Value → Prop
  | .utf8String, v => StreamableText v
  | .deviceInfos, v => ∀ d ∈ Subtype.val v, StreamableText d.2.1
  | _, _ => True

/-- The texts of all properties are read back. -/
def Properties.Streamable : (ps : List Property) → Properties ps → Prop
  | [], _ => True
  | p :: ps, (data, message) => p.type.Streamable data ∧ Streamable ps message

/-- No text of the message contains a null character or begins with a byte order mark. -/
def Message.Streamable (m : Message) : Prop := Properties.Streamable m.type.metaObject m.properties

theorem MetaType.valid_codec (t : MetaType) (v : t.Value) : t.codec.valid v = true ↔ t.Streamable v := by
  rcases t with _ | _ | _ | _ | _ | _ | _ | _ | _ | _ | _ | _
  · exact iff_of_true rfl trivial
  · exact iff_of_true rfl trivial
  · exact iff_of_true rfl trivial
  · exact iff_of_true rfl trivial
  · exact iff_of_true (valid_byteArray v) trivial
  · exact valid_utf8String v
  · exact iff_of_true (valid_string v) trivial
  · exact iff_of_true rfl trivial
  · exact iff_of_true ((valid_list v).mpr fun _ _ => rfl) trivial
  · refine (valid_list v).trans (forall₂_congr fun d _ => ?_)
    have hd : (QDataStream.uuid.prod (QDataStream.utf8String.prod QDataStream.byteArray)).valid d =
        (true && (QDataStream.utf8String.valid d.2.1 && QDataStream.byteArray.valid d.2.2)) := rfl
    rw [hd, valid_byteArray, Bool.true_and, Bool.and_true]
    exact valid_utf8String d.2.1
  · refine iff_of_true ((valid_list v).mpr fun d _ => ?_) trivial
    have hd : (QDataStream.uuid.prod (QDataStream.byteArray.prod
        (QDataStream.byteArray.prod QDataStream.byteArray))).valid d =
        (true && (QDataStream.byteArray.valid d.2.1 && (QDataStream.byteArray.valid d.2.2.1 &&
          QDataStream.byteArray.valid d.2.2.2))) := rfl
    rw [hd, valid_byteArray, valid_byteArray, valid_byteArray]
    rfl
  · refine iff_of_true ((valid_list v).mpr fun d _ => ?_) trivial
    have hd : (QDataStream.uuid.prod (QDataStream.byteArray.prod QDataStream.byteArray)).valid d =
        (true && (QDataStream.byteArray.valid d.2.1 && QDataStream.byteArray.valid d.2.2)) := rfl
    rw [hd, valid_byteArray, valid_byteArray]
    rfl

theorem Properties.valid_codec (ps : List Property) (message : Properties ps) :
    (codec ps).valid message = true ↔ Streamable ps message := by
  induction ps with
  | nil => exact iff_of_true rfl trivial
  | cons p ps ih =>
    obtain ⟨data, message⟩ := message
    have hv : (codec (p :: ps)).valid (data, message) = (p.type.codec.valid data && (codec ps).valid message) := rfl
    rw [hv, Bool.and_eq_true, p.type.valid_codec, ih]
    rfl

namespace Message

/-- The message passes `validate`, which leaves it as it is. -/
def Passes (m : Message) : Prop := validate m.type m.properties = .ok (true, m.properties)

/-- Reading the name and then the message from `data` restores `m`, and stops at the end of it. -/
def Restored (m : Message) (data : List UInt8) : Prop :=
  ∃ t u, exec readName (.ofByteArray data) = (.ok (some m.type.messageName), t) ∧
    exec (deserializeMessageTo m.type) t = (.ok m.properties, u) ∧ u.pos = m.serialize.length

/-- From `data` no message of any type is read. -/
def Refused (data : List UInt8) : Prop :=
  ∀ name t, exec readName (.ofByteArray data) = (.ok name, t) → ∀ T : MessageType, T.isType name →
    ∃ e u, exec (deserializeMessageTo T) t = (.error e, u)

/-- The round trip of a message: it is restored whatever follows it, and refused if it has lost its end. -/
structure RoundTrips (m : Message) : Prop where
  restored : ∀ tail, m.Restored (m.serialize ++ tail)
  truncated : ∀ data, data <+: m.serialize → data ≠ m.serialize → Refused data

/-! ## Messages that are restored -/

/-- The name of a message is read, and then its properties are next. -/
theorem exec_readName_serialize (m : Message) (tail : List UInt8) :
    ∃ t, exec readName (.ofByteArray (m.serialize ++ tail)) = (.ok (some m.type.messageName), t) ∧
      t.transactionDepth = 0 ∧ t.rest = Properties.save m.type.metaObject m.properties ++ tail ∧
      t.pos = (byteArray.encode (some m.type.messageName)).length := by
  have hrest : (ofByteArray (m.serialize ++ tail)).rest = byteArray.encode (some m.type.messageName) ++
      (Properties.save m.type.metaObject m.properties ++ tail) := List.append_assoc _ _ _
  have hname := byteArray.decode_append (valid_byteArray (some m.type.messageName))
    (Properties.save m.type.metaObject m.properties ++ tail)
  rw [← hrest] at hname
  obtain ⟨w, hw, hexec⟩ := exec_readName rfl hname
  have hlen : w = byteArray.encode (some m.type.messageName) := List.append_cancel_right (hw.symm.trans hrest)
  refine ⟨_, hexec, rfl, rest_committed hw, ?_⟩
  show 0 + w.length = _
  rw [hlen, Nat.zero_add]

theorem restored_iff {m : Message} (hm : m.Passes) (tail : List UInt8) :
    m.Restored (m.serialize ++ tail) ↔ m.Streamable := by
  obtain ⟨t, ht, hd, hrest, hpos⟩ := m.exec_readName_serialize tail
  have hdec := (Properties.codec m.type.metaObject).decode_encode m.properties tail
  rw [Properties.encode_codec, ← hrest] at hdec
  constructor
  · rintro ⟨t', u, ht', hu, -⟩
    rw [ht, Prod.mk.injEq] at ht'
    obtain ⟨-, rfl⟩ := ht'
    by_contra hs
    rw [if_neg (mt (Properties.valid_codec _ _).mp hs)] at hdec
    obtain ⟨e, v, hv⟩ := exec_deserializeMessageTo_error hd hdec
    rw [hv] at hu
    exact nomatch hu
  · intro hs
    rw [if_pos ((Properties.valid_codec _ _).mpr hs)] at hdec
    obtain ⟨w, hw, hexec⟩ := exec_deserializeMessageTo hd hdec
    rw [hm] at hexec
    refine ⟨t, _, ht, hexec, ?_⟩
    have hlen := congrArg List.length (hrest.symm.trans hw)
    rw [List.length_append, List.length_append] at hlen
    show t.pos + w.length = (byteArray.encode (some m.type.messageName) ++ _).length
    rw [hpos, List.length_append]
    omega

/-! ## Messages that have lost their end -/

theorem refused_of_decode_name {data : List UInt8} (h : byteArray.decode.run data = none) : Refused data := by
  intro name t ht
  obtain ⟨e, u, hu⟩ := exec_readName_error (s := .ofByteArray data) rfl h
  rw [hu] at ht
  exact nomatch ht

theorem refused_of_truncated {m : Message} {data : List UInt8} (h : data <+: m.serialize) (hne : data ≠ m.serialize) :
    Refused data := by
  obtain ⟨x, hx⟩ := h
  have hx0 : x ≠ [] := by
    rintro rfl
    exact hne (by rw [← hx, List.append_nil])
  have hname := byteArray.decode_append (valid_byteArray (some m.type.messageName))
    (Properties.save m.type.metaObject m.properties)
  rcases hdata : byteArray.decode.run data with _ | ⟨name, r⟩
  · exact refused_of_decode_name hdata
  · -- the whole name is there, and what is missing is missing from the properties
    obtain ⟨w, hw, hread⟩ := byteArray.decode_local hdata
    have hall : byteArray.decode.run m.serialize = some (name, r ++ x) := by
      rw [← hx, hw, List.append_assoc]
      exact hread (r ++ x)
    rw [serialize, hname, Option.some.injEq, Prod.mk.injEq] at hall
    obtain ⟨rfl, hr⟩ := hall
    intro name t ht T hT
    obtain ⟨v, hv, hexec⟩ := exec_readName (s := .ofByteArray data) rfl hdata
    rw [hexec, Prod.mk.injEq] at ht
    obtain ⟨hname', rfl⟩ := ht
    rw [MessageType.isType_iff, ← Except.ok.inj hname', Option.some.injEq] at hT
    obtain rfl := MessageType.messageName_injective hT
    refine exec_deserializeMessageTo_error rfl ?_
    rw [rest_committed hv]
    exact (Properties.codec _).decode_truncated (by rw [Properties.encode_codec]; exact hr.symm) hx0

/-- A message makes the round trip exactly if none of its texts contains a null character or begins with a byte
order mark. -/
theorem roundTrips_iff (m : Message) (hm : m.Passes) : m.RoundTrips ↔ m.Streamable := by
  constructor
  · intro h
    exact (restored_iff hm []).mp (h.restored [])
  · intro h
    exact ⟨fun tail => (restored_iff hm tail).mpr h, fun _ => refused_of_truncated⟩

/-- A login from a device of this name. -/
def login (deviceName : Text) : Message :=
  ⟨.Login, (⟨[1], by decide⟩, some ⟨List.replicate 16 0, by decide⟩, nullUuid, some deviceName, ())⟩

theorem passes_login (deviceName : Text) : (login deviceName).Passes := rfl

theorem streamable_login {deviceName : Text} : (login deviceName).Streamable ↔ QtDataSync.Streamable deviceName.1 := by
  constructor
  · intro h
    exact h.2.2.2.1 deviceName rfl
  · intro h
    refine ⟨trivial, trivial, trivial, fun s hs => ?_, trivial⟩
    rw [← Option.some.inj hs]
    exact h

theorem roundTrips_login : (login ⟨"PC", by decide⟩).RoundTrips :=
  (roundTrips_iff _ (passes_login _)).mpr (streamable_login.mpr (by decide))

/-- A null character in the name of a device, or a byte order mark at its beginning, and the server refuses its
messages. -/
theorem login_not_restored :
    ((login ⟨"P\x00C", by decide⟩).Passes ∧ ¬ (login ⟨"P\x00C", by decide⟩).RoundTrips) ∧
      (login ⟨"\uFEFFPC", by decide⟩).Passes ∧ ¬ (login ⟨"\uFEFFPC", by decide⟩).RoundTrips := by
  refine ⟨⟨passes_login _, fun h => ?_⟩, passes_login _, fun h => ?_⟩
  · exact absurd (streamable_login.mp ((restored_iff (passes_login _) []).mp (h.restored []))) (by decide)
  · exact absurd (streamable_login.mp ((restored_iff (passes_login _) []).mp (h.restored []))) (by decide)

end Message

end QtDataSync.Messages

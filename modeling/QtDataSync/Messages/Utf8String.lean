import Mathlib.Data.List.TakeWhile
import QtDataSync.Messages.DataStream

/-!
# Messages.Utf8String — strings that are streamed as UTF-8

`Utf8String` writes `toUtf8()` as a byte array, and reads a byte array whose text has these very bytes as its
`toUtf8()`; any other aborts the stream.  A `QString` is the Unicode text that it holds, and may be null.
-/

namespace QtDataSync

/-- `QString::toUtf8`. -/
def toUtf8 (s : String) : List UInt8 := s.toList.flatMap String.utf8EncodeChar

/-- The loop of `QUtf8::convertToUnicode`: a byte that begins no character becomes a replacement character. -/
def convertToUnicode : ℕ → List UInt8 → List Char
  | 0, _ => []
  | _ + 1, [] => []
  | n + 1, b :: l =>
    match (b :: l).toByteArray.utf8DecodeChar? 0 with
    | some c => c :: convertToUnicode n ((b :: l).drop c.utf8Size)
    | none => '\uFFFD' :: convertToUnicode n l

def utf8bom : List UInt8 := [0xEF, 0xBB, 0xBF]

/-- `QString::fromUtf8(const QByteArray &)`: the text ends at the first null byte, and a byte order mark at its
beginning is left out. -/
def fromUtf8 (m : List UInt8) : String :=
  let m := m.takeWhile (· ≠ 0)
  let m := if utf8bom <+: m then m.drop 3 else m
  String.ofList (convertToUnicode m.length m)

/-- A text whose UTF-8 form fits into a byte array. -/
abbrev Text := {s : String // (toUtf8 s).length < 0xFFFFFFFF}

def Text.toUtf8 (t : Text) : Bytes := ⟨QtDataSync.toUtf8 t.1, t.2⟩

namespace QDataStream

/-- `operator>>(QDataStream &, Utf8String &)`; the text of an aborted stream is not used. -/
def readUtf8String : Read (Option Text) := do
  startTransaction
  match ← readByteArray with
  | none =>
    let _ ← commitTransaction
    return none
  | some m =>
    if h : toUtf8 (fromUtf8 m.1) = m.1 then
      let _ ← commitTransaction
      return some ⟨fromUtf8 m.1, by rw [h]; exact m.2⟩
    else
      abortTransaction
      return none

end QDataStream

/-! ## Texts that are read back -/

theorem toUtf8_injective {s t : String} (h : toUtf8 s = toUtf8 t) : s = t := by
  have hl : s.toList.utf8Encode = t.toList.utf8Encode := congrArg List.toByteArray h
  have hd : s.toList.toArray = t.toList.toArray := by
    rw [← Option.some_inj, ← List.utf8Decode?_utf8Encode, hl, List.utf8Decode?_utf8Encode]
  exact String.toList_inj.mp (by simpa using hd)

theorem utf8DecodeChar?_append (c : Char) (l : List UInt8) :
    (String.utf8EncodeChar c ++ l).toByteArray.utf8DecodeChar? 0 = some c := by
  rw [List.toByteArray_append]
  exact ByteArray.utf8DecodeChar?_utf8EncodeChar_append

theorem utf8DecodeChar?_eq_some {l : List UInt8} {c : Char} (h : l.toByteArray.utf8DecodeChar? 0 = some c) :
    ∃ r, l = String.utf8EncodeChar c ++ r := by
  obtain ⟨b, hb⟩ := ByteArray.exists_of_utf8DecodeChar?_eq_some h
  refine ⟨b.data.toList, ?_⟩
  have hdata := congrArg (fun b => b.data.toList) hb
  simpa using hdata

theorem zero_mem_utf8EncodeChar {c : Char} : 0 ∈ String.utf8EncodeChar c ↔ c = '\x00' := by
  constructor
  · intro h
    have hbyte : ∀ v : ℕ, 0 = UInt8.ofNat v → v % 256 = 0 := by
      intro v hv
      have hv' := congrArg UInt8.toNat hv
      rw [UInt8.toNat_ofNat'] at hv'
      exact hv'.symm
    have hv : c.val.toNat = 0 := by
      simp only [String.utf8EncodeChar] at h
      generalize c.val.toNat = v at h
      split_ifs at h with h1 h2 h3 <;> simp only [List.mem_cons, List.not_mem_nil, or_false] at h
      · have := hbyte _ h
        omega
      · rcases h with h | h <;> have := hbyte _ h <;> omega
      · rcases h with h | h | h <;> have := hbyte _ h <;> omega
      · rcases h with h | h | h | h <;> have := hbyte _ h <;> omega
    exact Char.ext (UInt32.toNat_inj.mp hv)
  · rintro rfl
    decide

theorem zero_mem_toUtf8 {s : String} : 0 ∈ toUtf8 s ↔ '\x00' ∈ s.toList := by
  simp [toUtf8, List.mem_flatMap, zero_mem_utf8EncodeChar]

theorem toUtf8_cons (c : Char) (l : List Char) :
    toUtf8 (String.ofList (c :: l)) = String.utf8EncodeChar c ++ toUtf8 (String.ofList l) := by
  simp [toUtf8]

theorem utf8bom_eq : utf8bom = String.utf8EncodeChar '\uFEFF' := by decide

theorem utf8bom_prefix_toUtf8 {s : String} : utf8bom <+: toUtf8 s ↔ s.toList.head? = some '\uFEFF' := by
  obtain ⟨l, rfl⟩ : ∃ l, s = String.ofList l := ⟨s.toList, by simp⟩
  rcases l with _ | ⟨c, l⟩
  · simp [toUtf8, utf8bom]
  · rw [toUtf8_cons, utf8bom_eq, String.toList_ofList, List.head?_cons, Option.some.injEq]
    constructor
    · rintro ⟨r, hr⟩
      have h := utf8DecodeChar?_append '\uFEFF' r
      rw [hr, utf8DecodeChar?_append, Option.some.injEq] at h
      exact h
    · rintro rfl
      exact List.prefix_append _ _

/-- The characters of a UTF-8 form are found again. -/
theorem convertToUnicode_toUtf8 {n : ℕ} {l : List Char} (h : (l.flatMap String.utf8EncodeChar).length ≤ n) :
    convertToUnicode n (l.flatMap String.utf8EncodeChar) = l := by
  induction n generalizing l with
  | zero =>
    rcases l with _ | ⟨c, l⟩
    · rfl
    · have hpos := c.utf8Size_pos
      rw [List.flatMap_cons, List.length_append, String.length_utf8EncodeChar] at h
      omega
  | succ n ih =>
    rcases l with _ | ⟨c, l⟩
    · rfl
    · have hpos := c.utf8Size_pos
      have hlen := String.length_utf8EncodeChar c
      rw [List.flatMap_cons, List.length_append] at h
      have hdec := utf8DecodeChar?_append c (l.flatMap String.utf8EncodeChar)
      rw [List.flatMap_cons]
      rcases he : String.utf8EncodeChar c with _ | ⟨b, r⟩
      · rw [he] at hlen
        exact absurd hlen (by simp; omega)
      · rw [he] at hdec h
        rw [List.cons_append] at hdec ⊢
        have hdrop : (b :: (r ++ l.flatMap String.utf8EncodeChar)).drop c.utf8Size = l.flatMap String.utf8EncodeChar := by
          rw [← List.cons_append, ← hlen, he]
          exact List.drop_left
        rw [convertToUnicode, hdec]
        simp only [hdrop]
        rw [ih (by rw [List.length_cons] at h; omega)]

/-- No null character is made up. -/
theorem zero_mem_of_mem_convertToUnicode {n : ℕ} {l : List UInt8} (h : '\x00' ∈ convertToUnicode n l) : 0 ∈ l := by
  induction n generalizing l with
  | zero => exact absurd h (by simp [convertToUnicode])
  | succ n ih =>
    rcases l with _ | ⟨b, l⟩
    · exact absurd h (by simp [convertToUnicode])
    · rw [convertToUnicode] at h
      rcases hd : (b :: l).toByteArray.utf8DecodeChar? 0 with _ | c
      · rw [hd] at h
        rcases List.mem_cons.mp h with hc | h
        · exact absurd hc (by decide)
        · exact List.mem_cons_of_mem b (ih h)
      · rw [hd] at h
        rcases List.mem_cons.mp h with hc | h
        · obtain ⟨r, hr⟩ := utf8DecodeChar?_eq_some hd
          rw [hr]
          exact List.mem_append_left r (zero_mem_utf8EncodeChar.mpr hc.symm)
        · exact List.mem_of_mem_drop (ih h)

/-- The texts that come back: no null character, and no byte order mark at the beginning. -/
def Streamable (s : String) : Prop := '\x00' ∉ s.toList ∧ s.toList.head? ≠ some '\uFEFF'

instance (s : String) : Decidable (Streamable s) := inferInstanceAs (Decidable (_ ∧ _))

theorem takeWhile_toUtf8 {s : String} (h : '\x00' ∉ s.toList) : (toUtf8 s).takeWhile (· ≠ 0) = toUtf8 s := by
  rw [List.takeWhile_eq_self_iff]
  intro b hb
  rw [decide_eq_true_eq]
  rintro rfl
  exact h (zero_mem_toUtf8.mp hb)

theorem fromUtf8_toUtf8_iff {s : String} : fromUtf8 (toUtf8 s) = s ↔ Streamable s := by
  constructor
  · intro h
    have hnull : '\x00' ∉ s.toList := by
      intro hc
      have hmem := hc
      rw [← h] at hmem
      simp only [fromUtf8, String.toList_ofList] at hmem
      have hzero := zero_mem_of_mem_convertToUnicode hmem
      have htake : (0 : UInt8) ∈ (toUtf8 s).takeWhile (· ≠ 0) := by
        split at hzero
        · exact List.mem_of_mem_drop hzero
        · exact hzero
      exact absurd (List.mem_takeWhile_imp htake) (by simp)
    refine ⟨hnull, fun hbom => ?_⟩
    obtain ⟨l, hl⟩ : ∃ l, s.toList = '\uFEFF' :: l := List.head?_eq_some_iff.mp hbom
    have hs : toUtf8 s = utf8bom ++ l.flatMap String.utf8EncodeChar := by
      rw [toUtf8, hl, List.flatMap_cons, utf8bom_eq]
    have hlist := congrArg String.toList h
    rw [fromUtf8, takeWhile_toUtf8 hnull, if_pos (utf8bom_prefix_toUtf8.mpr hbom), hs] at hlist
    have hdrop : (utf8bom ++ l.flatMap String.utf8EncodeChar).drop 3 = l.flatMap String.utf8EncodeChar := rfl
    simp only [hdrop] at hlist
    rw [convertToUnicode_toUtf8 le_rfl, String.toList_ofList, hl] at hlist
    exact absurd hlist (List.cons_ne_self _ _).symm
  · rintro ⟨hnull, hbom⟩
    rw [fromUtf8, takeWhile_toUtf8 hnull, if_neg (fun hc => hbom (utf8bom_prefix_toUtf8.mp hc)), toUtf8,
      convertToUnicode_toUtf8 le_rfl, String.ofList_toList]

namespace QDataStream

/-- `Utf8String`: the UTF-8 form as a byte array. -/
def utf8String : Codec UInt8 (Option Text) :=
  byteArray.pmap
    (fun
      | none => some none
      | some m => if h : toUtf8 (fromUtf8 m.1) = m.1 then some (some ⟨fromUtf8 m.1, by rw [h]; exact m.2⟩) else none)
    (fun t => t.map Text.toUtf8)
    (by
      rintro (_ | t) u h
      · exact (Option.some.inj h).symm
      · simp only [Option.map_some] at h
        split at h
        · rename_i ht
          rw [← Option.some.inj h, Option.some.injEq, Subtype.mk.injEq]
          exact toUtf8_injective ht
        · exact nomatch h)
    (by
      rintro (_ | m) u h hv
      · rw [← Option.some.inj h]
        exact ⟨rfl, hv⟩
      · simp only at h
        split at h
        · rename_i hm
          have hu : u.map Text.toUtf8 = some m := by
            rw [← Option.some.inj h]
            exact congrArg some (Subtype.ext hm)
          rw [hu]
          exact ⟨(dif_pos hm).trans h, hv⟩
        · exact nomatch h)

theorem Reads.readUtf8String : Reads readUtf8String utf8String.decode := by
  refine Reads.readByteArray.checked ?_ ?_
  · rintro (_ | m) t h
    · rw [← Option.some.inj h]
    · simp only at h ⊢
      split at h
      · rename_i hm
        rw [dif_pos hm, ← Option.some.inj h]
      · exact nomatch h
  · rintro (_ | m) h
    · exact nomatch h
    · simp only at h ⊢
      split at h
      · exact nomatch h
      · rename_i hm
        exact ⟨none, dif_neg hm⟩

theorem valid_utf8String (t : Option Text) : utf8String.valid t = true ↔ ∀ s ∈ t, Streamable s.1 := by
  rcases t with _ | s
  · simp [utf8String, Codec.pmap, valid_byteArray]
  · have hs := fromUtf8_toUtf8_iff (s := s.1)
    have hv : utf8String.valid (some s) = (byteArray.valid (some s.toUtf8) &&
        (if h : toUtf8 (fromUtf8 s.toUtf8.1) = s.toUtf8.1 then
          some (some (⟨fromUtf8 s.toUtf8.1, by rw [h]; exact s.toUtf8.2⟩ : Text)) else none).isSome) := rfl
    rw [hv, valid_byteArray, Bool.true_and]
    have hiff : toUtf8 (fromUtf8 s.toUtf8.1) = s.toUtf8.1 ↔ Streamable s.1 := by
      rw [← hs]
      exact ⟨toUtf8_injective, congrArg toUtf8⟩
    split
    · rename_i h
      simpa using hiff.mp h
    · rename_i h
      simpa using fun hc => h (hiff.mpr hc)

end QDataStream

end QtDataSync

import QtDataSync.Lib.Transition
import QtDataSync.Messages.RoundTrip

/-!
# Messages.Authenticity — signed messages are the messages that were signed

A signer signs messages by `serializeSigned` and nothing else.  The server gets any bytes, reads a name, a message and
a signature from them, and verifies the signature of what it has read.  Where it accepts, what it has read and what
was signed begin alike, and since the encoding of a message is self-delimiting they are the same message.
-/

namespace QtDataSync.Messages

open QDataStream Message

namespace Message

/-- A value of the enumeration `ErrorType` is one of its enumerators. -/
def Enumerated : Message → Prop
  | ⟨.Error, p⟩ => isErrorType (Prod.fst p) = true
  | _ => True

end Message

/-- What a signer has signed: the messages, and the table of its signatures. -/
structure Signer where
  signed : List Message
  tags : Tags UInt8

namespace Signer

/-- `serializeSigned`, with the signature that is made for what has been serialized. -/
def sign (s : Signer) (m : Message) (signature : List UInt8) (h : signature.length = s.tags.tagSize) : Signer :=
  ⟨m :: s.signed, s.tags.add m.serialize signature h⟩

/-- Signers of messages, with signatures of one size. -/
def lts (tagSize : ℕ) : LTS Signer (Message × List UInt8) where
  init s := s = ⟨[], .empty tagSize⟩
  step s a t := a.1.Enumerated ∧ ∃ h : a.2.length = s.tags.tagSize, t = s.sign a.1 a.2 h

/-- All signatures are for messages that were signed. -/
structure Invariant (s : Signer) : Prop where
  enumerated : ∀ m ∈ s.signed, m.Enumerated
  table : ∀ x ∈ s.tags.table, ∃ m ∈ s.signed, x.1 = m.serialize

theorem Invariant.next {s t : Signer} {a : Message × List UInt8} {tagSize : ℕ} (h : s.Invariant)
    (hst : (lts tagSize).step s a t) : t.Invariant := by
  obtain ⟨ha, hlen, rfl⟩ := hst
  constructor
  · intro m hm
    rcases List.mem_cons.mp hm with rfl | hm
    · exact ha
    · exact h.enumerated m hm
  · intro x hx
    rcases List.mem_cons.mp hx with rfl | hx
    · exact ⟨a.1, List.mem_cons_self, rfl⟩
    · obtain ⟨m, hm, he⟩ := h.table x hx
      exact ⟨m, List.mem_cons_of_mem a.1 hm, he⟩

theorem invariant {s : Signer} {tagSize : ℕ} (h : (lts tagSize).Reachable LTS.free s) : s.Invariant := by
  refine LTS.Reachable.invariant (I := Invariant) ?_ ?_ h
  · rintro _ rfl
    exact ⟨fun m hm => absurd hm List.not_mem_nil, fun x hx => absurd hx List.not_mem_nil⟩
  · exact fun s a t _ hs _ hst => hs.next hst

end Signer

end QtDataSync.Messages

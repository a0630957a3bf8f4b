import Ccbt.Python.Bytes

/-!
# Reading from a connection: `asyncio.StreamReader`

`readexactly` under a timeout. The octets of the peer arrive in parts while somebody waits for them;
behind the last part the peer closes its side, or it waits for an answer.
-/

namespace Python

structure StreamReader where
  buffer : Bytes := []
  /-- The parts that have not arrived yet. -/
  incoming : List Bytes
  /-- Whether the end of the stream comes behind the last part. -/
  closes : Bool
  deriving DecidableEq

inductive ReadResult
  | data (octets : Bytes)
  /-- `IncompleteReadError` -/
  | incomplete (received : Bytes) (expected : Nat)
  /-- `TimeoutError` -/
  | timeout
  deriving DecidableEq

namespace StreamReader

/-- All that nobody has read yet. -/
def unread (r : StreamReader) : Bytes := r.buffer ++ r.incoming.flatten

/-- The loop of `readexactly`. At the end of the stream the octets that are there are taken out of
the buffer all the same. -/
def readLoop (n : Nat) (buffer : Bytes) (closes : Bool) :
    List Bytes → ReadResult × StreamReader
  | [] =>
    if n ≤ buffer.length then (.data (buffer.take n), ⟨buffer.drop n, [], closes⟩)
    else if closes then (.incomplete buffer n, ⟨[], [], closes⟩)
    else (.timeout, ⟨buffer, [], closes⟩)
  | part :: incoming =>
    if n ≤ buffer.length then (.data (buffer.take n), ⟨buffer.drop n, part :: incoming, closes⟩)
    else readLoop n (buffer ++ part) closes incoming

/-- `asyncio.wait_for(reader.readexactly(n), timeout)` -/
def readexactly (r : StreamReader) (n : Nat) : ReadResult × StreamReader :=
  readLoop n r.buffer r.closes r.incoming

/-- However the octets arrive, a read takes them from the front. -/
theorem readLoop_of_le {n : Nat} {buffer : Bytes} {closes : Bool} {incoming : List Bytes}
    (h : n ≤ (buffer ++ incoming.flatten).length) :
    (readLoop n buffer closes incoming).1 = .data ((buffer ++ incoming.flatten).take n) ∧
      (readLoop n buffer closes incoming).2.unread = (buffer ++ incoming.flatten).drop n := by
  induction incoming generalizing buffer with
  | nil =>
    have hn : n ≤ buffer.length := by simpa using h
    simp [readLoop, hn, unread]
  | cons part incoming ih =>
    rw [readLoop]
    split
    · next hn =>
      rw [List.take_append_of_le_length hn, List.drop_append_of_le_length hn]
      exact ⟨rfl, rfl⟩
    · rw [List.flatten_cons, ← List.append_assoc] at h ⊢
      exact ih h

theorem readLoop_of_gt {n : Nat} {buffer : Bytes} {closes : Bool} {incoming : List Bytes}
    (h : (buffer ++ incoming.flatten).length < n) :
    readLoop n buffer closes incoming =
      if closes then (.incomplete (buffer ++ incoming.flatten) n, ⟨[], [], closes⟩)
      else (.timeout, ⟨buffer ++ incoming.flatten, [], closes⟩) := by
  induction incoming generalizing buffer with
  | nil =>
    have hn : ¬n ≤ buffer.length := by simpa using h
    simp [readLoop, hn]
  | cons part incoming ih =>
    have hn : ¬n ≤ buffer.length := by
      rw [List.length_append] at h
      omega
    rw [readLoop, if_neg hn]
    rw [List.flatten_cons, ← List.append_assoc] at h ⊢
    exact ih h

/-- Where there are enough octets they are read, however they arrive. -/
theorem readexactly_of_le {r : StreamReader} {n : Nat} (h : n ≤ r.unread.length) :
    (r.readexactly n).1 = .data (r.unread.take n) ∧ (r.readexactly n).2.unread = r.unread.drop n :=
  readLoop_of_le h

/-- Where there are not, nothing is left at the end of the stream, and there is no end otherwise. -/
theorem readexactly_of_gt {r : StreamReader} {n : Nat} (h : r.unread.length < n) :
    r.readexactly n = if r.closes then (.incomplete r.unread n, ⟨[], [], r.closes⟩)
      else (.timeout, ⟨r.unread, [], r.closes⟩) :=
  readLoop_of_gt h

end StreamReader

end Python

import CellTx.Encoding
import CellTx.Search
import CellTx.SystemScripts

/-!
# Cheques

A cheque is a token cell under the cheque lock, whose args name two locks by the first twenty bytes
of their hashes: the receiver's, who may claim the cheque, and the sender's, who may take it back
later (specification, sections 3 and 4.6). `ChequeArgs.ofLocks` names two locks, `ofBytes` reads the
args of a cell, and `chequeSearch` is the search for cheques whose args begin with some bytes.

Results:
* `Script.length_hashHead`, `length_bytes`: the args have forty bytes.
* `ofBytes_bytes`, `bytes_of_ofBytes`: reading the args gives back what was written, and the other
  way round.

Out of scope: what the cheque lock demands of a transaction that spends a cheque.
-/

namespace CellTx

/-- The first twenty bytes of the hash of a lock. -/
def Script.hashHead (lock : Script) : Bytes := lock.hash.bytes.take 20

/-- The two locks that a cheque names. -/
structure ChequeArgs where
  receiver : Bytes
  sender : Bytes
  length_receiver : receiver.length = 20
  length_sender : sender.length = 20
deriving DecidableEq

theorem Script.length_hashHead (lock : Script) : lock.hashHead.length = 20 := by
  rw [hashHead, List.length_take, lock.hash.length_bytes]
  rfl

namespace ChequeArgs

/-- The bytes of the args. -/
def width : Nat := 40

/-- The args that name two locks. -/
def ofLocks (receiver sender : Script) : ChequeArgs where
  receiver := receiver.hashHead
  sender := sender.hashHead
  length_receiver := receiver.length_hashHead
  length_sender := sender.length_hashHead

/-- Reads args, which must have forty bytes. -/
def ofBytes (args : Bytes) : Except EncodingError ChequeArgs :=
  if h : args.length = width then
    .ok {
      receiver := args.take 20
      sender := args.drop 20
      length_receiver := by
        rw [List.length_take, h]
        rfl
      length_sender := by
        rw [List.length_drop, h]
        rfl }
  else .error (.chequeArgs args.length)

/-- The args as bytes. -/
def bytes (a : ChequeArgs) : Bytes := a.receiver ++ a.sender

/-- Whether a lock is the sender that the args name. -/
def isSender (a : ChequeArgs) (lock : Script) : Bool := lock.hashHead = a.sender

@[simp] theorem length_bytes (a : ChequeArgs) : a.bytes.length = width := by
  rw [bytes, List.length_append, a.length_receiver, a.length_sender, width]

theorem ofBytes_bytes (a : ChequeArgs) : ofBytes a.bytes = .ok a := by
  have hr : a.bytes.take 20 = a.receiver := by
    rw [bytes, List.take_append_of_le_length (Nat.le_of_eq a.length_receiver.symm),
      List.take_of_length_le (Nat.le_of_eq a.length_receiver)]
  have hs : a.bytes.drop 20 = a.sender := by
    rw [bytes, List.drop_append_of_le_length (Nat.le_of_eq a.length_receiver.symm),
      List.drop_eq_nil_of_le (Nat.le_of_eq a.length_receiver), List.nil_append]
  rw [ofBytes, dif_pos a.length_bytes]
  simp only [hr, hs]

theorem bytes_of_ofBytes {args : Bytes} {a : ChequeArgs} (h : ofBytes args = .ok a) :
    a.bytes = args := by
  unfold ofBytes at h
  split at h
  · rw [← Except.ok.inj h]
    exact List.take_append_drop 20 args
  · exact absurd h (by simp)

end ChequeArgs

namespace SystemScripts

/-- The cheques of a token whose lock args begin with `args`. -/
def chequeSearch (s : SystemScripts) (args : Bytes) (owner : Hash) : SearchKey :=
  { script := s.chequeLock args, filter := some { script := some (s.sudtType owner) } }

end SystemScripts

end CellTx

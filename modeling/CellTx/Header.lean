import CellTx.Epoch
import CellTx.Hash

/-!
# Block headers

What is read of a header (specification, sections 4.5 and 6): the block's number, its point of chain
time and the 32 bytes of its DAO field, which hold the accumulate rate in bytes 8 to 16.
`accumulateRate` reads the rate from bytes of any length and refuses those that are not 32;
`Header.rate` reads it from a header, where the length is known.

Results:
* `Header.rate_withRate`: a header made with a rate has it.

Out of scope: the other fields of the binary form, which are zero or fixed here: the target, the
time stamp, the parent, the commitments to transactions and uncles, and the nonce. So two headers
have one hash when they agree on the three fields.
-/

namespace CellTx

/-- A block header. -/
structure Header where
  number : UInt64
  epoch : EpochFraction
  /-- The 32 bytes of the DAO field. -/
  dao : Hash
deriving DecidableEq

/-- The accumulate rate in the bytes of a DAO field. -/
def rateIn (dao : Bytes) : UInt64 := UInt64.ofNat (leNat ((dao.drop 8).take 8))

/-- The accumulate rate in the bytes of a DAO field, which must be 32. -/
def accumulateRate (dao : Bytes) : Except EncodingError UInt64 :=
  if dao.length = 32 then .ok (rateIn dao) else .error (.daoField dao.length)

namespace Header

/-- The header of a block whose DAO field holds nothing but the rate. -/
def withRate (number : UInt64) (epoch : EpochFraction) (rate : UInt64) : Header where
  number := number
  epoch := epoch
  dao :=
    { bytes := zeros 8 ++ (leBytes 8 rate.toNat ++ zeros 16)
      length_bytes := by simp }

/-- The accumulate rate of the block. -/
def rate (h : Header) : UInt64 := rateIn h.dao.bytes

/-- The binary form, 208 bytes. -/
def serialize (h : Header) : Bytes :=
  zeros 4 ++ leBytes 4 0x20800000 ++ zeros 8 ++ leBytes 8 h.number.toNat ++
    leBytes 8 h.epoch.full.toNat ++ zeros 128 ++ h.dao.bytes ++ zeros 16

/-- The hash that names a block. -/
def hash (h : Header) : Hash := Hash.of h.serialize

theorem rate_withRate (number : UInt64) (epoch : EpochFraction) (rate : UInt64) :
    (withRate number epoch rate).rate = rate := by
  have h : (((zeros 8 ++ (leBytes 8 rate.toNat ++ zeros 16)) : Bytes).drop 8).take 8 =
      leBytes 8 rate.toNat := by
    rw [List.drop_append_of_le_length (by simp), List.drop_eq_nil_of_le (by simp),
      List.nil_append, List.take_append_of_le_length (by simp), List.take_of_length_le (by simp)]
  have hr := rate.toNat_lt
  rw [Header.rate, withRate, rateIn, h, leNat_leBytes (by simpa [byteBound] using hr),
    UInt64.ofNat_toNat]

end Header

end CellTx

import CellTx.Capacity
import CellTx.Text.Quoted
import CellTx.Token

/-!
# Amounts as people write them

A capacity is written in CKB: digits, and after a point one to eight more. A token amount is digits
only (specification, section 14). There is no sign, exponent, separator or blank, and only the ten
digits of ASCII count. What cannot be read is told with the text itself (`AmountError.message`),
under the first rule that it breaks: its shape, then the number of its places, then its size.

`readCapacity` and `readTokens` are exact: `Amount.readings_exact` in `CellTx.Proofs.WrittenAmounts`
says which texts are read and as what, and that all others are refused as invalid amounts.

Out of scope: writing an amount for people.
-/

namespace CellTx

/-- Why a written amount cannot be used. -/
inductive AmountError where
  /-- The text has not the form of a CKB amount, or its whole part is beyond 64 bits. -/
  | notCapacity (input : String)
  /-- The text has digits below the shannon. -/
  | tooPrecise (input : String)
  /-- The amount is beyond 64 bits of shannons. -/
  | capacityTooLarge (input : String)
  /-- The text has not the form of a token amount. -/
  | notTokens (input : String)
  /-- The amount is beyond 128 bits. -/
  | tokensTooLarge (input : String)
deriving DecidableEq

namespace Amount

/-- The places after the point of a CKB amount. -/
def places : Nat := 8

/-- The number that a list of decimal digits denotes, the first one most significant. -/
def digitsValue (cs : List Char) : Nat := cs.foldl (fun n c => 10 * n + (c.toNat - 48)) 0

/-- One or more decimal digits. -/
def isNumeral (cs : List Char) : Bool := !cs.isEmpty && cs.all Char.isDigit

/-- The text before the first point and, where there is a point, the text after it. -/
def splitPoint (cs : List Char) : List Char × Option (List Char) :=
  (cs.takeWhile (· != '.'), match cs.dropWhile (· != '.') with
    | [] => none
    | _ :: rest => some rest)

/-- Reads a CKB amount as shannons. -/
def readCapacity (input : String) : Except AmountError Capacity :=
  let (whole, fraction) := splitPoint input.toList
  if isNumeral whole && fraction.all isNumeral then
    let digits := fraction.getD []
    if places < digits.length then .error (.tooPrecise input)
    else if UInt64.size ≤ digitsValue whole then .error (.notCapacity input)
    else
      let padded := digits ++ List.replicate (places - digits.length) '0'
      let shannons := digitsValue whole * Capacity.perCkb + digitsValue padded
      match Capacity.ofNat? shannons with
      | some c => .ok c
      | none => .error (.capacityTooLarge input)
  else .error (.notCapacity input)

/-- Reads a token amount. -/
def readTokens (input : String) : Except AmountError TokenAmount :=
  if isNumeral input.toList then
    match TokenAmount.ofNat? (digitsValue input.toList) with
    | some a => .ok a
    | none => .error (.tokensTooLarge input)
  else .error (.notTokens input)

end Amount

namespace AmountError

/-- The error in words, with the text it is about in quotes. -/
def message : AmountError → String
  | notCapacity input => Text.quoted input ++ " is not a CKB amount"
  | tooPrecise input => Text.quoted input ++ s!" has more than {Amount.places} decimal places"
  | capacityTooLarge input => Text.quoted input ++ " overflows u64 shannons"
  | notTokens input => Text.quoted input ++ " is not a token amount"
  | tokensTooLarge input => Text.quoted input ++ " overflows u128"

end AmountError

end CellTx

import CellTx.Transaction

/-!
# System scripts

The programs that the flows rely on, where they are deployed, and the deployments of the two public
networks (specification, sections 12 and 14): the lock of single signatures, the DAO, the simple
token and the cheque. `daoType`, `sudtType` and `chequeLock` are their scripts with args.

Out of scope: what the programs do, and whether the deployments that a configuration gives are on
the chain.
-/

namespace CellTx

/-- How a cell dep is to be read. -/
inductive DepType where
  /-- The cell holds a program. -/
  | code
  /-- The cell holds a list of out points that stand for it. -/
  | depGroup
deriving DecidableEq

namespace DepType

/-- The byte that stands for a dep type. -/
def byte : DepType → UInt8
  | code => 0
  | depGroup => 1

/-- The name of a dep type. -/
def name : DepType → String
  | code => "code"
  | depGroup => "dep_group"

/-- The dep types by name. -/
def names : List (String × DepType) := [("code", code), ("dep_group", depGroup)]

end DepType

/-- Where a program lives, and how scripts refer to it. -/
structure Deployment where
  codeHash : Hash
  hashType : HashType
  txHash : Hash
  index : UInt32
  depType : DepType
deriving DecidableEq

namespace Deployment

/-- The program with args. -/
def script (d : Deployment) (args : Bytes) : Script := ⟨d.codeHash, d.hashType, args⟩

/-- The cell dep that loads the program. -/
def dep (d : Deployment) : CellDep := ⟨⟨d.txHash, d.index⟩, d.depType.byte⟩

end Deployment

/-- The programs that the flows rely on. -/
structure SystemScripts where
  /-- The usual lock, a signature for the hash of a public key. -/
  secp256k1Blake160 : Deployment
  /-- The type of DAO cells. -/
  dao : Deployment
  /-- The type of simple token cells. -/
  sudt : Deployment
  /-- The lock of cheques. -/
  cheque : Deployment
deriving DecidableEq

namespace SystemScripts

/-- The type of DAO cells. -/
def daoType (s : SystemScripts) : Script := s.dao.script []

/-- The type of the token whose issuer's lock has the hash `owner`. -/
def sudtType (s : SystemScripts) (owner : Hash) : Script := s.sudt.script owner.bytes

/-- The lock of a cheque with the given args. -/
def chequeLock (s : SystemScripts) (args : Bytes) : Script := s.cheque.script args

/-- The deployment on the main network. -/
def mainnet : SystemScripts where
  secp256k1Blake160 :=
    { codeHash := .ofNat 0x9bd7e06f3ecf4be0f2fcd2188b23f1b9fcc88e5d4b65a8637b17723bbda3cce8
      hashType := .type
      txHash := .ofNat 0x71a7ba8fc96349fea0ed3a5c47992e3b4084b031a42264a018e0072e8172e46c
      index := 0
      depType := .depGroup }
  dao :=
    { codeHash := .ofNat 0x82d76d1b75fe2fd9a27dfbaa65a039221a380d76c926f378d3f81cf3e7e13f2e
      hashType := .type
      txHash := .ofNat 0xe2fb199810d49a4d8beec56718ba2593b665db9d52299a0f9e6e75416d73ff5c
      index := 2
      depType := .code }
  sudt :=
    { codeHash := .ofNat 0x5e7a36a77e68eecc013dfa2fe6a23f3b6c344b04005808694ae6dd45eea4cfd5
      hashType := .type
      txHash := .ofNat 0xc7813f6a415144643970c2e88e0bb6ca6a8edc5dd7c1022746f628284a9936d5
      index := 0
      depType := .code }
  cheque :=
    { codeHash := .ofNat 0xe4d4ecc6e5f9a059bf2f7a82cca292083aebc0c421566a52484fe2ec51a9fb0c
      hashType := .type
      txHash := .ofNat 0x04632cc459459cf5c9d384b43dee3e36f542a464bdd4127be7d6618ac6f8d268
      index := 0
      depType := .depGroup }

/-- The deployment on the public test network. -/
def testnet : SystemScripts where
  secp256k1Blake160 :=
    { codeHash := .ofNat 0x9bd7e06f3ecf4be0f2fcd2188b23f1b9fcc88e5d4b65a8637b17723bbda3cce8
      hashType := .type
      txHash := .ofNat 0xf8de3bb47d055cdf460d93a2a6e1b05f7432f9777c8c474abf4eec1d4aee5d37
      index := 0
      depType := .depGroup }
  dao :=
    { codeHash := .ofNat 0x82d76d1b75fe2fd9a27dfbaa65a039221a380d76c926f378d3f81cf3e7e13f2e
      hashType := .type
      txHash := .ofNat 0x8f8c79eb6671709633fe6a46de93c0fedc9c1b8a6527a18d3983879542635c9f
      index := 2
      depType := .code }
  sudt :=
    { codeHash := .ofNat 0xc5e5dcf215925f7ef4dfaf5f4b4f105bc321c02776d6e7d52a1db3fcd9d011a4
      hashType := .type
      txHash := .ofNat 0xe12877ebd2c3c364dc46c5c992bcfaf4fee33fa13eebdf82c591fc9825aab769
      index := 0
      depType := .code }
  cheque :=
    { codeHash := .ofNat 0x60d5f39efce409c587cb9ea359cefdead650ca128f0bd9cb3855348f98c70d5b
      hashType := .type
      txHash := .ofNat 0x7f96858be0a9d584b4a9ea190e0420835156a6010a5fde15ffcdc9d9c721ccab
      index := 0
      depType := .depGroup }

end SystemScripts

end CellTx

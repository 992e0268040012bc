import CellTx.Ledger.Node
import CellTx.Transfer
import CellTx.Dao.Deposit
import CellTx.Dao.Info
import CellTx.Dao.Withdraw
import CellTx.Cheque.Claim
import CellTx.Cheque.Withdraw
import CellTx.Config.Reader
import CellTx.Config.Writer
import CellTx.Proofs.Tokens
import CellTx.Proofs.ClaimedCheques
import CellTx.Proofs.Signatures
import CellTx.Proofs.WithdrawnState
import CellTx.Proofs.SpentOnce
import CellTx.Proofs.IssuedCheques
import CellTx.Proofs.SpendableRefunds
import CellTx.Proofs.Heeding
import CellTx.Proofs.Reading
import CellTx.Proofs.ForeignCells
import CellTx.Proofs.Defects
import CellTx.Proofs.Enough
import CellTx.Proofs.TokenPass
import CellTx.Proofs.Settling
import CellTx.Proofs.Interest
import CellTx.Proofs.LockCycles
import CellTx.Proofs.Paging
import CellTx.Proofs.Columns
import CellTx.Proofs.ChangeSlot
import CellTx.Proofs.Partition
import CellTx.Proofs.Transfers
import CellTx.Proofs.TakingBack
import CellTx.Proofs.EpochForms
import CellTx.Proofs.WrittenAmounts
import CellTx.Proofs.Shortages
import CellTx.Proofs.MoreFunds
import CellTx.Proofs.TimeLocks
import CellTx.Proofs.Postings
import CellTx.Proofs.Resizing
import CellTx.Proofs.WrittenToml
import CellTx.Proofs.ReadBack
import CellTx.Proofs.DueFees

import Mydon.Stock.MergeBalance
import Mydon.Ledger.Budget
import Mydon.Ledger.Idempotency
import Mydon.Jobs.Circuit
import Mydon.Tasks.AnswerDone
import Mydon.Issues.LowStock
import Mydon.Issues.Parity
import Mydon.Outbox.AtMostOnce
import Mydon.Session.OneWire
import Mydon.Vending.RefillHistory
import Mydon.Vending.ReportCache
import Mydon.Cash.Partition
import Mydon.Globerent.Sales
import Mydon.Globerent.Payments
import Mydon.Contracts.Settlement
import Mydon.Registry.Foreign
import Mydon.Registry.Division
import Mydon.Entities.PriceHistory
import Mydon.Sales.ProductCards
import Mydon.Machines.NumberRuns
import Mydon.Machines.Siting
import Mydon.Coffee.WriteOffs
import Mydon.Ledger.Reserve
import Mydon.Recon.ParityStreak
import Mydon.Spool.Retries
import Mydon.People.AccessLaw
import Mydon.Notify.NoSkip
import Mydon.Globerent.Pricing
import Mydon.Recon.Symmetry
import Mydon.Raw.Csv
import Mydon.Raw.Stays
import Mydon.Raw.Prices
import Mydon.Vending.GoodsStock
import Mydon.Stock.PurchaseMirror
import Mydon.Stock.Neutral
import Mydon.Vending.Plan
import Mydon.Vending.PurchaseContext
import Mydon.Vending.ShrinkRuns
import Mydon.Vending.RecordCancel
import Mydon.Vending.OrderReceipt
import Mydon.Coffee.Visits
import Mydon.Finance.CashReconcile
import Mydon.Finance.Summary
import Mydon.Finance.BankImport
import Mydon.Vending.MarginOrder
import Mydon.Finance.StatementKeys
import Mydon.Stock.RegisterRows
import Mydon.Stock.ExpiryQueue
import Mydon.Contracts.Annuity
import Mydon.Vending.IsoWeek
import Mydon.Ourvend.LotRows
import Mydon.Stock.Consumption

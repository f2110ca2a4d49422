import ApexPayments.Serializability
import ApexPayments.Stranded
import ApexPayments.Announcements
import ApexPayments.Expiry
import ApexPayments.KeyScopes
import ApexPayments.Solvency
import ApexPayments.BalanceReports
import ApexPayments.WebhookEndpoint
import ApexPayments.WebhookDecoding
import ApexPayments.FirstTransaction
import ApexPayments.Duplicates
import ApexPayments.LostEvents
import ApexPayments.Deadlocks
import ApexPayments.Turns
import ApexPayments.Delivery
import ApexPayments.Positions
import ApexPayments.Lifecycle
import ApexPayments.Statements
import ApexPayments.RefundOnce
import ApexPayments.RequestHash
import ApexPayments.RelayLoop
import ApexPayments.Providers
import ApexPayments.Feed
import ApexPayments.Responses
import ApexPayments.RowLocking.Races

import FuelNear.Meter
import FuelNear.Sql
import FuelNear.Text
import FuelNear.Coverage
import FuelNear.Referral
import FuelNear.Apple.Adjustment
import FuelNear.Apple.Evidence
import FuelNear.Apple.Transaction
import FuelNear.Runs
import FuelNear.Accounts
import FuelNear.Apple.Save
import FuelNear.Apple.Redelivery
import FuelNear.Apple.Delivery
import FuelNear.Apple.Readers
import FuelNear.Apple.Refunded
import FuelNear.Apple.Economics
import FuelNear.Apple.Episode
import FuelNear.Apple.Repeat
import FuelNear.Plus.Reconcile
import FuelNear.Plus.Snapshot
import FuelNear.Plus.Legacy
import FuelNear.Plus.Grant
import FuelNear.Locking
import FuelNear.Ownership.Store
import FuelNear.Ownership.Workers
import FuelNear.Ownership.Serial
import FuelNear.Notifications.Workers
import FuelNear.Notifications.Attempts
import FuelNear.Notifications.Sent
import FuelNear.Creator.Tables
import FuelNear.Creator.Conversion
import FuelNear.Purchase.Process
import FuelNear.Creator.Milestone
import FuelNear.Purchase.Milestone
import FuelNear.Purchase.Agreement
import FuelNear.Purchase.Arrival
import FuelNear.Plus.Transfer
import FuelNear.Purchase.Claiming
import FuelNear.Creator.Attribution
import FuelNear.Creator.FirstTouch
import FuelNear.Ownership.Deletion
import FuelNear.Referrals.Store
import FuelNear.Referrals.Workers
import FuelNear.Referrals.Limit
import FuelNear.Connection
import FuelNear.Dict
import FuelNear.Mimit.Prices
import FuelNear.Mimit.Stations
import FuelNear.Mimit.Import
import FuelNear.Mimit.Selection
import FuelNear.Mimit.Averages
import FuelNear.Auth.Sessions
import FuelNear.Auth.Rotation
import FuelNear.Auth.Refresh
import FuelNear.Auth.Verification
import FuelNear.Auth.Endpoints
import FuelNear.Auth.Guessing
import FuelNear.Auth.Linking
import FuelNear.Auth.AppleTokens
import FuelNear.Auth.Deletion
import FuelNear.Auth.Revocations
import FuelNear.Mimit.Updates
import FuelNear.Mimit.Exclusion
import FuelNear.Apple.Grace
import FuelNear.Apple.Dated
import FuelNear.Purchase.Entitling
import FuelNear.Numeric
import FuelNear.Purchase.Schema
import FuelNear.Mimit.Accounting
import FuelNear.RateLimit
import FuelNear.Windows
import FuelNear.Pool
import FuelNear.Notifications.Improving
import FuelNear.Referrals.Batches
import FuelNear.Stations.Best
import FuelNear.Stations.Box
import FuelNear.Mimit.Page
import FuelNear.Mimit.Snapshot
import FuelNear.Spans
import FuelNear.Plus.Covered
import FuelNear.Plus.Backfill
import FuelNear.Apple.Config
import FuelNear.Apple.Payload
import FuelNear.Apple.Notification
import FuelNear.History
import FuelNear.Paging
import FuelNear.Creator.Campaigns
import FuelNear.Creator.Funnel
import FuelNear.Creator.MilestoneWorker
import FuelNear.Foreign
import FuelNear.Referrals.Network
import FuelNear.Referrals.Graph
import FuelNear.Referrals.History
import FuelNear.Referrals.Accounts
import FuelNear.Apple.Jws
import FuelNear.Ownership.Binding
import FuelNear.Purchase.Verify
import FuelNear.Purchase.Notify
import FuelNear.Since
import FuelNear.Alerts.Settings
import FuelNear.Alerts.Worker
import FuelNear.Alerts.Positions
import FuelNear.Alerts.Devices
import FuelNear.Alerts.Summary

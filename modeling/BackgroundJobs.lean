import BackgroundJobs.Event.Bus
import BackgroundJobs.Job.Summary
import BackgroundJobs.Json.Edit
import BackgroundJobs.Json.Lenient
import BackgroundJobs.Json.Reader
import BackgroundJobs.Main
import BackgroundJobs.Rehearsal.Document
import BackgroundJobs.Rehearsal.Scenario
import BackgroundJobs.Text.Labels
import BackgroundJobs.Proofs.Store.Operation
import BackgroundJobs.Proofs.Store.Listing
import BackgroundJobs.Proofs.Store.Soundness
import BackgroundJobs.Proofs.Realm.Effect
import BackgroundJobs.Proofs.Realm.Run
import BackgroundJobs.Proofs.Realm.Lock
import BackgroundJobs.Proofs.Argument.Same
import BackgroundJobs.Proofs.Job.Constraint
import BackgroundJobs.Proofs.Realm.Admissions
import BackgroundJobs.Proofs.Realm.Standing
import BackgroundJobs.Proofs.Realm.Uniqueness
import BackgroundJobs.Proofs.Realm.Deeds
import BackgroundJobs.Proofs.Realm.Attempts
import BackgroundJobs.Proofs.Realm.Cancellations
import BackgroundJobs.Proofs.Store.Evolution
import BackgroundJobs.Proofs.Realm.Coverage
import BackgroundJobs.Proofs.Realm.Signals
import BackgroundJobs.Proofs.Realm.Reports
import BackgroundJobs.Proofs.Realm.Endings
import BackgroundJobs.Proofs.Realm.Agreement
import BackgroundJobs.Proofs.Realm.Recovery
import BackgroundJobs.Proofs.Realm.Recurrence
import BackgroundJobs.Proofs.Realm.Latecomers
import BackgroundJobs.Proofs.Realm.Order
import BackgroundJobs.Proofs.Task.Export
import BackgroundJobs.Proofs.Realm.Policy
import BackgroundJobs.Proofs.Realm.Quota
import BackgroundJobs.Proofs.Realm.Failures
import BackgroundJobs.Proofs.Realm.Enlistments
import BackgroundJobs.Proofs.Realm.Declarations
import BackgroundJobs.Proofs.Dict
import BackgroundJobs.Proofs.Number.Decimal
import BackgroundJobs.Proofs.Text.Blank
import BackgroundJobs.Proofs.Time.Calendar
import BackgroundJobs.Proofs.Time.Stamp
import BackgroundJobs.Proofs.Uuid
import BackgroundJobs.Proofs.Json.Reading
import BackgroundJobs.Proofs.Job.Stored
import BackgroundJobs.Proofs.Event.Delivery
import BackgroundJobs.Proofs.Realm.Queue
import BackgroundJobs.Proofs.Time.Step
import BackgroundJobs.Proofs.Schedule.Cron
import BackgroundJobs.Proofs.Schedule.Next
import BackgroundJobs.Proofs.Schedule.Text
import BackgroundJobs.Proofs.Realm.Dues
import BackgroundJobs.Proofs.Realm.Schedules
import BackgroundJobs.Proofs.Realm.Cadence
import BackgroundJobs.Proofs.Task.Purge
import BackgroundJobs.Proofs.Job.Backoff
import BackgroundJobs.Proofs.Job.Draft
import BackgroundJobs.Proofs.Task.Compliance
import BackgroundJobs.Proofs.Job.Verdict
import BackgroundJobs.Proofs.Rehearsal

import Timetable.Main
import Timetable.Proofs.Jobs.Later
import Timetable.Action
import Timetable.Cron.Operation
import Timetable.Proofs.Action
import Timetable.Proofs.Cron.Operation
import Timetable.Proofs.Jobs.Operation
import Timetable.Proofs.Text.Place
import Timetable.Proofs.Cron.Ownership
import Timetable.Proofs.Jobs.Entry
import Timetable.Proofs.Jobs.Ownership
import Timetable.Proofs.Cron.Fields
import Timetable.Proofs.Cron.Line
import Timetable.Proofs.Cron.Listing
import Timetable.Proofs.Jobs.Listing
import Timetable.Proofs.Occurrence
import Timetable.Proofs.Occurrence.EarlyStart
import Timetable.Proofs.Occurrence.OneInstant
import Timetable.Proofs.Occurrence.Period
import Timetable.Proofs.Expression
import Timetable.Proofs.Cron.Deletion
import Timetable.Proofs.Expression.Rereading
import Timetable.Proofs.Expression.LetterCase
import Timetable.Proofs.Expression.RuleOrder
import Timetable.Proofs.Acceptance
import Timetable.Proofs.Cron.Daemon
import Timetable.Proofs.Interval.Merging
import Timetable.Proofs.Interval.Minutes
import Timetable.Proofs.Interval.Collecting
import Timetable.Proofs.Cron.LastLine
import Timetable.Proofs.Cron.Language
import Timetable.Proofs.Cron.Table
import Timetable.Proofs.Cron.Listed
import Timetable.Proofs.Jobs.User
import Timetable.Proofs.Jobs.Rescheduling
import Timetable.Proofs.Interval.Order
import Timetable.Proofs.Cron.LeftOut
import Timetable.Proofs.Jobs.UserColumn
import Timetable.Proofs.Jobs.UserLine
import Timetable.Proofs.Combination
import Timetable.Proofs.Scheduler.Usable
import Timetable.Proofs.Selection.Overflow
import Timetable.Proofs.Cron.Assembly

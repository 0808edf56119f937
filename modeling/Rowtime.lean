import Rowtime.Engine.Site
import Rowtime.Follow.Rehearsal
import Rowtime.Main
import Rowtime.Proofs.Abbreviations
import Rowtime.Proofs.Acknowledged
import Rowtime.Proofs.Casting
import Rowtime.Proofs.Dimensions
import Rowtime.Proofs.Discovery
import Rowtime.Proofs.Duplicates
import Rowtime.Proofs.Excluded
import Rowtime.Proofs.FirstRound
import Rowtime.Proofs.Idle
import Rowtime.Proofs.InOrder
import Rowtime.Proofs.InsertForms
import Rowtime.Proofs.JoinForms
import Rowtime.Proofs.Lines
import Rowtime.Proofs.Literals
import Rowtime.Proofs.Members
import Rowtime.Proofs.Merging
import Rowtime.Proofs.Pages
import Rowtime.Proofs.Patterns
import Rowtime.Proofs.Quoting
import Rowtime.Proofs.Refused
import Rowtime.Proofs.Rendered
import Rowtime.Proofs.Restated
import Rowtime.Proofs.Schedule
import Rowtime.Proofs.Sorting
import Rowtime.Proofs.Sound
import Rowtime.Proofs.Spelling
import Rowtime.Proofs.Unfinished
import Rowtime.Proofs.Uniqueness
import Rowtime.Proofs.Visits
import Rowtime.Proofs.Watermark
